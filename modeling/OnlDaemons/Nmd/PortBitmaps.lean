import Mathlib.Data.BitVec
import Mathlib.Data.List.Basic

/-!
# The port bitmaps of the SNMP switches

The ports of a VLAN are set with two strings of hex digits, one of the ports that are in the VLAN and one of those that
must not be. The first digit stands for the ports 1 to 4.

## Main definitions

- `encodeEgressPorts`, `setSwitchVlanMembershipSnmp` — the strings that are sent
- `Names` — the ports that a string stands for

## Main result

- `snmpPorts_iff` — when the strings stand for the right ports
-/

namespace OnlDaemons.Nmd

/-- Two digits. -/
def getHexString (bval : BitVec 8) : List Char :=
  [Nat.digitChar (bval >>> 4).toNat,Nat.digitChar (bval &&& 0x0f#8).toNat]

/-- The `int` that `port - 1` is turned into. -/
def portIndex (port : UInt32) : ℤ :=
  let p := (port - 1).toNat
  if p < 2 ^ 31 then p else p - 2 ^ 32

/-- A round of the loop over the ports. There is no result if an index or a shift is negative. -/
def markPort (numBytes : ℕ) (bytes : List (BitVec 8)) (port : UInt32) : Option (List (BitVec 8)) :=
  let p := portIndex port
  if p.tdiv 8 < numBytes then
    if p < 0 then none else some (bytes.modify (p / 8).toNat (· ||| (0x80#8 >>> (p % 8).toNat)))
  else some bytes

def encodeEgressPorts (ports : List UInt32) (numBytes : ℕ) (isComplement : Bool) : Option (List Char) := do
  let bytes ← ports.foldlM (markPort numBytes) (List.replicate numBytes 0)
  let bytes := if isComplement then bytes.map (~~~ ·) else bytes
  pure (bytes.flatMap getHexString)

/-- An `snmpset` command of a column of `Q-BRIDGE-MIB`. -/
structure SnmpSet where
  column : String
  vlan : UInt32
  portStr : List Char
deriving DecidableEq, Repr

def forbiddenColumn : String := "dot1qVlanForbiddenEgressPorts"
def egressColumn : String := "dot1qVlanStaticEgressPorts"

/-- The commands, for a switch with `numPorts` ports. -/
def setSwitchVlanMembershipSnmp (switchPorts : List UInt32) (numPorts vlanId : UInt32) : Option (List SnmpSet) :=
  let numBytes := (numPorts.toNat + 7) / 8
  if numBytes = 0 then some []
  else do
    let forbidden ← encodeEgressPorts switchPorts numBytes true
    let egress ← encodeEgressPorts switchPorts numBytes false
    pure [⟨forbiddenColumn,vlanId,forbidden⟩,⟨egressColumn,vlanId,egress⟩]

/-! ### Reading the strings -/

def hexValue (c : Char) : Option ℕ := (List.range 16).find? fun v => Nat.digitChar v = c

/-- The bytes of a string of hex digits, two digits a byte. -/
def readHex : List Char → Option (List (BitVec 8))
  | [] => some []
  | up :: down :: s => do
    let u ← hexValue up
    let d ← hexValue down
    let bytes ← readHex s
    pure (BitVec.ofNat 8 (16 * u + d) :: bytes)
  | _ => none

/-- The port `p` has its bit set. -/
def Names (s : List Char) (p : ℕ) : Prop :=
  1 ≤ p ∧ ∃ bytes b, readHex s = some bytes ∧ bytes[(p - 1) / 8]? = some b ∧ b.getMsbD ((p - 1) % 8)

/-- Both strings stand for the right ones of the ports 1 to `numPorts`. -/
def ExactPorts (switchPorts : List UInt32) (numPorts vlanId : UInt32) : Prop :=
  ∃ cmds, setSwitchVlanMembershipSnmp switchPorts numPorts vlanId = some cmds ∧
    ∀ c ∈ cmds,
      (c.column = egressColumn → ∀ p, Names c.portStr p ↔ p ∈ switchPorts.map (·.toNat) ∧ p ≤ numPorts.toNat) ∧
      (c.column = forbiddenColumn →
        ∀ p, Names c.portStr p ↔ (1 ≤ p ∧ p ≤ numPorts.toNat) ∧ p ∉ switchPorts.map (·.toNat))

theorem hexValue_getHexString (b : BitVec 8) :
    hexValue (Nat.digitChar (b >>> 4).toNat) = some (b >>> 4).toNat ∧
    hexValue (Nat.digitChar (b &&& 0x0f#8).toNat) = some (b &&& 0x0f#8).toNat ∧
    BitVec.ofNat 8 (16 * (b >>> 4).toNat + (b &&& 0x0f#8).toNat) = b := by
  revert b
  decide +kernel

/-- What is written byte by byte is read so. -/
theorem readHex_flatMap (bytes : List (BitVec 8)) : readHex (bytes.flatMap getHexString) = some bytes := by
  induction bytes with
  | nil => rfl
  | cons b bytes ih =>
    obtain ⟨hup,hdown,hb⟩ := hexValue_getHexString b
    rw [List.flatMap_cons]
    show readHex (_ :: _ :: bytes.flatMap getHexString) = _
    simp only [readHex,hup,hdown,ih,hb,bind,Option.bind,pure]

/-! ### Bits -/

/-- The bit with the index `q` from the left, where nothing is set behind the end. -/
def bit (bytes : List (BitVec 8)) (q : ℕ) : Bool := (bytes[q / 8]?.getD 0).getMsbD (q % 8)

theorem names_flatMap (bytes : List (BitVec 8)) (p : ℕ) :
    Names (bytes.flatMap getHexString) p ↔ 1 ≤ p ∧ bit bytes (p - 1) = true := by
  refine and_congr_right fun _ => ?_
  rw [readHex_flatMap]
  unfold bit
  constructor
  · rintro ⟨_,b,⟨⟩,hb,hbit⟩
    rwa [hb]
  · intro h
    cases hb : bytes[(p - 1) / 8]? with
    | none =>
      rw [hb] at h
      simp at h
    | some b =>
      rw [hb] at h
      exact ⟨bytes,b,rfl,hb,h⟩

theorem getMsbD_mask (k j : Fin 8) : (0x80#8 >>> k.val).getMsbD j = decide (j = k) := by
  revert k j
  decide

theorem bit_mark (bytes : List (BitVec 8)) (q q' : ℕ) :
    bit (bytes.modify (q / 8) (· ||| (0x80#8 >>> (q % 8)))) q' =
      (bit bytes q' || (decide (q' = q) && decide (q / 8 < bytes.length))) := by
  unfold bit
  rw [List.getElem?_modify]
  have hmask := getMsbD_mask ⟨q % 8,Nat.mod_lt _ (by decide)⟩ ⟨q' % 8,Nat.mod_lt _ (by decide)⟩
  by_cases hi : q / 8 = q' / 8
  · have heq : q' % 8 = q % 8 ↔ q' = q := by omega
    cases hb : bytes[q' / 8]? with
    | none =>
      have hlen := List.getElem?_eq_none_iff.mp hb
      have hno : ¬q / 8 < bytes.length := by omega
      simp [hno]
    | some b =>
      have hlen : q / 8 < bytes.length := by
        rw [hi]
        exact (List.getElem?_eq_some_iff.mp hb).1
      simp only [Option.map_eq_map,Option.map_some,Option.getD_some,if_pos hi,BitVec.getMsbD_or,hlen]
      rw [hmask]
      simp [Fin.ext_iff,heq]
  · have hne : q' ≠ q := fun h => hi (h ▸ rfl)
    simp [hi,hne]

theorem bit_complement (bytes : List (BitVec 8)) (q : ℕ) :
    bit (bytes.map (~~~ ·)) q = (decide (q / 8 < bytes.length) && !bit bytes q) := by
  unfold bit
  rw [List.getElem?_map]
  cases hb : bytes[q / 8]? with
  | none =>
    have hlen := List.getElem?_eq_none_iff.mp hb
    have hno : ¬q / 8 < bytes.length := by omega
    simp [hno]
  | some b =>
    have hlen := (List.getElem?_eq_some_iff.mp hb).1
    have hlt : q % 8 < 8 := Nat.mod_lt _ (by decide)
    simp [BitVec.getMsbD_not,hlen,hlt]

/-! ### The loop over the ports -/

/-- The numbers for which the index of a port is not negative. -/
def PortOk (port : UInt32) : Prop := 1 ≤ port.toNat ∧ port.toNat ≤ 2 ^ 31

theorem portIndex_of_ok {port : UInt32} (h : PortOk port) : portIndex port = ((port.toNat - 1 : ℕ) : ℤ) := by
  have hsub : (port - 1).toNat = port.toNat - 1 := UInt32.toNat_sub_of_le _ _ (UInt32.le_iff_toNat_le.mpr h.1)
  unfold portIndex
  rw [hsub]
  exact if_pos (by have := h.1; have := h.2; omega)

theorem portIndex_neg {port : UInt32} (h : ¬PortOk port) : portIndex port < 0 := by
  have hlt := port.toNat_lt
  unfold portIndex PortOk at *
  by_cases h0 : port.toNat = 0
  · obtain rfl : port = 0 := UInt32.toNat.inj h0
    decide
  · have hsub : (port - 1).toNat = port.toNat - 1 :=
      UInt32.toNat_sub_of_le _ _ (UInt32.le_iff_toNat_le.mpr (Nat.one_le_iff_ne_zero.mpr h0))
    rw [hsub]
    have hno : ¬port.toNat - 1 < 2 ^ 31 := by omega
    simp only [if_neg hno]
    omega

theorem markPort_of_ok {port : UInt32} {bytes : List (BitVec 8)} (h : PortOk port) :
    markPort bytes.length bytes port =
      some (bytes.modify ((port.toNat - 1) / 8) (· ||| (0x80#8 >>> ((port.toNat - 1) % 8)))) := by
  simp only [markPort,portIndex_of_ok h]
  split
  · have hno : ¬((port.toNat - 1 : ℕ) : ℤ) < 0 := by omega
    rw [if_neg hno]
    rfl
  · next hge =>
    have hlen : bytes.length ≤ (port.toNat - 1) / 8 := by
      have : ¬(((port.toNat - 1) / 8 : ℕ) : ℤ) < bytes.length := hge
      omega
    rw [List.modify_eq_self hlen]

theorem markPort_of_not {port : UInt32} {numBytes : ℕ} {bytes : List (BitVec 8)} (hn : 0 < numBytes)
    (h : ¬PortOk port) : markPort numBytes bytes port = none := by
  have hneg := portIndex_neg h
  have hlt : (portIndex port).tdiv 8 < numBytes := by
    have h8 := Int.tdiv_nonneg (show 0 ≤ -portIndex port by omega) (show (0 : ℤ) ≤ 8 by omega)
    rw [Int.neg_tdiv] at h8
    omega
  simp only [markPort,if_pos hlt,if_pos hneg]

/-- The bytes after the loop have the bits of the ports that they have room for. -/
theorem markPorts_of_ok {ports : List UInt32} (h : ∀ port ∈ ports, PortOk port) (bytes : List (BitVec 8)) :
    ∃ marked, ports.foldlM (markPort bytes.length) bytes = some marked ∧ marked.length = bytes.length ∧
      ∀ q, bit marked q = true ↔ bit bytes q = true ∨ q + 1 ∈ ports.map (·.toNat) ∧ q / 8 < bytes.length := by
  induction ports generalizing bytes with
  | nil => exact ⟨bytes,rfl,rfl,fun q => by simp⟩
  | cons port ports ih =>
    have hport := h port List.mem_cons_self
    have hlen : (bytes.modify ((port.toNat - 1) / 8) (· ||| (0x80#8 >>> ((port.toNat - 1) % 8)))).length =
        bytes.length := List.length_modify ..
    obtain ⟨marked,hm,hml,hbit⟩ := ih (fun p hp => h p (List.mem_cons_of_mem port hp))
      (bytes.modify ((port.toNat - 1) / 8) (· ||| (0x80#8 >>> ((port.toNat - 1) % 8))))
    rw [hlen] at hm hml hbit
    refine ⟨marked,?_,hml,fun q => ?_⟩
    · rw [List.foldlM_cons,markPort_of_ok hport]
      exact hm
    · have hq : q = port.toNat - 1 ↔ q + 1 = port.toNat := by
        have := hport.1
        omega
      rw [hbit q,bit_mark,Bool.or_eq_true,Bool.and_eq_true,decide_eq_true_iff,decide_eq_true_iff,List.map_cons,
        List.mem_cons,hq]
      constructor
      · rintro ((hb | ⟨he,hlt⟩) | ⟨hp,hlt⟩)
        · exact .inl hb
        · exact .inr ⟨.inl he,by omega⟩
        · exact .inr ⟨.inr hp,hlt⟩
      · rintro (hb | ⟨he | hp,hlt⟩)
        · exact .inl (.inl hb)
        · exact .inl (.inr ⟨he,by omega⟩)
        · exact .inr ⟨hp,hlt⟩

theorem markPorts_of_not {ports : List UInt32} {port : UInt32} {numBytes : ℕ} (hn : 0 < numBytes)
    (hp : port ∈ ports) (h : ¬PortOk port) (bytes : List (BitVec 8)) :
    ports.foldlM (markPort numBytes) bytes = none := by
  induction ports generalizing bytes with
  | nil => cases hp
  | cons p ports ih =>
    rw [List.foldlM_cons]
    obtain rfl | hp := List.mem_cons.mp hp
    · rw [markPort_of_not hn h]
      rfl
    · cases markPort numBytes bytes p with
      | none => rfl
      | some bytes' => exact ih hp bytes'

theorem bit_replicate (n q : ℕ) : bit (List.replicate n 0) q = false := by
  unfold bit
  rw [List.getElem?_replicate]
  split <;> simp

/-- The two strings, by the ports they stand for. -/
theorem names_encodeEgressPorts {ports : List UInt32} (h : ∀ port ∈ ports, PortOk port) (numBytes : ℕ) :
    ∃ egress forbidden, encodeEgressPorts ports numBytes false = some egress ∧
      encodeEgressPorts ports numBytes true = some forbidden ∧
      (∀ p, Names egress p ↔ 1 ≤ p ∧ (p - 1) / 8 < numBytes ∧ p ∈ ports.map (·.toNat)) ∧
      ∀ p, Names forbidden p ↔ 1 ≤ p ∧ (p - 1) / 8 < numBytes ∧ p ∉ ports.map (·.toNat) := by
  obtain ⟨marked,hm,hml,hbit⟩ := markPorts_of_ok h (List.replicate numBytes 0)
  rw [List.length_replicate] at hm hml hbit
  have hmarked : ∀ p, 1 ≤ p → (bit marked (p - 1) = true ↔ (p - 1) / 8 < numBytes ∧ p ∈ ports.map (·.toNat)) := by
    intro p hp
    rw [hbit (p - 1),bit_replicate,Nat.sub_add_cancel hp]
    simp [and_comm]
  refine ⟨marked.flatMap getHexString,(marked.map (~~~ ·)).flatMap getHexString,?_,?_,fun p => ?_,fun p => ?_⟩
  · simp only [encodeEgressPorts,hm]
    rfl
  · simp only [encodeEgressPorts,hm]
    rfl
  · rw [names_flatMap]
    exact and_congr_right (hmarked p)
  · rw [names_flatMap,bit_complement,hml,Bool.and_eq_true,decide_eq_true_iff,Bool.not_eq_true']
    refine and_congr_right fun hp => and_congr_right fun hlt => ?_
    rw [← Bool.not_eq_true,hmarked p hp]
    exact not_congr (and_iff_right hlt)

/-- The strings are right exactly for a number of ports that is a multiple of eight. -/
theorem snmpPorts_iff (switchPorts : List UInt32) (numPorts vlanId : UInt32) :
    ExactPorts switchPorts numPorts vlanId ↔
      numPorts.toNat = 0 ∨ 8 ∣ numPorts.toNat ∧ ∀ port ∈ switchPorts, PortOk port := by
  unfold ExactPorts setSwitchVlanMembershipSnmp
  generalize numPorts.toNat = n
  by_cases h0 : n = 0
  · subst h0
    exact iff_of_true ⟨[],rfl,nofun⟩ (.inl rfl)
  have hbytes : (n + 7) / 8 ≠ 0 := by omega
  simp only [if_neg hbytes,h0,false_or]
  by_cases hok : ∀ port ∈ switchPorts, PortOk port
  · obtain ⟨egress,forbidden,he,hf,hne,hnf⟩ := names_encodeEgressPorts hok ((n + 7) / 8)
    rw [he,hf]
    constructor
    · rintro ⟨_,⟨⟩,hall⟩
      have hegress := (hall ⟨egressColumn,vlanId,egress⟩ (by simp)).1 rfl (n + 1)
      have hforbidden := (hall ⟨forbiddenColumn,vlanId,forbidden⟩ (by simp)).2 rfl (n + 1)
      rw [hne] at hegress
      rw [hnf] at hforbidden
      refine ⟨?_,hok⟩
      by_contra hdvd
      have hroom : 1 ≤ n + 1 ∧ (n + 1 - 1) / 8 < (n + 7) / 8 := by omega
      by_cases hm : n + 1 ∈ switchPorts.map (·.toNat)
      · have := (hegress.mp ⟨hroom.1,hroom.2,hm⟩).2
        omega
      · have := (hforbidden.mp ⟨hroom.1,hroom.2,hm⟩).1.2
        omega
    · rintro ⟨hdvd,-⟩
      have hroom : ∀ p, 1 ≤ p → ((p - 1) / 8 < (n + 7) / 8 ↔ p ≤ n) := by
        intro p hp
        omega
      have hone : ∀ p ∈ switchPorts.map (·.toNat), 1 ≤ p := by
        intro p hp
        obtain ⟨port,hport,rfl⟩ := List.mem_map.mp hp
        exact (hok port hport).1
      refine ⟨_,rfl,fun c hc => ?_⟩
      rcases List.mem_pair.mp hc with rfl | rfl
      · refine ⟨fun h => absurd h (show forbiddenColumn ≠ egressColumn by decide),fun _ p => ?_⟩
        rw [hnf]
        constructor
        · rintro ⟨hp,hlt,hno⟩
          exact ⟨⟨hp,(hroom p hp).mp hlt⟩,hno⟩
        · rintro ⟨⟨hp,hle⟩,hno⟩
          exact ⟨hp,(hroom p hp).mpr hle,hno⟩
      · refine ⟨fun _ p => ?_,fun h => absurd h (show egressColumn ≠ forbiddenColumn by decide)⟩
        rw [hne]
        constructor
        · rintro ⟨hp,hlt,hm⟩
          exact ⟨hm,(hroom p hp).mp hlt⟩
        · rintro ⟨hm,hle⟩
          exact ⟨hone p hm,(hroom p (hone p hm)).mpr hle,hm⟩
  · refine iff_of_false ?_ (fun h => hok h.2)
    rintro ⟨_,h,-⟩
    simp only [not_forall] at hok
    obtain ⟨port,hport,hnot⟩ := hok
    have hnone := markPorts_of_not (Nat.pos_of_ne_zero hbytes) hport hnot (List.replicate ((n + 7) / 8) 0)
    simp only [encodeEgressPorts,hnone] at h
    cases h

/-- A switch of 26 ports, none of which is in the VLAN. -/
theorem snmpPorts_not_exact : ¬ExactPorts [] 26 5 := by
  rintro ⟨_,⟨⟩,h⟩
  have hno := (h _ (List.mem_cons_self)).2 rfl 32
  have hnames : Names ['f','f','f','f','f','f','f','f'] 32 := ⟨by decide,_,_,rfl,rfl,by decide⟩
  exact absurd (hno.mp hnames).1.2 (by decide)

end OnlDaemons.Nmd

import OnlDaemons.Npr.DataPath

/-!
# Packets for the router itself

`handle_local_delivery` answers an echo request in the buffer the request lies in. The payload is summed word by word,
and what is left behind the last whole word is added by hand.

## Main definitions

- `EchoSum`, `EchoSum.run` — the loop over the payload and what follows it
- `handleLocalDelivery`
- `EchoBounded` — the loop ends, and reads inside the packet

## Main result

- `echoBounded_iff`
-/

namespace OnlDaemons.Npr
open OnlDaemons.Lib ByteMemory OnesComplement

/-! ### The loop -/

/-- `reads` are the positions in the packet of the words that were read. -/
structure EchoSum where
  j : Word
  dramAddr : Word
  icmpCksm : BitVec 16
  reads : List Word := []
deriving DecidableEq

namespace EchoSum

/-- One word of the payload. -/
def next (dram : Dram) (l : EchoSum) : EchoSum where
  j := l.j + 4
  dramAddr := l.dramAddr + 4
  icmpCksm := (computePartialCksm (l.icmpCksm.setWidth 32) (readIn dram l.dramAddr 1)).setWidth 16
  reads := l.reads ++ [l.j]

/-- The loop, for which the bound is unsigned. -/
def words (dram : Dram) (bound : Word) : ℕ → EchoSum → Option EchoSum
  | 0, _ => none
  | fuel + 1, l => if l.j ≤ bound then words dram bound fuel (l.next dram) else some l

/-- The checksum is a field of 16 bits when the carry is taken. -/
def addToField (icmpCksm : BitVec 16) (x : Word) : BitVec 16 :=
  let icmpCksm := (icmpCksm.setWidth 32 + x).setWidth 16
  let carry : Word := icmpCksm.setWidth 32 >>> 16
  ((icmpCksm.setWidth 32 &&& 0xffff) + carry).setWidth 16

/-- What is behind the last whole word. -/
def rest (dram : Dram) (ipLen : Word) (l : EchoSum) : EchoSum :=
  if l.j = ipLen then l
  else
    let val := (readIn dram l.dramAddr 1).headD 0
    { l with
      icmpCksm :=
        if l.j = ipLen - 1 then addToField l.icmpCksm ((val >>> 16) &&& 0xff00)
        else if l.j = ipLen - 2 then addToField l.icmpCksm (val >>> 16)
        else addToField (addToField l.icmpCksm (val >>> 16)) (val &&& 0xff00)
      reads := l.reads ++ [l.j] }

def run (dram : Dram) (ipLen : BitVec 16) (fuel : ℕ) (l : EchoSum) : Option EchoSum :=
  (l.words dram (ipLen.setWidth 32 - 4) fuel).map (rest dram (ipLen.setWidth 32))

end EchoSum

/-! ### The function -/

/-- The headers of the reply, with the checksum of the payload to come. -/
def replyHdr (pktHdr : Ipv4Hdr) : Ipv4Hdr :=
  let pktHdr := { pktHdr with
    ipTtl := 64, ipHdrCksm := 0, ipSrcAddr := pktHdr.ipDestAddr, ipDestAddr := pktHdr.ipSrcAddr }
  { pktHdr with ipHdrCksm := (computeCksm pktHdr.v).setWidth 16 }

def replyIcmp (pktIcmpHdr : IcmpHdr) : IcmpHdr := { pktIcmpHdr with icmpType := 0, icmpCksm := 0 }

namespace DataPath

variable (s : DataPath) (msg : PlcToXscaleData)

def pktHdr : Ipv4Hdr := .ofWords (readIn s.dram (s.dramAddr msg) 5)

def pktIcmpHdr : IcmpHdr := .ofWords (readIn s.dram (s.dramAddr msg + 20) 2)

/-- An ICMP echo request. -/
def IsEchoRequest : Prop := (s.pktHdr msg).ipProto = 1 ∧ (s.pktIcmpHdr msg).icmpType = 8

instance : Decidable (s.IsEchoRequest msg) := inferInstanceAs (Decidable (_ ∧ _))

/-- The sum when the loop begins. -/
def echoSum : EchoSum where
  j := 28
  dramAddr := s.dramAddr msg + 28
  icmpCksm := (computePartialCksm 0 (replyIcmp (s.pktIcmpHdr msg)).v).setWidth 16

/-- What is sent when the sum is known. -/
def sendReply (l : EchoSum) : DataPath :=
  let pktHdr := replyHdr (s.pktHdr msg)
  let pktIcmpHdr := { replyIcmp (s.pktIcmpHdr msg) with icmpCksm := (0xffff - l.icmpCksm.setWidth 32 : Word).setWidth 16 }
  let vals := pktHdr.v.drop 2 ++ pktIcmpHdr.v.take 1
  let muxData : XscaleToMuxData := {
    outPort := 0, bufHandle := msg.bufHandle, l3PktLength := msg.l3PktLength, qid := 0, ptag := msg.ptag
    inPort := msg.inPort, passThrough := 0, statsIndex := 0 }
  { s with dram := writeOut s.dram (s.dramAddr msg + 8) vals }.writemsg ⟨.mux, muxData.v⟩

/-- `handle_local_delivery`, with the positions of the words of the payload that it reads. -/
def handleLocalDelivery (fuel : ℕ) : Option (DataPath × List Word) :=
  if s.IsEchoRequest msg then
    ((s.echoSum msg).run s.dram (s.pktHdr msg).ipLen fuel).map fun l => (s.sendReply msg l, l.reads)
  else
    -- "got a packet that I don't know what to do with.. dropping"
    some (s.drop msg, [])

/-- The loop ends, and each word that it reads begins in the packet. -/
def EchoBounded : Prop :=
  ∃ fuel u reads, s.handleLocalDelivery msg fuel = some (u, reads) ∧
    ∀ p ∈ reads, p.toNat < (s.pktHdr msg).ipLen.toNat

end DataPath

/-! ### How far the loop comes -/

namespace EchoSum

variable {dram : Dram} {bound : Word} {l : EchoSum}

/-- With a bound that has wrapped, every multiple of four is below it. -/
theorem words_eq_none (hbound : 2 ^ 32 - 4 ≤ bound.toNat) (hj : l.j.toNat % 4 = 0) (fuel : ℕ) :
    l.words dram bound fuel = none := by
  induction fuel generalizing l with
  | zero => rfl
  | succ fuel ih =>
    have hlt := l.j.isLt
    have hle : l.j ≤ bound := by
      rw [BitVec.le_def]
      omega
    rw [words, if_pos hle]
    apply ih
    have hfour : (4 : Word).toNat = 4 := rfl
    rw [next, BitVec.toNat_add, hfour]
    omega

/-- The sum of `m` words. -/
def after (dram : Dram) (m : ℕ) (l : EchoSum) : EchoSum := (next dram)^[m] l

theorem words_eq_some {m : ℕ} (hb : bound.toNat + 4 < 2 ^ 32) (hlow : l.j.toNat + 4 * m ≤ bound.toNat + 4)
    (hhigh : bound.toNat < l.j.toNat + 4 * m) : l.words dram bound (m + 1) = some (l.after dram m) := by
  induction m generalizing l with
  | zero =>
    have hlt : ¬l.j ≤ bound := by
      rw [BitVec.le_def]
      omega
    rw [words, if_neg hlt]
    rfl
  | succ m ih =>
    have hle : l.j ≤ bound := by
      rw [BitVec.le_def]
      omega
    have hfour : (4 : Word).toNat = 4 := rfl
    have hnext : (l.next dram).j.toNat = l.j.toNat + 4 := by
      rw [next, BitVec.toNat_add, hfour]
      omega
    rw [words, if_pos hle, ih (by omega) (by omega)]
    rfl

theorem after_add_one (m : ℕ) : l.after dram (m + 1) = (l.after dram m).next dram :=
  Function.iterate_succ_apply' ..

theorem after_j (m : ℕ) : (l.after dram m).j = l.j + BitVec.ofNat 32 (4 * m) := by
  induction m with
  | zero => exact (BitVec.add_zero _).symm
  | succ m ih =>
    rw [after_add_one, next, ih, Nat.mul_succ, BitVec.ofNat_add, BitVec.add_assoc]
    rfl

theorem after_dramAddr (m : ℕ) : (l.after dram m).dramAddr = l.dramAddr + BitVec.ofNat 32 (4 * m) := by
  induction m with
  | zero => exact (BitVec.add_zero _).symm
  | succ m ih =>
    rw [after_add_one, next, ih, Nat.mul_succ, BitVec.ofNat_add, BitVec.add_assoc]
    rfl

theorem after_reads (m : ℕ) (p : Word) (hp : p ∈ (l.after dram m).reads) :
    p ∈ l.reads ∨ ∃ i < m, p = l.j + BitVec.ofNat 32 (4 * i) := by
  induction m with
  | zero => exact .inl hp
  | succ m ih =>
    rw [after_add_one, next, List.mem_append, List.mem_singleton] at hp
    rcases hp with hp | rfl
    · rcases ih hp with hp | ⟨i, hi, rfl⟩
      · exact .inl hp
      · exact .inr ⟨i, by omega, rfl⟩
    · exact .inr ⟨m, by omega, after_j m⟩

theorem rest_reads (ipLen p : Word) (hp : p ∈ (l.rest dram ipLen).reads) : p ∈ l.reads ∨ p = l.j ∧ l.j ≠ ipLen := by
  unfold rest at hp
  split at hp
  · exact .inl hp
  · rw [List.mem_append, List.mem_singleton] at hp
    exact hp.imp_right fun h => ⟨h, ‹_›⟩

theorem mem_rest_reads (ipLen : Word) (h : l.j ≠ ipLen) : l.j ∈ (l.rest dram ipLen).reads := by
  rw [rest, if_neg h]
  exact List.mem_append_right _ (List.mem_singleton_self _)

end EchoSum

namespace DataPath

variable {s : DataPath} {msg : PlcToXscaleData} {ipLen : BitVec 16}

theorem toNat_ipLen (ipLen : BitVec 16) : (ipLen.setWidth 32).toNat = ipLen.toNat := by
  have hlt := ipLen.isLt
  rw [BitVec.toNat_setWidth, Nat.mod_eq_of_lt (by omega)]

theorem toNat_bound (h : 4 ≤ ipLen.toNat) : (ipLen.setWidth 32 - 4 : Word).toNat = ipLen.toNat - 4 := by
  have hlt := ipLen.isLt
  have hfour : (4 : Word).toNat = 4 := rfl
  rw [BitVec.toNat_sub, toNat_ipLen, hfour]
  omega

/-- The words of the payload that the loop reads. -/
def payloadWords (ipLen : BitVec 16) : ℕ := (ipLen.toNat - 28) / 4

theorem run_echoSum (h : 28 ≤ ipLen.toNat) :
    (s.echoSum msg).run s.dram ipLen (payloadWords ipLen + 1) =
      some (((s.echoSum msg).after s.dram (payloadWords ipLen)).rest s.dram (ipLen.setWidth 32)) := by
  have hlt := ipLen.isLt
  have hj : (s.echoSum msg).j.toNat = 28 := rfl
  have hbound := @toNat_bound ipLen (by omega)
  have hwords : payloadWords ipLen = (ipLen.toNat - 28) / 4 := rfl
  rw [EchoSum.run, EchoSum.words_eq_some]
  · rfl
  all_goals
    rw [hbound]
    omega

theorem handleLocalDelivery_of_isEchoRequest (hecho : s.IsEchoRequest msg) (fuel : ℕ) :
    s.handleLocalDelivery msg fuel =
      ((s.echoSum msg).run s.dram (s.pktHdr msg).ipLen fuel).map fun l => (s.sendReply msg l, l.reads) :=
  if_pos hecho

theorem le_of_echoBounded (hecho : s.IsEchoRequest msg) (h : s.EchoBounded msg) : 28 ≤ (s.pktHdr msg).ipLen.toNat := by
  obtain ⟨fuel, u, reads, hrun, hreads⟩ := h
  rw [handleLocalDelivery_of_isEchoRequest hecho] at hrun
  generalize (s.pktHdr msg).ipLen = ipLen at hrun hreads ⊢
  have hlt := ipLen.isLt
  have hj : (s.echoSum msg).j.toNat = 28 := rfl
  by_contra hshort
  rw [EchoSum.run] at hrun
  rcases Nat.lt_or_ge ipLen.toNat 4 with hfour | hfour
  · -- the bound is a number close below 0, that is, close below 2 ^ 32
    have hbound : 2 ^ 32 - 4 ≤ (ipLen.setWidth 32 - 4 : Word).toNat := by
      have h4 : (4 : Word).toNat = 4 := rfl
      rw [BitVec.toNat_sub, toNat_ipLen, h4]
      omega
    rw [EchoSum.words_eq_none hbound (by omega)] at hrun
    cases hrun
  · -- no word is summed, but what is behind the headers is read
    have hstop : ¬(s.echoSum msg).j ≤ (ipLen.setWidth 32 - 4 : Word) := by
      rw [BitVec.le_def, toNat_bound hfour]
      omega
    cases fuel with
    | zero => cases hrun
    | succ fuel =>
      rw [EchoSum.words, if_neg hstop] at hrun
      cases hrun
      have hne : (s.echoSum msg).j ≠ ipLen.setWidth 32 := by
        intro heq
        have hnat := congrArg BitVec.toNat heq
        rw [toNat_ipLen] at hnat
        omega
      have hin := hreads _ (EchoSum.mem_rest_reads _ hne)
      omega

theorem echoBounded_of_le (hecho : s.IsEchoRequest msg) (h28 : 28 ≤ (s.pktHdr msg).ipLen.toNat) :
    s.EchoBounded msg := by
  refine ⟨payloadWords (s.pktHdr msg).ipLen + 1, _, _,
    by rw [handleLocalDelivery_of_isEchoRequest hecho, run_echoSum h28]; rfl, ?_⟩
  generalize (s.pktHdr msg).ipLen = ipLen at h28 ⊢
  have hlt := ipLen.isLt
  have hj : (s.echoSum msg).j.toNat = 28 := rfl
  intro p hp
  have hpos : ∀ k, 4 * k + 28 ≤ ipLen.toNat → ((s.echoSum msg).j + BitVec.ofNat 32 (4 * k)).toNat = 28 + 4 * k := by
    intro k hk
    rw [BitVec.toNat_add, BitVec.toNat_ofNat]
    omega
  have hwords : 4 * payloadWords ipLen + 28 ≤ ipLen.toNat := by
    unfold payloadWords
    omega
  rcases EchoSum.rest_reads _ p hp with hp | ⟨rfl, hne⟩
  · rcases EchoSum.after_reads _ p hp with hp | ⟨i, hi, rfl⟩
    · cases hp
    · rw [hpos i (by omega)]
      omega
  · rw [EchoSum.after_j] at hne ⊢
    have hnat := mt BitVec.eq_of_toNat_eq hne
    rw [hpos _ hwords, toNat_ipLen] at hnat
    rw [hpos _ hwords]
    omega

/-- The loop ends inside the packet when the length has room for the headers. For a shorter length the word behind the
headers is read, or the loop goes on for ever. -/
theorem echoBounded_iff (s : DataPath) (msg : PlcToXscaleData) :
    s.EchoBounded msg ↔ (s.IsEchoRequest msg → 28 ≤ (s.pktHdr msg).ipLen.toNat) := by
  constructor
  · intro h hecho
    exact le_of_echoBounded hecho h
  · intro h
    by_cases hecho : s.IsEchoRequest msg
    · exact echoBounded_of_le hecho (h hecho)
    · exact ⟨0, s.drop msg, [], if_neg hecho, by simp⟩

/-- A packet at the beginning of the memory, with these bytes. -/
def withPacket (bytes : List Byte) : DataPath where
  dram := store (fun _ => 0) 0 bytes
  sram _ := 0
  free := []

/-- An echo request whose length is 3. -/
def shortEcho : DataPath :=
  withPacket [0x45, 0, 0, 3, 0, 0, 0, 0, 64, 1, 0, 0, 10, 0, 0, 1, 10, 0, 0, 2, 8, 0, 0, 0, 0, 0, 0, 0]

theorem shortEcho_not_bounded : ¬∀ (s : DataPath) (msg : PlcToXscaleData), s.EchoBounded msg := by
  intro h
  have hle := @le_of_echoBounded shortEcho { bufHandle := 0 } (by decide +kernel) (h _ _)
  revert hle
  decide +kernel

end DataPath

end OnlDaemons.Npr

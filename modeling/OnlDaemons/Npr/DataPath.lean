import OnlDaemons.Lib.OnesComplement
import OnlDaemons.Npr.DramAccess

/-!
# What the data path hands to the daemon

A packet comes with six words that say where it lies and why it comes. The daemon answers with words for the rings of the
multiplexer, of the plugins or of the free list manager. Fields of a header are packed with the first one in the highest
bits.

## Main definitions

- `PlcToXscaleData`, `XscaleToMuxData` — the words on the rings
- `Ipv4Hdr`, `IcmpHdr` — headers and their words
- `DataPath` — memories, free buffers and rings
- `computePartialCksm`, `computeCksm`

## Main results

- `computePartialCksm_le` — it never has more than 16 bits
- `computePartialCksm_eq` — it is a one's complement sum
-/

namespace OnlDaemons.Npr
open OnlDaemons.Lib ByteMemory OnesComplement

/-! ### Rings -/

structure PlcToXscaleData where
  res1 : BitVec 8 := 0
  bufHandle : BitVec 24
  l3PktLength : BitVec 16 := 0
  qid : BitVec 16 := 0
  ptag : BitVec 5 := 0
  inPort : BitVec 3 := 0
  res2 : BitVec 1 := 0
  arpSource : BitVec 1 := 0
  nhInvalid : BitVec 1 := 0
  arpNeeded : BitVec 1 := 0
  nonIp : BitVec 1 := 0
  noRoute : BitVec 1 := 0
  ipOptions : BitVec 1 := 0
  ttlExpired : BitVec 1 := 0
  statsIndex : BitVec 16 := 0
  destValue : BitVec 32 := 0
  nhMacLow16 : BitVec 16 := 0
  ethertype : BitVec 16 := 0
  res5 : BitVec 20 := 0
  ucMcBits : BitVec 12 := 0
deriving DecidableEq

def PlcToXscaleData.v (d : PlcToXscaleData) : List Word :=
  [d.res1 ++ d.bufHandle, d.l3PktLength ++ d.qid,
    d.ptag ++ d.inPort ++ d.res2 ++ d.arpSource ++ d.nhInvalid ++ d.arpNeeded ++ d.nonIp ++ d.noRoute ++ d.ipOptions ++
      d.ttlExpired ++ d.statsIndex,
    d.destValue, d.nhMacLow16 ++ d.ethertype, d.res5 ++ d.ucMcBits]

structure XscaleToMuxData where
  res1 : BitVec 4 := 0
  outPort : BitVec 4
  bufHandle : BitVec 24
  l3PktLength : BitVec 16
  qid : BitVec 16
  ptag : BitVec 5
  inPort : BitVec 3
  res2 : BitVec 7 := 0
  passThrough : BitVec 1
  statsIndex : BitVec 16
deriving DecidableEq

def XscaleToMuxData.v (d : XscaleToMuxData) : List Word :=
  [d.res1 ++ d.outPort ++ d.bufHandle, d.l3PktLength ++ d.qid,
    d.ptag ++ d.inPort ++ d.res2 ++ d.passThrough ++ d.statsIndex]

namespace DataPath

/-- `MSG_TO_MUX`, `MSG_TO_PLUGIN_0` to `MSG_TO_PLUGIN_4`, `MSG_TO_FLM` -/
inductive MsgTo
  | mux
  | plugin (p : Fin 5)
  | flm
deriving DecidableEq, Repr

structure DataPathMessage where
  association : MsgTo
  msg : List Word
deriving DecidableEq

end DataPath

/-- `sram` is the bank with the buffer descriptors, `free` the buffers of `BUF_FREE_LIST`, `dropped` counts the calls of
`increment_drop_counter`, and `stats` has those of `update_stats_index`. -/
structure DataPath where
  dram : Dram
  sram : Word → Word
  free : List Word
  sent : List DataPath.DataPathMessage := []
  dropped : ℕ := 0
  stats : List (BitVec 16 × BitVec 16) := []

namespace DataPath

def writemsg (s : DataPath) (m : DataPathMessage) : DataPath := { s with sent := s.sent ++ [m] }

/-- The first word of the message, which has the buffer of the packet, goes to the free list manager. -/
def drop (s : DataPath) (msg : PlcToXscaleData) : DataPath :=
  { s.writemsg ⟨.flm, [msg.res1 ++ msg.bufHandle]⟩ with dropped := s.dropped + 1 }

/-- Where the packet of a buffer begins. -/
def dramAddr (s : DataPath) (msg : PlcToXscaleData) : Word :=
  let bdAddr : Word := msg.bufHandle.setWidth 32 <<< 2
  let offset := s.sram (bdAddr + 4) &&& 0xffff
  (msg.bufHandle.setWidth 32 <<< 8) + offset

@[simp] theorem dram_writemsg (s : DataPath) (m : DataPathMessage) : (s.writemsg m).dram = s.dram := rfl

@[simp] theorem dram_drop (s : DataPath) (msg : PlcToXscaleData) : (s.drop msg).dram = s.dram := rfl

end DataPath

/-! ### Headers -/

structure Ipv4Hdr where
  ipVersion : BitVec 4
  ipHdrLen : BitVec 4
  ipTos : BitVec 8
  ipLen : BitVec 16
  ipId : BitVec 16
  ipFlags : BitVec 3
  ipFragOffset : BitVec 13
  ipTtl : BitVec 8
  ipProto : BitVec 8
  ipHdrCksm : BitVec 16
  ipSrcAddr : BitVec 32
  ipDestAddr : BitVec 32
deriving DecidableEq

def Ipv4Hdr.v (h : Ipv4Hdr) : List Word :=
  [h.ipVersion ++ h.ipHdrLen ++ h.ipTos ++ h.ipLen, h.ipId ++ h.ipFlags ++ h.ipFragOffset,
    h.ipTtl ++ h.ipProto ++ h.ipHdrCksm, h.ipSrcAddr, h.ipDestAddr]

def Ipv4Hdr.ofWords (v : List Word) : Ipv4Hdr where
  ipVersion := (v.getD 0 0).extractLsb' 28 4
  ipHdrLen := (v.getD 0 0).extractLsb' 24 4
  ipTos := (v.getD 0 0).extractLsb' 16 8
  ipLen := (v.getD 0 0).extractLsb' 0 16
  ipId := (v.getD 1 0).extractLsb' 16 16
  ipFlags := (v.getD 1 0).extractLsb' 13 3
  ipFragOffset := (v.getD 1 0).extractLsb' 0 13
  ipTtl := (v.getD 2 0).extractLsb' 24 8
  ipProto := (v.getD 2 0).extractLsb' 16 8
  ipHdrCksm := (v.getD 2 0).extractLsb' 0 16
  ipSrcAddr := v.getD 3 0
  ipDestAddr := v.getD 4 0

structure IcmpHdr where
  icmpType : BitVec 8
  icmpCode : BitVec 8
  icmpCksm : BitVec 16
  icmpId : BitVec 16
  icmpSeq : BitVec 16
deriving DecidableEq

def IcmpHdr.v (h : IcmpHdr) : List Word := [h.icmpType ++ h.icmpCode ++ h.icmpCksm, h.icmpId ++ h.icmpSeq]

def IcmpHdr.ofWords (v : List Word) : IcmpHdr where
  icmpType := (v.getD 0 0).extractLsb' 24 8
  icmpCode := (v.getD 0 0).extractLsb' 16 8
  icmpCksm := (v.getD 0 0).extractLsb' 0 16
  icmpId := (v.getD 1 0).extractLsb' 16 16
  icmpSeq := (v.getD 1 0).extractLsb' 0 16

theorem Ipv4Hdr.ofWords_v (h : Ipv4Hdr) : ofWords h.v = h := by
  simp (disch := decide) only [ofWords, v, List.getD_cons_zero, List.getD_cons_succ, BitVec.extractLsb'_append_eq_of_le,
    BitVec.extractLsb'_append_eq_of_add_le, Nat.reduceSub, BitVec.extractLsb'_eq_self]

theorem Ipv4Hdr.v_ofWords (a b c d e : Word) : (ofWords [a, b, c, d, e]).v = [a, b, c, d, e] := by
  simp only [ofWords, v, List.getD_cons_zero, List.getD_cons_succ, List.cons.injEq, and_true]
  refine ⟨?_, ?_, ?_⟩
  all_goals
    ext i hi
    rw [BitVec.getElem_append]
    simp
    grind

theorem IcmpHdr.ofWords_v (h : IcmpHdr) : ofWords h.v = h := by
  simp (disch := decide) only [ofWords, v, List.getD_cons_zero, List.getD_cons_succ, BitVec.extractLsb'_append_eq_of_le,
    BitVec.extractLsb'_append_eq_of_add_le, Nat.reduceSub, BitVec.extractLsb'_eq_self]

theorem IcmpHdr.v_ofWords (a b : Word) : (ofWords [a, b]).v = [a, b] := by
  simp only [ofWords, v, List.getD_cons_zero, List.getD_cons_succ, List.cons.injEq, and_true]
  refine ⟨?_, ?_⟩
  all_goals
    ext i hi
    rw [BitVec.getElem_append]
    simp
    grind

/-! ### Checksums -/

def addWithCarry (cksm x : Word) : Word :=
  let cksm := cksm + x
  let carry := cksm >>> 16
  (cksm &&& 0xffff) + carry

def computePartialCksm (cksm : Word) (data : List Word) : Word :=
  data.foldl (fun cksm (d : Word) => addWithCarry (addWithCarry cksm (d >>> 16)) (d &&& 0xffff)) cksm

def computeCksm (data : List Word) : Word := 0xffff - computePartialCksm 0 data

section

variable {cksm x : Word}

theorem toNat_addWithCarry (hc : cksm.toNat ≤ 65535) (hx : x.toNat ≤ 65535) :
    (addWithCarry cksm x).toNat = addCarry cksm.toNat x.toNat := by
  have hmask : (0xffff : Word).toNat = 2 ^ 16 - 1 := rfl
  have hsum : (cksm + x).toNat = cksm.toNat + x.toNat := by
    rw [BitVec.toNat_add]
    omega
  rw [addWithCarry, BitVec.toNat_add, BitVec.toNat_and, hmask, Nat.and_two_pow_sub_one_eq_mod, BitVec.toNat_ushiftRight,
    Nat.shiftRight_eq_div_pow, hsum, addCarry]
  omega

theorem computePartialCksm_eq (hc : cksm.toNat ≤ 65535) (data : List Word) :
    (computePartialCksm cksm data).toNat = wrap (cksm.toNat + (data.map halves).sum) := by
  induction data generalizing cksm with
  | nil => simp [computePartialCksm, wrap_of_le hc]
  | cons d ds ih =>
    have hhigh : (addWithCarry cksm (d >>> 16)).toNat = wrap (cksm.toNat + highHalf d) := by
      rw [toNat_addWithCarry hc (highHalf_le d), ← highHalf, addCarry_eq hc (highHalf_le d)]
    have hhalf : (addWithCarry (addWithCarry cksm (d >>> 16)) (d &&& 0xffff)).toNat = wrap (cksm.toNat + halves d) := by
      have hle : (addWithCarry cksm (d >>> 16)).toNat ≤ 65535 := hhigh ▸ wrap_le _
      rw [toNat_addWithCarry hle (lowHalf_le d), ← lowHalf, addCarry_eq hle (lowHalf_le d), hhigh, wrap_wrap_add, halves,
        Nat.add_assoc]
    have hrest := ih (hhalf ▸ wrap_le _)
    rw [hhalf, wrap_wrap_add, Nat.add_assoc, ← List.sum_cons, ← List.map_cons] at hrest
    exact hrest

/-- The sum never has more than 16 bits, whatever is added. -/
theorem computePartialCksm_le (hc : cksm.toNat ≤ 65535) (data : List Word) :
    (computePartialCksm cksm data).toNat ≤ 65535 :=
  computePartialCksm_eq hc data ▸ wrap_le _

theorem computeCksm_eq (data : List Word) : (computeCksm data).toNat = 65535 - wrap (data.map halves).sum := by
  have hsum := @computePartialCksm_eq 0 (by decide) data
  have hle := @computePartialCksm_le 0 (by decide) data
  have hfull : (0xffff : Word).toNat = 65535 := rfl
  have hzero : (0 : Word).toNat = 0 := rfl
  rw [hzero, Nat.zero_add] at hsum
  rw [computeCksm, BitVec.toNat_sub, hfull, ← hsum]
  omega

end

end OnlDaemons.Npr

import Mathlib.Logic.Function.Basic
import OnlDaemons.Npr.EchoReply

/-!
# ICMP errors

A packet whose time to live has expired, or for which there is no route, is answered with an ICMP error that quotes its
header, its options and the first words behind them. The two functions are copies of each other: `send_no_route` quotes
eight words where `send_ttl_expired` quotes two, and gives the packet the same length.

## Main definitions

- `OffendingPacket` — what is read of the packet
- `ErrorPacket` — what is made of it, and the words that are written
- `sendError`, `sendTtlExpired`, `sendNoRoute`
- `ErrorPacket.SelfConsistent`, `ErrorsAgree`

## Main results

- `sendError_sumsUp` — the checksums are right for the words that are written
- `sendTtlExpired_selfConsistent`
- `errorsAgree_iff`
-/

namespace OnlDaemons.Npr
open OnlDaemons.Lib ByteMemory OnesComplement

structure BufferDesc where
  bufferNext : BitVec 32
  bufferSize : BitVec 16
  offset : BitVec 16
  packetSize : BitVec 16
  freelistId : BitVec 4
  res1 : BitVec 4
  refCount : BitVec 8
  statsIndex : BitVec 16
  nhMacHi16 : BitVec 16
  nhMacLow32 : BitVec 32
  ethertype : BitVec 16
  res2 : BitVec 16
  res3 : BitVec 32
  packetNext : BitVec 32
deriving DecidableEq

def BufferDesc.v (bd : BufferDesc) : List Word :=
  [bd.bufferNext, bd.bufferSize ++ bd.offset, bd.packetSize ++ bd.freelistId ++ bd.res1 ++ bd.refCount,
    bd.statsIndex ++ bd.nhMacHi16, bd.nhMacLow32, bd.ethertype ++ bd.res2, bd.res3, bd.packetNext]

/-! ### The offending packet -/

structure OffendingPacket where
  hdr : Ipv4Hdr
  options : List Word
  data : List Word

namespace OffendingPacket

def numOptWords (h : Ipv4Hdr) : ℕ := if 5 < h.ipHdrLen.toNat then h.ipHdrLen.toNat - 5 else 0

/-- The header, its options and as many words of data. -/
def read (dram : Dram) (dramAddr : Word) (dataWords : ℕ) : OffendingPacket :=
  let hdr := Ipv4Hdr.ofWords (readIn dram dramAddr 5)
  let num := numOptWords hdr
  { hdr
    options := readIn dram (dramAddr + 20) num
    data := readIn dram (dramAddr + 20 + BitVec.ofNat 32 (num * 4)) dataWords }

/-- What an error quotes. -/
def quoted (o : OffendingPacket) : List Word := o.hdr.v ++ o.options ++ o.data

end OffendingPacket

/-! ### The error -/

structure ErrorPacket where
  dramAddr : Word
  ipHdr : Ipv4Hdr
  icmpHdr : IcmpHdr
  orig : OffendingPacket

/-- What differs in the two functions. Both have an array of eight words for the data that is quoted. -/
structure ErrorKind where
  icmpType : BitVec 8
  ipFlags : BitVec 3
  dataWords : ℕ
  pos : 0 < dataWords
  fits : dataWords ≤ 8

/-- "28 for ipv4 + icmp hdr, 28 for orig ipv4 hdr + 8 bytes data, options" -/
def errorLen (o : OffendingPacket) : BitVec 16 := BitVec.ofNat 16 (28 + 28 + o.options.length * 4)

def errorDesc (len : BitVec 16) : BufferDesc where
  bufferNext := 0xff
  bufferSize := len
  offset := 0x18e
  packetSize := len
  freelistId := 0
  res1 := 0
  refCount := 1
  statsIndex := 0
  nhMacHi16 := 0
  nhMacLow32 := 0
  ethertype := 0x0800
  res2 := 0
  res3 := 0
  packetNext := 0

def errorMuxData (bufHandle : BitVec 24) (len : BitVec 16) (inPort : BitVec 3) : XscaleToMuxData where
  outPort := 0
  bufHandle
  l3PktLength := len
  qid := 0
  ptag := 0
  inPort
  passThrough := 0
  statsIndex := 0

namespace ErrorPacket

def ipHdrFor (k : ErrorKind) (myAddr : Word) (o : OffendingPacket) : Ipv4Hdr :=
  let pktIpHdr : Ipv4Hdr := {
    ipVersion := 4, ipHdrLen := 5, ipTos := 0, ipLen := errorLen o, ipId := 0
    ipFlags := k.ipFlags, ipFragOffset := 0, ipTtl := 64, ipProto := 1, ipHdrCksm := 0, ipSrcAddr := myAddr
    ipDestAddr := o.hdr.ipSrcAddr }
  { pktIpHdr with ipHdrCksm := (computeCksm pktIpHdr.v).setWidth 16 }

/-- The sum of one part is added to a field of 16 bits. -/
def addPart (icmpCksm : BitVec 16) (data : List Word) : BitVec 16 :=
  (computePartialCksm (icmpCksm.setWidth 32) data).setWidth 16

def icmpHdrFor (k : ErrorKind) (o : OffendingPacket) : IcmpHdr :=
  let pktIcmpHdr : IcmpHdr := { icmpType := k.icmpType, icmpCode := 0, icmpCksm := 0, icmpId := 0, icmpSeq := 0 }
  let icmpCksm := addPart pktIcmpHdr.icmpCksm pktIcmpHdr.v
  let icmpCksm := addPart icmpCksm o.hdr.v
  let icmpCksm := if 0 < o.options.length then addPart icmpCksm o.options else icmpCksm
  let icmpCksm := addPart icmpCksm o.data
  { pktIcmpHdr with icmpCksm := (0xffff - icmpCksm.setWidth 32 : Word).setWidth 16 }

def build (k : ErrorKind) (myAddr : Word) (bufHandle : BitVec 24) (o : OffendingPacket) : ErrorPacket where
  dramAddr := (bufHandle.setWidth 32 <<< 8) + 0x18e
  ipHdr := ipHdrFor k myAddr o
  icmpHdr := icmpHdrFor k o
  orig := o

/-- What is given to `write_out`, one after the other. -/
def parts (p : ErrorPacket) : List (List Word) :=
  [p.ipHdr.v, p.icmpHdr.v, p.orig.hdr.v] ++ (if 0 < p.orig.options.length then [p.orig.options] else []) ++ [p.orig.data]

def bytesWritten (p : ErrorPacket) : ℕ := 4 * p.parts.flatten.length

end ErrorPacket

/-- Each part is written where the one before it ends. -/
def writeParts (dram : Dram) (dramAddr : Word) : List (List Word) → Dram
  | [] => dram
  | part :: ps => writeParts (writeOut dram dramAddr part) (dramAddr + BitVec.ofNat 32 (4 * part.length)) ps

namespace DataPath

/-- `SRAM_QUEUE_DEQUEUE` of `BUF_FREE_LIST` -/
def dequeue (s : DataPath) : Word × DataPath := (s.free.headD 0, { s with free := s.free.tail })

def writeDesc (s : DataPath) (bufHandle : Word) (bd : BufferDesc) : DataPath :=
  let bdAddr := bufHandle <<< 2
  { s with sram := bd.v.zipIdx.foldl (fun m w => Function.update m (bdAddr + BitVec.ofNat 32 (w.2 * 4)) w.1) s.sram }

@[simp] theorem dram_writeDesc (s : DataPath) (bufHandle : Word) (bd : BufferDesc) :
    (s.writeDesc bufHandle bd).dram = s.dram := rfl

variable (getPortAddr : BitVec 3 → Word)

/-- `send_ttl_expired` and `send_no_route`, with the packet that is built if there is one. -/
def sendError (k : ErrorKind) (s : DataPath) (msg : PlcToXscaleData) : DataPath × Option ErrorPacket :=
  let orig := OffendingPacket.read s.dram (s.dramAddr msg) k.dataWords
  let myAddr := getPortAddr msg.inPort
  -- "if it's already been to the xscale, then drop it"
  if orig.hdr.ipSrcAddr = myAddr then (s.drop msg, none)
  else
    let bufHandle : BitVec 24 := s.dequeue.1.setWidth 24
    -- "free list is out of descriptors.. not sending icmp message"
    if bufHandle = 0 then (s.dequeue.2.drop msg, none)
    else
      let p := ErrorPacket.build k myAddr bufHandle orig
      let t := s.dequeue.2.writeDesc (bufHandle.setWidth 32) (errorDesc (errorLen orig))
      let t := { t with dram := writeParts t.dram p.dramAddr p.parts }
      ((t.writemsg ⟨.mux, (errorMuxData bufHandle (errorLen orig) msg.inPort).v⟩).drop msg, some p)

def sendTtlExpired (s : DataPath) (msg : PlcToXscaleData) : DataPath × Option ErrorPacket :=
  sendError getPortAddr ⟨11, 2, 2, by decide, by decide⟩ s msg

def sendNoRoute (s : DataPath) (msg : PlcToXscaleData) : DataPath × Option ErrorPacket :=
  sendError getPortAddr ⟨3, 0, 8, by decide, by decide⟩ s msg

end DataPath

/-! ### What should hold -/

/-- The length of the packet in DRAM is what was written, and its checksums are right for this length. -/
structure ErrorPacket.SelfConsistent (u : DataPath) (p : ErrorPacket) : Prop where
  length : (Ipv4Hdr.ofWords (readIn u.dram p.dramAddr 5)).ipLen.toNat = p.bytesWritten
  header : SumsUp (load u.dram p.dramAddr 20)
  icmp : SumsUp (load u.dram (p.dramAddr + 20) ((Ipv4Hdr.ofWords (readIn u.dram p.dramAddr 5)).ipLen.toNat - 20))

/-- Both errors are consistent, and they quote the same. -/
structure ErrorsAgree (getPortAddr : BitVec 3 → Word) (s : DataPath) (msg : PlcToXscaleData) : Prop where
  ttlExpired : ∀ p ∈ (s.sendTtlExpired getPortAddr msg).2, p.SelfConsistent (s.sendTtlExpired getPortAddr msg).1
  noRoute : ∀ p ∈ (s.sendNoRoute getPortAddr msg).2, p.SelfConsistent (s.sendNoRoute getPortAddr msg).1
  quoted : ∀ p ∈ (s.sendTtlExpired getPortAddr msg).2, ∀ q ∈ (s.sendNoRoute getPortAddr msg).2,
    p.orig.quoted = q.orig.quoted

/-! ### What is written -/

theorem writeParts_eq {dram : Dram} {a : Word} {ps : List (List Word)} (hne : ∀ part ∈ ps, part ≠ [])
    (hfits : 4 * (ps.flatten.length + 1) ≤ 2 ^ 32) :
    writeParts dram a ps = store dram a (ps.flatten.flatMap wordBytes) := by
  induction ps generalizing dram a with
  | nil => rfl
  | cons part ps ih =>
    rw [List.flatten_cons, List.length_append] at hfits
    rw [writeParts, writeOut_eq _ _ (hne part (List.mem_cons_self ..)) (by omega),
      ih (fun q hq => hne q (List.mem_cons_of_mem _ hq)) (by omega), List.flatten_cons, List.flatMap_append, ← store_append,
      length_flatMap_wordBytes]
    rw [length_flatMap_wordBytes, length_flatMap_wordBytes]
    omega

namespace ErrorPacket

variable {k : ErrorKind} {o : OffendingPacket} {myAddr : Word}

theorem addPart_eq (icmpCksm : BitVec 16) (data : List Word) :
    (addPart icmpCksm data).toNat = wrap (icmpCksm.toNat + (data.map halves).sum) := by
  have hlt := icmpCksm.isLt
  have hwide : (icmpCksm.setWidth 32).toNat = icmpCksm.toNat := by
    rw [BitVec.toNat_setWidth, Nat.mod_eq_of_lt (by omega)]
  have hsum := @computePartialCksm_eq (icmpCksm.setWidth 32) (by omega) data
  have hle := wrap_le (icmpCksm.toNat + (data.map halves).sum)
  rw [hwide] at hsum
  rw [addPart, BitVec.toNat_setWidth, hsum, Nat.mod_eq_of_lt (by omega)]

/-- The parts of a packet, whether there are options or not. -/
theorem flatten_parts (p : ErrorPacket) : p.parts.flatten = p.ipHdr.v ++ (p.icmpHdr.v ++ p.orig.quoted) := by
  unfold parts OffendingPacket.quoted
  split
  · simp
  · rename_i hnone
    have hnil : p.orig.options = [] := List.eq_nil_of_length_eq_zero (by omega)
    simp [hnil]

/-- The sum of all parts but the checksum. -/
theorem toNat_icmpCksm (k : ErrorKind) (o : OffendingPacket) : (icmpHdrFor k o).icmpCksm.toNat =
    65535 - wrap ((({ icmpHdrFor k o with icmpCksm := 0 } : IcmpHdr).v.map halves).sum + (o.quoted.map halves).sum) := by
  have hzero : (0 : BitVec 16).toNat = 0 := rfl
  have hquoted : (o.quoted.map halves).sum =
      (o.hdr.v.map halves).sum + (o.options.map halves).sum + (o.data.map halves).sum := by
    rw [OffendingPacket.quoted, List.map_append, List.map_append, List.sum_append, List.sum_append]
  unfold icmpHdrFor
  simp only
  rw [toNat_complement, addPart_eq, hquoted]
  split
  · rw [addPart_eq, addPart_eq, addPart_eq, hzero]
    simp only [wrap_wrap_add, Nat.add_assoc, Nat.zero_add]
  · rename_i hnone
    have hnil : o.options = [] := List.eq_nil_of_length_eq_zero (by omega)
    rw [addPart_eq, addPart_eq, hzero, hnil]
    simp only [wrap_wrap_add, Nat.add_assoc, Nat.zero_add, List.map_nil, List.sum_nil]

/-- The ICMP header and what it quotes sum up. -/
theorem sumsUp_icmp (k : ErrorKind) (o : OffendingPacket) :
    SumsUp (((icmpHdrFor k o).v ++ o.quoted).flatMap wordBytes) := by
  have hcksm := toNat_icmpCksm k o
  generalize icmpHdrFor k o = h at hcksm
  have hv : ((h.v ++ o.quoted).map halves).sum =
      (({ h with icmpCksm := 0 } : IcmpHdr).v.map halves).sum + (o.quoted.map halves).sum + h.icmpCksm.toNat := by
    have hzero : (0 : BitVec 16).toNat = 0 := rfl
    simp only [IcmpHdr.v, List.map_append, List.map_cons, List.map_nil, List.sum_append, List.sum_cons, List.sum_nil,
      halves_fields]
    omega
  rw [SumsUp, onesSum_eq, ← List.append_nil (List.flatMap _ _), sum_halfWords_words, hv, hcksm]
  simp only [halfWords, List.sum_nil, Nat.add_zero, wrap_complement]

end ErrorPacket

namespace DataPath

variable {getPortAddr : BitVec 3 → Word} {k : ErrorKind} {s : DataPath} {msg : PlcToXscaleData} {p : ErrorPacket}

theorem numOptWords_le (h : Ipv4Hdr) : OffendingPacket.numOptWords h ≤ 10 := by
  have hlt := h.ipHdrLen.isLt
  unfold OffendingPacket.numOptWords
  split <;> omega

/-- No error is sent: the packet is one of this router's own, or there is no buffer. -/
def Unanswered (getPortAddr : BitVec 3 → Word) (s : DataPath) (msg : PlcToXscaleData) : Prop :=
  (s.pktHdr msg).ipSrcAddr = getPortAddr msg.inPort ∨ s.dequeue.1.setWidth 24 = (0 : BitVec 24)

instance : Decidable (Unanswered getPortAddr s msg) := inferInstanceAs (Decidable (_ ∨ _))

/-- The packet that is built when there is one. -/
def errorPacket (getPortAddr : BitVec 3 → Word) (k : ErrorKind) (s : DataPath) (msg : PlcToXscaleData) : ErrorPacket :=
  .build k (getPortAddr msg.inPort) (s.dequeue.1.setWidth 24) (.read s.dram (s.dramAddr msg) k.dataWords)

theorem sendError_of_unanswered (h : Unanswered getPortAddr s msg) : (s.sendError getPortAddr k msg).2 = none := by
  by_cases hown : (OffendingPacket.read s.dram (s.dramAddr msg) k.dataWords).hdr.ipSrcAddr = getPortAddr msg.inPort
  · rw [sendError, if_pos hown]
  · have hfree := h.resolve_left hown
    simp only [sendError, if_neg hown, if_pos hfree]

theorem sendError_of_not_unanswered (h : ¬Unanswered getPortAddr s msg) :
    (s.sendError getPortAddr k msg).2 = some (errorPacket getPortAddr k s msg) ∧
    (s.sendError getPortAddr k msg).1.dram =
      writeParts s.dram (errorPacket getPortAddr k s msg).dramAddr (errorPacket getPortAddr k s msg).parts := by
  obtain ⟨hown, hfree⟩ := not_or.1 h
  have hown' : (OffendingPacket.read s.dram (s.dramAddr msg) k.dataWords).hdr.ipSrcAddr ≠ getPortAddr msg.inPort := hown
  constructor
  · simp only [sendError, if_neg hown', if_neg hfree]
    rfl
  · simp only [sendError, if_neg hown', if_neg hfree, dram_drop, dram_writemsg, dram_writeDesc]
    rfl

theorem length_options (dram : Dram) (a : Word) (n : ℕ) : (OffendingPacket.read dram a n).options.length ≤ 10 :=
  (length_readIn ..).trans_le (numOptWords_le _)

theorem length_data (dram : Dram) (a : Word) (n : ℕ) : (OffendingPacket.read dram a n).data.length = n :=
  length_readIn ..

theorem length_quoted (dram : Dram) (a : Word) (n : ℕ) : (OffendingPacket.read dram a n).quoted.length =
    5 + (OffendingPacket.read dram a n).options.length + n := by
  rw [OffendingPacket.quoted, List.length_append, List.length_append, length_data]
  rfl

theorem parts_ne_nil (p : ErrorPacket) (hdata : p.orig.data ≠ []) : ∀ part ∈ p.parts, part ≠ [] := by
  intro part hpart
  simp only [ErrorPacket.parts, List.mem_append, List.mem_cons, List.not_mem_nil, or_false] at hpart
  rcases hpart with ((rfl | rfl | rfl) | hoptions) | rfl
  · exact List.cons_ne_nil _ _
  · exact List.cons_ne_nil _ _
  · exact List.cons_ne_nil _ _
  · split at hoptions
    · rw [List.mem_singleton] at hoptions
      subst hoptions
      exact List.ne_nil_of_length_pos ‹_›
    · cases hoptions
  · exact hdata

/-- The words of an error in DRAM. -/
theorem holds_error (h : ¬Unanswered getPortAddr s msg) :
    HoldsWords (s.sendError getPortAddr k msg).1.dram (errorPacket getPortAddr k s msg).dramAddr
      ((errorPacket getPortAddr k s msg).ipHdr.v ++
        ((errorPacket getPortAddr k s msg).icmpHdr.v ++ (errorPacket getPortAddr k s msg).orig.quoted)) := by
  have hoptions := length_options s.dram (s.dramAddr msg) k.dataWords
  have hquoted : (errorPacket getPortAddr k s msg).orig.quoted.length = _ := length_quoted ..
  have hdata : (errorPacket getPortAddr k s msg).orig.data.length = _ := length_data ..
  have hpos := k.pos
  have hfits := k.fits
  have hlen : (errorPacket getPortAddr k s msg).parts.flatten.length ≤ 30 := by
    have hip : (errorPacket getPortAddr k s msg).ipHdr.v.length = 5 := rfl
    have hicmp : (errorPacket getPortAddr k s msg).icmpHdr.v.length = 2 := rfl
    rw [ErrorPacket.flatten_parts, List.length_append, List.length_append, hquoted, hip, hicmp]
    omega
  have hne := parts_ne_nil (errorPacket getPortAddr k s msg) (List.ne_nil_of_length_pos (by omega))
  rw [(sendError_of_not_unanswered h).2, writeParts_eq hne (by omega), ErrorPacket.flatten_parts]
  apply holdsWords_store
  rw [← ErrorPacket.flatten_parts]
  omega

theorem bytesWritten_errorPacket : (errorPacket getPortAddr k s msg).bytesWritten =
    48 + 4 * (errorPacket getPortAddr k s msg).orig.options.length + 4 * k.dataWords := by
  have hquoted : (errorPacket getPortAddr k s msg).orig.quoted.length =
    5 + (errorPacket getPortAddr k s msg).orig.options.length + k.dataWords := length_quoted ..
  have hip : (errorPacket getPortAddr k s msg).ipHdr.v.length = 5 := rfl
  have hicmp : (errorPacket getPortAddr k s msg).icmpHdr.v.length = 2 := rfl
  rw [ErrorPacket.bytesWritten, ErrorPacket.flatten_parts, List.length_append, List.length_append, hquoted, hip, hicmp]
  omega

theorem toNat_ipLen_errorPacket : (errorPacket getPortAddr k s msg).ipHdr.ipLen.toNat =
    56 + 4 * (errorPacket getPortAddr k s msg).orig.options.length := by
  have hoptions : (errorPacket getPortAddr k s msg).orig.options.length ≤ 10 := length_options ..
  have hlen : (errorPacket getPortAddr k s msg).ipHdr.ipLen = errorLen (errorPacket getPortAddr k s msg).orig := rfl
  rw [hlen, errorLen, BitVec.toNat_ofNat]
  omega

/-- The header that is read again. -/
theorem ofWords_sendError (h : ¬Unanswered getPortAddr s msg) :
    Ipv4Hdr.ofWords (readIn (s.sendError getPortAddr k msg).1.dram (errorPacket getPortAddr k s msg).dramAddr 5) =
      (errorPacket getPortAddr k s msg).ipHdr := by
  have hwords := (holdsWords_append.1 (@holds_error getPortAddr k s msg h)).1.readWords_eq
  have hread : readWords (s.sendError getPortAddr k msg).1.dram (errorPacket getPortAddr k s msg).dramAddr 5 =
      (errorPacket getPortAddr k s msg).ipHdr.v := hwords
  rw [readIn_eq, hread, Ipv4Hdr.ofWords_v]

/-- The checksums of an error are right for what is written. -/
theorem sendError_sumsUp (h : ¬Unanswered getPortAddr s msg) :
    SumsUp (load (s.sendError getPortAddr k msg).1.dram (errorPacket getPortAddr k s msg).dramAddr 20) ∧
    SumsUp (load (s.sendError getPortAddr k msg).1.dram ((errorPacket getPortAddr k s msg).dramAddr + 20)
      ((errorPacket getPortAddr k s msg).bytesWritten - 20)) := by
  have hholds := holdsWords_append.1 (@holds_error getPortAddr k s msg h)
  have hheader : load (s.sendError getPortAddr k msg).1.dram (errorPacket getPortAddr k s msg).dramAddr 20 =
      (errorPacket getPortAddr k s msg).ipHdr.v.flatMap wordBytes := hholds.1
  have hlen : (errorPacket getPortAddr k s msg).bytesWritten - 20 =
      4 * ((errorPacket getPortAddr k s msg).icmpHdr.v ++ (errorPacket getPortAddr k s msg).orig.quoted).length := by
    have hip : (errorPacket getPortAddr k s msg).ipHdr.v.length = 5 := rfl
    rw [ErrorPacket.bytesWritten, ErrorPacket.flatten_parts, List.length_append, hip]
    omega
  constructor
  · rw [hheader]
    exact sumsUp_hdr _ rfl
  · have hicmp : load (s.sendError getPortAddr k msg).1.dram ((errorPacket getPortAddr k s msg).dramAddr + 20) _ = _ :=
      hholds.2
    rw [hlen, hicmp]
    exact ErrorPacket.sumsUp_icmp ..

/-- An error is consistent when it quotes two words of data. -/
theorem selfConsistent_errorPacket_iff (h : ¬Unanswered getPortAddr s msg) :
    (errorPacket getPortAddr k s msg).SelfConsistent (s.sendError getPortAddr k msg).1 ↔ k.dataWords = 2 := by
  have hlen := @toNat_ipLen_errorPacket getPortAddr k s msg
  have hwritten := @bytesWritten_errorPacket getPortAddr k s msg
  constructor
  · intro hself
    have hsame := hself.length
    rw [ofWords_sendError h] at hsame
    omega
  · intro htwo
    have hsame : (errorPacket getPortAddr k s msg).ipHdr.ipLen.toNat = (errorPacket getPortAddr k s msg).bytesWritten := by
      omega
    obtain ⟨hheader, hicmp⟩ := @sendError_sumsUp getPortAddr k s msg h
    refine ⟨?_, hheader, ?_⟩
    · rw [ofWords_sendError h, hsame]
    · rw [ofWords_sendError h, hsame]
      exact hicmp

theorem mem_sendError (h : p ∈ (s.sendError getPortAddr k msg).2) :
    ¬Unanswered getPortAddr s msg ∧ p = errorPacket getPortAddr k s msg := by
  by_cases hun : Unanswered getPortAddr s msg
  · rw [sendError_of_unanswered hun] at h
    cases h
  · rw [(sendError_of_not_unanswered hun).1] at h
    exact ⟨hun, (Option.mem_some_iff.1 h).symm⟩

/-- The error for an expired packet is consistent. -/
theorem sendTtlExpired_selfConsistent (h : p ∈ (s.sendTtlExpired getPortAddr msg).2) :
    p.SelfConsistent (s.sendTtlExpired getPortAddr msg).1 := by
  obtain ⟨hun, rfl⟩ := mem_sendError h
  exact (selfConsistent_errorPacket_iff hun).2 rfl

theorem not_errorsAgree (h : ¬Unanswered getPortAddr s msg) : ¬ErrorsAgree getPortAddr s msg := by
  intro hagree
  have hself := hagree.noRoute _ (sendError_of_not_unanswered h).1
  have htwo := (selfConsistent_errorPacket_iff h).1 hself
  cases htwo

/-- The errors are as they should be only when there is none. `send_no_route` writes 24 bytes that the length of its
packet leaves out. -/
theorem errorsAgree_iff (getPortAddr : BitVec 3 → Word) (s : DataPath) (msg : PlcToXscaleData) :
    ErrorsAgree getPortAddr s msg ↔ Unanswered getPortAddr s msg := by
  constructor
  · intro h
    by_contra hun
    exact not_errorsAgree hun h
  · intro hun
    refine ⟨?_, ?_, ?_⟩
    · intro p hp
      exact sendTtlExpired_selfConsistent hp
    · intro p hp
      exact absurd hun (mem_sendError hp).1
    · intro p hp
      exact absurd hun (mem_sendError hp).1

/-- A packet from 10.0.0.1, and a buffer for its error. -/
def lost : DataPath :=
  { withPacket [0x45, 0, 0, 20, 0, 0, 0, 0, 64, 17, 0, 0, 10, 0, 0, 1, 10, 0, 0, 2] with free := [0x100] }

theorem lost_not_errorsAgree : ¬∀ (getPortAddr : BitVec 3 → Word) (s : DataPath) (msg : PlcToXscaleData),
    ErrorsAgree getPortAddr s msg := by
  intro h
  exact not_errorsAgree (show ¬Unanswered (fun _ => 0x0a0000fe) lost { bufHandle := 0 } by decide +kernel) (h _ _ _)

end DataPath

end OnlDaemons.Npr

import OnlDaemons.Lib.Framing
import OnlDaemons.Lib.Wire

/-!
# The message buffer of the proxy

A message has a header of 8 bytes and a payload whose length the header gives. It is read and
written on sockets that do not block, in as many calls as it takes; between two of them the buffer
keeps how far it has come in the header and in the payload.

## Main definitions

- `Part` — the header or the payload, with the offset
- `MsgBuf` — `msgBuf<hdr_t>`
- `readmsg`, `readPload` — reading a message
- `writemsg`, `writePload` — writing one
-/

namespace OnlDaemons.Proxy
open OnlDaemons.Lib

/-- `mbuf::msgState_t`. -/
inductive MsgState
  | ready
  | hPartial
  | header
  | pPartial
  | complete
  | error
deriving DecidableEq

/-- What a system call on a socket comes back with. -/
inductive Transfer
  | bytes (n : ℕ)
  | again
  | eof
  | error

def Transfer.fails : Transfer → Bool
  | .eof | .error => true
  | _ => false

/-- What the functions on messages return. -/
inductive MsgStat
  | dataComplete
  | dataPartial
  | endOfFile
  | error
deriving DecidableEq

/-- What `readv` finds. -/
inductive Readv
  | bytes (bs : List UInt8)
  | again
  | eof
  | error

/-- `inetSock::readv` into a buffer for `asked` bytes. The vector of an empty buffer is NULL. -/
def readv (asked : ℕ) (line : List UInt8) : Transfer → Option (Readv × List UInt8)
  | .bytes n =>
    if asked = 0 then some (.error, line)
    else if 0 < n ∧ n ≤ asked ∧ n ≤ line.length then some (.bytes (line.take n), line.drop n)
    else none
  | .again => some (if asked = 0 then .error else .again, line)
  | .eof => some (if asked = 0 then .error else .eof, line)
  | .error => some (.error, line)

/-- A header or a payload in memory: its length, and the offset at which it is read or written. -/
structure Part where
  mem : ℕ → UInt8 := fun _ => 0
  len : ℕ := 0
  off : ℕ := 0

namespace Part

def left (p : Part) : ℕ := p.len - p.off

/-- The bytes from the offset on. -/
def data (p : Part) : List UInt8 := window p.mem p.off p.left

def rewind (p : Part) : Part := { p with off := 0 }

def seek (p : Part) (offset : ℕ) : Part := { p with off := offset }

/-- Bytes that are read at the offset. -/
def store (p : Part) (bs : List UInt8) : Part :=
  { p with mem := overwrite p.mem p.off bs, off := p.off + bs.length }

/-- The bytes at position `i` are set. -/
def set (p : Part) (i : ℕ) (bs : List UInt8) : Part :=
  { p with mem := overwrite p.mem i bs }

end Part

/-- `psize` is what the buffers of the payload hold and `mcnt` how many buffers there are, with that of
the header. -/
structure MsgBuf where
  st : MsgState := .ready
  hdr : Part := { len := 8 }
  pay : Part := { len := 2048 }
  psize : ℕ := 2048
  mcnt : ℕ := 2

namespace MsgBuf

def msgPartial (b : MsgBuf) : Bool := b.st = .hPartial || b.st = .pPartial

/-- `plen(Total)`. There are at most 8 buffers, each of at least twice the size of the one before. -/
def plen (b : MsgBuf) (total : ℕ) : Option MsgBuf :=
  let pay := { b.pay with len := total, off := 0 }
  if total ≤ b.psize then some { b with pay := pay }
  else if b.mcnt = 8 then none
  else
    some { b with
      pay := pay
      psize := b.psize + max (total - b.psize) (512 * 2 ^ b.mcnt)
      mcnt := b.mcnt + 1 }

def preset (b : MsgBuf) : MsgBuf := { b with pay := { b.pay with len := b.psize, off := 0 } }

/-- The header of a message without payload: length 8, and no command, message and connection. -/
def hdrReset (b : MsgBuf) : MsgBuf :=
  { b with hdr := { Part.set b.hdr 0 [0, 8, 0, 0, 0, 0, 0, 0] with len := 8, off := 0 } }

def reset (b : MsgBuf) : MsgBuf := { b.hdrReset.preset with st := .ready }

def clear (b : MsgBuf) : MsgBuf :=
  { b.hdrReset with pay := { b.pay with len := 0, off := 0 }, st := .ready }

/-- `hdr_t::dlen`: the length is a 16-bit number of the header and the payload. -/
def dlen (b : MsgBuf) : ℕ := (bigEndian (window b.hdr.mem 0 2) + 2 ^ 16 - 8) % 2 ^ 16

/-- `readHdr`. An exception of `plen` closes the connection like an error. -/
def readHdr (b : MsgBuf) (line : List UInt8) (r : Transfer) :
    Option (MsgStat × MsgBuf × List UInt8) :=
  match readv b.hdr.left line r with
  | none => none
  | some (.bytes bs, line) =>
    if bs.length = b.hdr.left then
      let b := { b with hdr := (b.hdr.store bs).rewind }
      match b.plen b.dlen with
      | some b => some (.dataComplete, b, line)
      | none => some (.error, b.clear, line)
    else some (.dataPartial, { b with hdr := b.hdr.store bs }, line)
  | some (.again, line) => some (.dataPartial, b, line)
  | some (.eof, line) => some (.endOfFile, b.clear, line)
  | some (.error, line) => some (.error, b.clear, line)

/-- `readBody`, and what `readmsg` makes of it. -/
def readBody (b : MsgBuf) (line : List UInt8) (r : Transfer) :
    Option (MsgStat × MsgBuf × List UInt8) :=
  if b.pay.left = 0 then
    some (.dataComplete, { b with pay := b.pay.rewind, st := .complete }, line)
  else
    match readv b.pay.left line r with
    | none => none
    | some (.bytes bs, line) =>
      if bs.length = b.pay.left then
        some (.dataComplete, { b with pay := (b.pay.store bs).rewind, st := .complete }, line)
      else some (.dataPartial, { b with pay := b.pay.store bs, st := .pPartial }, line)
    | some (.again, line) => some (.dataPartial, { b with st := .pPartial }, line)
    | some (.eof, line) => some (.endOfFile, { b.clear with st := .ready }, line)
    | some (.error, line) => some (.error, { b.clear with st := .error }, line)

/-- The header of a message, and the body when the header is whole. -/
def readHdrBody (b : MsgBuf) (line : List UInt8) (r₁ r₂ : Transfer) :
    Option (MsgStat × MsgBuf × List UInt8) :=
  match b.readHdr line r₁ with
  | none => none
  | some (.dataComplete, b, line) => readBody { b with st := .header } line r₂
  | some (.dataPartial, b, line) => some (.dataPartial, { b with st := .hPartial }, line)
  | some (.endOfFile, b, line) => some (.endOfFile, { b with st := .ready }, line)
  | some (.error, b, line) => some (.error, { b with st := .error }, line)

/-- `readmsg`. The second transfer is that of the body, if the header is read whole in the same call. -/
def readmsg (b : MsgBuf) (line : List UInt8) (r₁ r₂ : Transfer) :
    Option (MsgStat × MsgBuf × List UInt8) :=
  let b := if b.st = .ready ∨ b.st = .error ∨ b.st = .complete then b.reset else b
  if b.st = .ready ∨ b.st = .hPartial then b.readHdrBody line r₁ r₂ else b.readBody line r₁

/-- `StreamConn::doRecv` resets the payload, and `readPload` sets it to the 4 bytes of its length. -/
def ploadStart (b : MsgBuf) : MsgBuf :=
  let b := if b.msgPartial then b else b.preset
  if b.st = .ready ∨ b.st = .error ∨ b.st = .complete then
    { b with pay := { b.pay with len := 4, off := 0 }, st := .ready }
  else b

/-- The length of a payload, and the rest when the length is whole. -/
def readLength (b : MsgBuf) (line : List UInt8) (r₁ r₂ : Transfer) :
    Option (MsgStat × MsgBuf × List UInt8) :=
  match readv b.pay.left line r₁ with
  | none => none
  | some (.bytes bs, line) =>
    -- what was read is compared with the whole length, not with what was left to read
    if bs.length = 4 then
      let b := { b with pay := (b.pay.store bs).rewind }
      match b.plen (4 + bigEndian (window b.pay.mem 0 4)) with
      | some b => readBody { b with pay := b.pay.seek 4, st := .header } line r₂
      | none => some (.error, { b.clear with st := .error }, line)
    else some (.dataPartial, { b with pay := b.pay.store bs, st := .hPartial }, line)
  | some (.again, line) => some (.dataPartial, { b with st := .hPartial }, line)
  | some (.eof, line) => some (.endOfFile, { b.clear with st := .ready }, line)
  | some (.error, line) => some (.error, { b.clear with st := .error }, line)

/-- `readPload<nccp_t>`. The rest is read as the body of a message is. -/
def readPload (b : MsgBuf) (line : List UInt8) (r₁ r₂ : Transfer) :
    Option (MsgStat × MsgBuf × List UInt8) :=
  let b := b.ploadStart
  if b.st = .ready ∨ b.st = .hPartial then b.readLength line r₁ r₂ else b.readBody line r₁

/-! ### Writing a message -/

/-- What is left to be written of the header and the payload. -/
def unsent (b : MsgBuf) : List UInt8 := b.hdr.data ++ b.pay.data

def offset (b : MsgBuf) : ℕ := b.hdr.off + b.pay.off

/-- `mbuf::seek`: the payload is only sought in behind the whole header. -/
def seek (b : MsgBuf) (offset : ℕ) : MsgBuf :=
  { b with hdr := b.hdr.seek (min offset b.hdr.len), pay := b.pay.seek (offset - b.hdr.len) }

/-- All of the message is written. -/
def written (b : MsgBuf) : MsgBuf := { b with hdr := b.hdr.rewind, pay := b.pay.rewind, st := .complete }

/-- `writemsg`, with the bytes that the socket has taken. -/
def writemsg (b : MsgBuf) : Transfer → MsgStat × MsgBuf × List UInt8
  | .bytes n =>
    if n = b.unsent.length then (.dataComplete, b.written, b.unsent)
    else (.dataPartial, { b.seek (b.offset + n) with st := .pPartial }, b.unsent.take n)
  | .again => (.dataPartial, { b with st := .pPartial }, [])
  | .eof => (.endOfFile, { b.clear with st := .ready }, [])
  | .error => (.error, { b.clear with st := .error }, [])

/-- `writePload`: only the payload is written. -/
def writePload (b : MsgBuf) (r : Transfer) : MsgStat × MsgBuf × List UInt8 :=
  if b.pay.left = 0 then (.dataComplete, { b with pay := b.pay.rewind, st := .complete }, [])
  else
    match r with
    | .bytes n =>
      if n = b.pay.left then (.dataComplete, { b with pay := b.pay.rewind, st := .complete }, b.pay.data)
      else
        (.dataPartial, { b with pay := b.pay.seek (b.pay.off + n), st := .pPartial }, b.pay.data.take n)
    | .again => (.dataPartial, { b with st := .pPartial }, [])
    | .eof => (.endOfFile, { b.clear with st := .error }, [])
    | .error => (.error, { b.clear with st := .error }, [])

/-- Nothing of the message was written. -/
def Fresh (b : MsgBuf) : Prop := b.hdr.len = 8 ∧ b.hdr.off = 0 ∧ b.pay.off = 0

instance (b : MsgBuf) : Decidable b.Fresh := inferInstanceAs (Decidable (_ ∧ _))

/-! ### What has been read -/

theorem eight_pos : 0 < 8 := by decide

theorem four_pos : 0 < 4 := by decide

/-- The messages of the connections of the proxy itself. -/
def framing : Framing UInt8 where
  headLen := 8
  bodyLen hdr := (bigEndian (hdr.take 2) + 2 ^ 16 - 8) % 2 ^ 16
  pos := eight_pos

/-- The messages of the connections that are forwarded. -/
def nccpFraming : Framing UInt8 where
  headLen := 4
  bodyLen := bigEndian
  pos := four_pos

/-- The header and the payload. -/
def message (b : MsgBuf) : List UInt8 := window b.hdr.mem 0 8 ++ window b.pay.mem 0 b.pay.len

def payload (b : MsgBuf) : List UInt8 := window b.pay.mem 0 b.pay.len

/-- The part of a message that `readmsg` has read. -/
def half (b : MsgBuf) : List UInt8 :=
  match b.st with
  | .hPartial => window b.hdr.mem 0 b.hdr.off
  | .pPartial => window b.hdr.mem 0 8 ++ window b.pay.mem 0 b.pay.off
  | _ => []

/-- The part of a payload that `readPload` has read. -/
def halfPload (b : MsgBuf) : List UInt8 :=
  match b.st with
  | .hPartial | .pPartial => window b.pay.mem 0 b.pay.off
  | _ => []

/-- A payload of this length fits, or another buffer can be made. -/
def Grows (b : MsgBuf) (total : ℕ) : Prop := total ≤ b.psize ∨ b.mcnt ≠ 8

/-- As many buffers as there are hold more than a 16-bit length. -/
def Room (b : MsgBuf) : Prop := 2 ≤ b.mcnt ∧ b.mcnt ≤ 8 ∧ 512 * 2 ^ b.mcnt ≤ b.psize

/-- How far `readmsg` has come. -/
def ReadOk (b : MsgBuf) : Prop :=
  b.Room ∧
  match b.st with
  | .hPartial => b.hdr.len = 8 ∧ b.hdr.off < 8
  | .pPartial => b.pay.len = b.dlen ∧ b.pay.off < b.pay.len
  | .header => False
  | _ => True

/-- How far `readPload` has come, when a length was never read in part. -/
def PloadOk (b : MsgBuf) : Prop :=
  match b.st with
  | .hPartial => b.pay.len = 4 ∧ b.pay.off = 0
  | .pPartial => b.pay.len = 4 + bigEndian (window b.pay.mem 0 4) ∧ 4 ≤ b.pay.off ∧
      b.pay.off < b.pay.len
  | .header => False
  | _ => True

variable {b b' : MsgBuf} {line line' : List UInt8} {r r₁ r₂ : Transfer} {stat : MsgStat}

theorem readv_bytes {asked : ℕ} {bs : List UInt8} (h : readv asked line r = some (.bytes bs, line')) :
    line = bs ++ line' ∧ 0 < bs.length ∧ bs.length ≤ asked := by
  cases r with
  | bytes n =>
    simp only [readv] at h
    split at h
    · cases h
    split at h <;> cases h
    next hn =>
    rw [List.length_take, Nat.min_eq_left hn.2.2]
    exact ⟨(List.take_append_drop n line).symm, hn.1, hn.2.1⟩
  | again =>
    simp only [readv] at h
    split at h <;> cases h
  | eof =>
    simp only [readv] at h
    split at h <;> cases h
  | error => cases h

theorem readv_again {asked : ℕ} (h : readv asked line r = some (.again, line')) : line' = line := by
  cases r with
  | bytes n =>
    simp only [readv] at h
    split at h
    · cases h
    · split at h <;> cases h
  | again =>
    simp only [readv] at h
    split at h <;> cases h
    rfl
  | eof =>
    simp only [readv] at h
    split at h <;> cases h
  | error => cases h

theorem readv_fails {asked : ℕ} {res : Readv} (hask : asked ≠ 0) (hres : res = .eof ∨ res = .error)
    (h : readv asked line r = some (res, line')) : r.fails = true := by
  cases r with
  | bytes n =>
    simp only [readv, if_neg hask] at h
    split at h <;> cases h
    obtain hres | hres := hres <;> cases hres
  | again =>
    simp only [readv, if_neg hask] at h
    cases h
    obtain hres | hres := hres <;> cases hres
  | eof => rfl
  | error => rfl

theorem window_store (p : Part) (bs : List UInt8) :
    window (p.store bs).mem 0 (p.off + bs.length) = window p.mem 0 p.off ++ bs := by
  have h := window_overwrite p.mem 0 p.off bs
  rwa [Nat.zero_add] at h

theorem plen_some (total : ℕ) (h : b.Grows total) :
    ∃ b', b.plen total = some b' ∧ b'.st = b.st ∧ b'.hdr = b.hdr ∧
      b'.pay = { b.pay with len := total, off := 0 } ∧ (b.Room → b'.Room) := by
  unfold plen
  split
  · exact ⟨_, rfl, rfl, rfl, rfl, id⟩
  next hsize =>
  rw [if_neg (h.resolve_left hsize)]
  refine ⟨_, rfl, rfl, rfl, rfl, fun hr => ⟨?_, ?_, ?_⟩⟩
  · exact Nat.le_succ_of_le hr.1
  · have hle := hr.2.1
    have hne := h.resolve_left hsize
    show b.mcnt + 1 ≤ 8
    omega
  · show 512 * 2 ^ (b.mcnt + 1) ≤ b.psize + max (total - b.psize) (512 * 2 ^ b.mcnt)
    have hle := hr.2.2
    have hmax := Nat.le_max_right (total - b.psize) (512 * 2 ^ b.mcnt)
    rw [pow_succ]
    omega

/-- A payload with a 16-bit length always fits. -/
theorem Room.grows (h : b.Room) {total : ℕ} (ht : total < 2 ^ 16) : b.Grows total := by
  by_cases h8 : b.mcnt = 8
  · refine .inl ?_
    have hle := h.2.2
    rw [h8] at hle
    omega
  · exact .inr h8

theorem dlen_lt (b : MsgBuf) : b.dlen < 2 ^ 16 := Nat.mod_lt _ (by decide)

theorem size_framing (b : MsgBuf) (rest : List UInt8) :
    framing.size (window b.hdr.mem 0 8 ++ rest) = 8 + b.dlen := by
  have htake : (window b.hdr.mem 0 8 ++ rest).take 8 = window b.hdr.mem 0 8 :=
    List.take_left' (length_window _ _ _)
  have htwo : (window b.hdr.mem 0 8).take 2 = window b.hdr.mem 0 2 := take_window _ _ (by decide)
  show 8 + (bigEndian (((window b.hdr.mem 0 8 ++ rest).take 8).take 2) + 2 ^ 16 - 8) % 2 ^ 16 = _
  rw [htake, htwo, dlen]

theorem ReadOk.incomplete (h : b.ReadOk) : framing.Incomplete b.half := by
  obtain ⟨-, h⟩ := h
  unfold half
  split at h
  · next hst =>
    rw [hst]
    refine .inl ?_
    rw [length_window]
    exact h.2
  · next hst =>
    rw [hst]
    refine .inr ?_
    rw [size_framing, List.length_append, length_window, length_window, ← h.1]
    exact Nat.add_lt_add_left h.2 8
  · cases h
  · next hne hne' _ =>
    split
    · next hst => exact absurd hst hne
    · next hst => exact absurd hst hne'
    · exact framing.incomplete_nil

/-- What a call of `readmsg` leaves in the buffer and on the line, where `all` is what was there of the
message and behind it, and `fails` is that the socket failed. -/
def ReadTo (b' : MsgBuf) (line' all : List UInt8) (fails : Bool) : MsgStat → Prop
  | .dataPartial => b'.ReadOk ∧ b'.half ++ line' = all
  | .dataComplete => b'.ReadOk ∧ b'.st = .complete ∧ framing.IsFrame b'.message ∧
      b'.message ++ line' = all
  | _ => fails = true

/-- What `readBody` does. -/
theorem readBody_cases (hoff : b.pay.off ≤ b.pay.len)
    (h : b.readBody line r = some (stat, b', line')) :
    (stat = .dataComplete ∧ b'.st = .complete ∧ b'.hdr = b.hdr ∧ (b.Room → b'.Room) ∧
      b'.pay.len = b.pay.len ∧
      window b'.pay.mem 0 b.pay.len ++ line' = window b.pay.mem 0 b.pay.off ++ line) ∨
    (stat = .dataPartial ∧ b'.st = .pPartial ∧ b'.hdr = b.hdr ∧ (b.Room → b'.Room) ∧
      b'.pay.len = b.pay.len ∧ b.pay.off ≤ b'.pay.off ∧ b'.pay.off < b.pay.len ∧
      window b'.pay.mem 0 b'.pay.off ++ line' = window b.pay.mem 0 b.pay.off ++ line) ∨
    (stat = .endOfFile ∨ stat = .error) ∧ r.fails = true := by
  unfold readBody at h
  split at h
  · next hleft =>
    cases h
    have hfull : b.pay.off = b.pay.len := by
      rw [Part.left] at hleft
      omega
    refine .inl ⟨rfl, rfl, rfl, id, rfl, ?_⟩
    rw [hfull]
    rfl
  next hleft =>
  split at h
  · cases h
  · next bs line₂ hr =>
    obtain ⟨hline, hpos, hle⟩ := readv_bytes hr
    have hstore := window_store b.pay bs
    rw [Part.left] at hle
    rw [hline]
    split at h <;> cases h
    · next hfull =>
      have hall : b.pay.off + bs.length = b.pay.len := by
        rw [hfull, Part.left]
        omega
      refine .inl ⟨rfl, rfl, rfl, id, rfl, ?_⟩
      rw [hall] at hstore
      show window (b.pay.store bs).mem 0 b.pay.len ++ _ = _
      rw [hstore, List.append_assoc]
    · next hpart =>
      rw [Part.left] at hpart
      refine .inr (.inl ⟨rfl, rfl, rfl, id, rfl, Nat.le_add_right _ _, ?_, ?_⟩)
      · show b.pay.off + bs.length < b.pay.len
        omega
      · show window (b.pay.store bs).mem 0 (b.pay.off + bs.length) ++ _ = _
        rw [hstore, List.append_assoc]
  · next hr =>
    cases h
    rw [← readv_again hr]
    refine .inr (.inl ⟨rfl, rfl, rfl, id, rfl, le_rfl, ?_, rfl⟩)
    rw [Part.left] at hleft
    show b.pay.off < b.pay.len
    omega
  · next hr =>
    cases h
    exact .inr (.inr ⟨.inl rfl, readv_fails hleft (.inl rfl) hr⟩)
  · next hr =>
    cases h
    exact .inr (.inr ⟨.inr rfl, readv_fails hleft (.inr rfl) hr⟩)

/-- The body of a message whose header has been read. -/
theorem readBody_spec (hroom : b.Room) (hlen : b.pay.len = b.dlen) (hoff : b.pay.off ≤ b.pay.len)
    (h : b.readBody line r = some (stat, b', line')) :
    b'.ReadTo line' (window b.hdr.mem 0 8 ++ window b.pay.mem 0 b.pay.off ++ line) r.fails stat := by
  obtain ⟨rfl, hst, hhdr, hroom', hlen', hall⟩ | ⟨rfl, hst, hhdr, hroom', hlen', -, hoff', hall⟩ |
    ⟨rfl | rfl, hf⟩ := readBody_cases hoff h
  · have hdlen : b'.dlen = b.dlen := by rw [dlen, dlen, hhdr]
    refine ⟨⟨hroom' hroom, by rw [hst]; trivial⟩, hst, ?_, ?_⟩
    · rw [Framing.IsFrame, message, size_framing, List.length_append, length_window, length_window,
        hlen', hlen, hdlen]
    · rw [message, hhdr, hlen', List.append_assoc, hall, List.append_assoc]
  · have hdlen : b'.dlen = b.dlen := by rw [dlen, dlen, hhdr]
    refine ⟨⟨hroom' hroom, ?_⟩, ?_⟩
    · rw [hst]
      exact ⟨by rw [hlen', hlen, hdlen], by rw [hlen']; exact hoff'⟩
    · rw [half, hst]
      show window b'.hdr.mem 0 8 ++ window b'.pay.mem 0 b'.pay.off ++ line' = _
      rw [hhdr, List.append_assoc, hall, List.append_assoc]
  · exact hf
  · exact hf

theorem ReadTo.mono {all : List UInt8} {fails fails' : Bool} (h : b'.ReadTo line' all fails stat)
    (hle : fails = true → fails' = true) : b'.ReadTo line' all fails' stat := by
  cases stat with
  | dataComplete => exact h
  | dataPartial => exact h
  | endOfFile => exact hle h
  | error => exact hle h

/-- The header is read from its offset on. -/
theorem readHdrBody_spec (hroom : b.Room) (hlen : b.hdr.len = 8) (hoff : b.hdr.off < 8)
    (h : b.readHdrBody line r₁ r₂ = some (stat, b', line')) :
    b'.ReadTo line' (window b.hdr.mem 0 b.hdr.off ++ line) (r₁.fails || r₂.fails) stat := by
  have hleft : b.hdr.left ≠ 0 := by
    rw [Part.left, hlen]
    omega
  unfold readHdrBody readHdr at h
  cases hr : readv b.hdr.left line r₁ with
  | none =>
    rw [hr] at h
    cases h
  | some res =>
    obtain ⟨res, line₂⟩ := res
    rw [hr] at h
    cases res with
    | bytes bs =>
      obtain ⟨hline, hpos, hle⟩ := readv_bytes hr
      have hstore := window_store b.hdr bs
      rw [Part.left, hlen] at hle
      simp only at h
      by_cases hfull : bs.length = b.hdr.left
      · rw [if_pos hfull] at h
        have hall : b.hdr.off + bs.length = 8 := by
          rw [hfull, Part.left, hlen]
          omega
        obtain ⟨d, hd, -, hdhdr, hdpay, hdroom⟩ :=
          plen_some (b := { b with hdr := (b.hdr.store bs).rewind }) _
            (hroom.grows (dlen_lt _) : Grows _ (dlen { b with hdr := (b.hdr.store bs).rewind }))
        rw [hd] at h
        have hspec := readBody_spec (b := { d with st := .header }) (hdroom hroom)
          (by
            show d.pay.len = (bigEndian (window d.hdr.mem 0 2) + 2 ^ 16 - 8) % 2 ^ 16
            rw [hdpay, hdhdr]
            rfl)
          (by
            show d.pay.off ≤ d.pay.len
            rw [hdpay]
            exact Nat.zero_le _) h
        have heq : window d.hdr.mem 0 8 ++ window d.pay.mem 0 d.pay.off ++ line₂ =
            window b.hdr.mem 0 b.hdr.off ++ line := by
          rw [hall] at hstore
          rw [hdhdr, hdpay, hline]
          show window (b.hdr.store bs).mem 0 8 ++ window _ 0 0 ++ line₂ = _
          rw [hstore]
          show window b.hdr.mem 0 b.hdr.off ++ bs ++ [] ++ line₂ = _
          rw [List.append_nil, List.append_assoc]
        rw [← heq]
        exact hspec.mono fun hf => by rw [hf, Bool.or_true]
      · rw [if_neg hfull] at h
        cases h
        rw [Part.left, hlen] at hfull
        refine ⟨⟨hroom, hlen, ?_⟩, ?_⟩
        · show b.hdr.off + bs.length < 8
          omega
        · show window (b.hdr.store bs).mem 0 (b.hdr.off + bs.length) ++ line' = _
          rw [hstore, hline, List.append_assoc]
    | again =>
      cases h
      rw [← readv_again hr]
      exact ⟨⟨hroom, hlen, hoff⟩, rfl⟩
    | eof =>
      cases h
      show (r₁.fails || r₂.fails) = true
      rw [readv_fails hleft (.inl rfl) hr, Bool.true_or]
    | error =>
      cases h
      show (r₁.fails || r₂.fails) = true
      rw [readv_fails hleft (.inr rfl) hr, Bool.true_or]

/-- `readmsg` goes on with the message that has been read in part, or begins the next one. -/
theorem readmsg_spec (hok : b.ReadOk) (h : b.readmsg line r₁ r₂ = some (stat, b', line')) :
    b'.ReadTo line' (b.half ++ line) (r₁.fails || r₂.fails) stat := by
  obtain ⟨hroom, hst⟩ := hok
  have hreset : b.st = .ready ∨ b.st = .error ∨ b.st = .complete → b.half = [] →
      b'.ReadTo line' (b.half ++ line) (r₁.fails || r₂.fails) stat := by
    intro hs hhalf
    simp only [readmsg, if_pos hs] at h
    rw [hhalf]
    exact readHdrBody_spec (b := b.reset) hroom rfl (Nat.zero_lt_succ 7) h
  cases hs : b.st <;> rw [hs] at hst <;> simp only at hst
  case hPartial =>
    have hnot : ¬(b.st = .ready ∨ b.st = .error ∨ b.st = .complete) := by simp [hs]
    simp only [readmsg, if_neg hnot, if_pos (Or.inr hs)] at h
    rw [half, hs]
    exact readHdrBody_spec hroom hst.1 hst.2 h
  case pPartial =>
    have hnot : ¬(b.st = .ready ∨ b.st = .error ∨ b.st = .complete) := by simp [hs]
    have hnot' : ¬(b.st = .ready ∨ b.st = .hPartial) := by simp [hs]
    simp only [readmsg, if_neg hnot, if_neg hnot'] at h
    rw [half, hs]
    exact (readBody_spec hroom hst.1 hst.2.le h).mono fun hf => by rw [hf, Bool.true_or]
  case ready => exact hreset (.inl hs) (by rw [half, hs])
  case complete => exact hreset (.inr (.inr hs)) (by rw [half, hs])
  case error => exact hreset (.inr (.inl hs)) (by rw [half, hs])

/-! ### Payloads with a length of their own -/

/-- What a call of `readPload` leaves. -/
def PloadTo (b' : MsgBuf) (line' all : List UInt8) (fails : Bool) : MsgStat → Prop
  | .dataPartial => b'.PloadOk ∧ b'.halfPload ++ line' = all
  | .dataComplete => b'.st = .complete ∧ nccpFraming.IsFrame b'.payload ∧ b'.payload ++ line' = all
  | _ => fails = true

/-- If `readPload` reads a part of the length, it reads all of it, and the payload fits. -/
def LengthWhole (b : MsgBuf) (line : List UInt8) : Transfer → Prop
  | .bytes n => b.st = .pPartial ∨ n = 4 ∧ b.Grows (4 + bigEndian (line.take 4))
  | _ => True

theorem size_nccpFraming (p : Part) (k : ℕ) (hk : 4 ≤ k) :
    nccpFraming.size (window p.mem 0 k) = 4 + bigEndian (window p.mem 0 4) := by
  show 4 + bigEndian ((window p.mem 0 k).take 4) = _
  rw [take_window p.mem 0 hk]

theorem PloadOk.incomplete (h : b.PloadOk) : nccpFraming.Incomplete b.halfPload := by
  unfold PloadOk at h
  unfold halfPload
  split at h
  · next hst =>
    rw [hst]
    refine .inl ?_
    rw [length_window, h.2]
    decide
  · next hst =>
    rw [hst]
    refine .inr ?_
    rw [size_nccpFraming b.pay _ h.2.1, length_window, ← h.1]
    exact h.2.2
  · cases h
  · next hne hne' _ =>
    split
    · next hst => exact absurd hst hne
    · next hst => exact absurd hst hne'
    · exact nccpFraming.incomplete_nil

/-- The body of a payload whose length has been read. -/
theorem readBody_pload (hlen : b.pay.len = 4 + bigEndian (window b.pay.mem 0 4))
    (hfour : 4 ≤ b.pay.off) (hoff : b.pay.off ≤ b.pay.len)
    (h : b.readBody line r = some (stat, b', line')) :
    b'.PloadTo line' (window b.pay.mem 0 b.pay.off ++ line) r.fails stat := by
  -- the length stays as it was read
  have hfirst : ∀ k, 4 ≤ k → window b'.pay.mem 0 k ++ line' = window b.pay.mem 0 b.pay.off ++ line →
      window b'.pay.mem 0 4 = window b.pay.mem 0 4 := by
    intro k hk hall
    have htake := congrArg (List.take 4) hall
    rwa [List.take_append_of_le_length (by rw [length_window]; exact hk),
      List.take_append_of_le_length (by rw [length_window]; exact hfour), take_window _ _ hk,
      take_window _ _ hfour] at htake
  obtain ⟨rfl, hst, -, -, hlen', hall⟩ | ⟨rfl, hst, -, -, hlen', hle, hoff', hall⟩ |
    ⟨rfl | rfl, hf⟩ := readBody_cases hoff h
  · have hk : 4 ≤ b.pay.len := hfour.trans hoff
    refine ⟨hst, ?_, ?_⟩
    · rw [payload, hlen', Framing.IsFrame, size_nccpFraming b'.pay _ hk, length_window, hlen,
        hfirst _ hk hall]
    · rw [payload, hlen', hall]
  · have hk : 4 ≤ b'.pay.off := hfour.trans hle
    refine ⟨?_, ?_⟩
    · rw [PloadOk, hst]
      exact ⟨by rw [hlen', hlen, hfirst _ hk hall], hk, by rw [hlen']; exact hoff'⟩
    · rw [halfPload, hst]
      exact hall
  · exact hf
  · exact hf

theorem PloadTo.mono {all : List UInt8} {fails fails' : Bool} (h : b'.PloadTo line' all fails stat)
    (hle : fails = true → fails' = true) : b'.PloadTo line' all fails' stat := by
  cases stat with
  | dataComplete => exact h
  | dataPartial => exact h
  | endOfFile => exact hle h
  | error => exact hle h

/-- The length is read from its beginning. -/
theorem readLength_spec (hlen : b.pay.len = 4) (hoff : b.pay.off = 0)
    (hwhole : ∀ n, r₁ = .bytes n → n = 4 ∧ b.Grows (4 + bigEndian (line.take 4)))
    (h : b.readLength line r₁ r₂ = some (stat, b', line')) :
    b'.PloadTo line' line (r₁.fails || r₂.fails) stat := by
  have hleft : b.pay.left ≠ 0 := by
    rw [Part.left, hlen, hoff]
    decide
  unfold readLength at h
  cases hr : readv b.pay.left line r₁ with
  | none =>
    rw [hr] at h
    cases h
  | some res =>
    obtain ⟨res, line₂⟩ := res
    rw [hr] at h
    cases res with
    | bytes bs =>
      obtain ⟨hline, hpos, hle⟩ := readv_bytes hr
      have hn : bs.length = 4 ∧ b.Grows (4 + bigEndian bs) := by
        cases r₁ with
        | bytes n =>
          obtain ⟨rfl, hgrow⟩ := hwhole n rfl
          simp only [readv] at hr
          split at hr
          · cases hr
          split at hr <;> cases hr
          next hg =>
          rw [List.length_take, Nat.min_eq_left hg.2.2]
          exact ⟨rfl, hgrow⟩
        | again =>
          simp only [readv] at hr
          split at hr <;> cases hr
        | eof =>
          simp only [readv] at hr
          split at hr <;> cases hr
        | error => cases hr
      have hfour : window (b.pay.store bs).mem 0 4 = bs := by
        have hstore := window_store b.pay bs
        rw [hoff, Nat.zero_add, hn.1] at hstore
        exact hstore
      have htotal : window (b.pay.store bs).rewind.mem 0 4 = bs := hfour
      obtain ⟨d, hd, -, -, hdpay, -⟩ :=
        plen_some (b := { b with pay := (b.pay.store bs).rewind }) (4 + bigEndian bs) hn.2
      simp only [if_pos hn.1, htotal, hd] at h
      have hmem : d.pay.mem = (b.pay.store bs).mem := by
        rw [hdpay]
        rfl
      have hspec := readBody_pload (b := { d with pay := d.pay.seek 4, st := .header })
        (by
          show d.pay.len = 4 + bigEndian (window d.pay.mem 0 4)
          rw [hmem, hfour, hdpay])
        le_rfl
        (by
          show 4 ≤ d.pay.len
          rw [hdpay]
          exact Nat.le_add_right _ _) h
      have heq : window d.pay.mem 0 4 ++ line₂ = line := by
        rw [hmem, hfour, hline]
      rw [← heq]
      exact hspec.mono fun hf => by rw [hf, Bool.or_true]
    | again =>
      cases h
      rw [← readv_again hr]
      refine ⟨⟨hlen, hoff⟩, ?_⟩
      show window b.pay.mem 0 b.pay.off ++ line' = line'
      rw [hoff]
      rfl
    | eof =>
      cases h
      show (r₁.fails || r₂.fails) = true
      rw [readv_fails hleft (.inl rfl) hr, Bool.true_or]
    | error =>
      cases h
      show (r₁.fails || r₂.fails) = true
      rw [readv_fails hleft (.inr rfl) hr, Bool.true_or]

/-- `readPload` goes on with the message that has been read in part, or begins the next one. -/
theorem readPload_spec (hok : b.PloadOk) (hwhole : b.LengthWhole line r₁)
    (h : b.readPload line r₁ r₂ = some (stat, b', line')) :
    b'.PloadTo line' (b.halfPload ++ line) (r₁.fails || r₂.fails) stat := by
  have hgrows : b.st ≠ .pPartial → ∀ n, r₁ = .bytes n →
      n = 4 ∧ b.Grows (4 + bigEndian (line.take 4)) := by
    rintro hne n rfl
    exact hwhole.resolve_left hne
  have hreset : b.st = .ready ∨ b.st = .error ∨ b.st = .complete → b.st ≠ .pPartial →
      b.halfPload = [] → b.msgPartial = false →
      b'.PloadTo line' (b.halfPload ++ line) (r₁.fails || r₂.fails) stat := by
    intro hs hne hhalf hpart
    have hstart : b.ploadStart =
        { b with pay := { b.pay with len := 4, off := 0 }, st := .ready } := by
      have hs' : b.preset.st = .ready ∨ b.preset.st = .error ∨ b.preset.st = .complete := hs
      simp only [ploadStart, hpart, Bool.false_eq_true, if_false, if_pos hs']
      rfl
    simp only [readPload, hstart, true_or, if_true] at h
    rw [hhalf]
    exact readLength_spec (b := { b with pay := { b.pay with len := 4, off := 0 }, st := .ready }) rfl rfl
      (hgrows hne) h
  have hkeep : b.msgPartial = true → b.ploadStart = b := by
    intro hpart
    have hnot : ¬(b.st = .ready ∨ b.st = .error ∨ b.st = .complete) := by
      intro hs
      rw [msgPartial] at hpart
      obtain hs | hs | hs := hs <;> rw [hs] at hpart <;> cases hpart
    simp only [ploadStart, hpart, if_true, if_neg hnot]
  unfold PloadOk at hok
  cases hs : b.st <;> rw [hs] at hok <;> simp only at hok
  case hPartial =>
    have hpart : b.msgPartial = true := by rw [msgPartial, hs]; rfl
    have hhalf : b.halfPload = [] := by
      rw [halfPload, hs]
      show window b.pay.mem 0 b.pay.off = []
      rw [hok.2]
      rfl
    simp only [readPload, hkeep hpart, if_pos (Or.inr hs)] at h
    rw [hhalf]
    exact readLength_spec hok.1 hok.2 (hgrows (by rw [hs]; decide)) h
  case pPartial =>
    have hpart : b.msgPartial = true := by rw [msgPartial, hs]; rfl
    have hnot : ¬(b.st = .ready ∨ b.st = .hPartial) := by simp [hs]
    simp only [readPload, hkeep hpart, if_neg hnot] at h
    rw [halfPload, hs]
    exact (readBody_pload hok.1 hok.2.1 hok.2.2.le h).mono fun hf => by rw [hf, Bool.true_or]
  case ready =>
    exact hreset (.inl hs) (by rw [hs]; decide) (by rw [halfPload, hs]) (by rw [msgPartial, hs]; rfl)
  case complete =>
    exact hreset (.inr (.inr hs)) (by rw [hs]; decide) (by rw [halfPload, hs])
      (by rw [msgPartial, hs]; rfl)
  case error =>
    exact hreset (.inr (.inl hs)) (by rw [hs]; decide) (by rw [halfPload, hs])
      (by rw [msgPartial, hs]; rfl)

/-! ### What has been written -/

/-- The header is in front of the payload. -/
def InOrder (b : MsgBuf) : Prop := b.hdr.off ≤ b.hdr.len ∧ (b.hdr.off = b.hdr.len ∨ b.pay.off = 0)

theorem length_data (p : Part) : p.data.length = p.left := length_window _ _ _

theorem length_unsent (b : MsgBuf) : b.unsent.length = b.hdr.left + b.pay.left := by
  rw [unsent, List.length_append, length_data, length_data]

theorem data_seek (p : Part) (n : ℕ) : (p.seek (p.off + n)).data = p.data.drop n := by
  show window p.mem (p.off + n) (p.len - (p.off + n)) = (window p.mem p.off (p.len - p.off)).drop n
  rw [drop_window, Nat.sub_sub]

theorem data_seek_min (p : Part) (n : ℕ) :
    (p.seek (min (p.off + n) p.len)).data = p.data.drop n := by
  by_cases hn : p.off + n ≤ p.len
  · rw [Nat.min_eq_left hn, data_seek]
  · rw [Nat.min_eq_right (by omega), List.drop_eq_nil_of_le (by rw [length_data, Part.left]; omega)]
    show window p.mem p.len (p.len - p.len) = []
    rw [Nat.sub_self]
    rfl

/-- What is left behind the bytes that a socket has taken. -/
theorem unsent_seek (h : b.InOrder) (n : ℕ) : (b.seek (b.offset + n)).unsent = b.unsent.drop n := by
  obtain ⟨hle, hord⟩ := h
  have hmin : min (b.offset + n) b.hdr.len = min (b.hdr.off + n) b.hdr.len := by
    rw [offset]
    omega
  have hoff : b.offset + n - b.hdr.len = b.pay.off + (n - b.hdr.left) := by
    rw [offset, Part.left]
    omega
  show (b.hdr.seek (min (b.offset + n) b.hdr.len)).data ++
    (b.pay.seek (b.offset + n - b.hdr.len)).data = (b.hdr.data ++ b.pay.data).drop n
  rw [hmin, hoff, data_seek_min, data_seek, List.drop_append, length_data]

theorem InOrder.seek (n : ℕ) : (b.seek n).InOrder := by
  refine ⟨Nat.min_le_right _ _, ?_⟩
  by_cases hn : n ≤ b.hdr.len
  · exact .inr (Nat.sub_eq_zero_of_le hn)
  · exact .inl (Nat.min_eq_right (by omega))

theorem writemsg_written {r : Transfer} (h : (b.writemsg r).1 = .dataComplete) :
    (b.writemsg r).2.1 = b.written := by
  cases r with
  | bytes n =>
    simp only [writemsg] at h ⊢
    split at h
    · next hn => rw [if_pos hn]
    · cases h
  | again => cases h
  | eof => cases h
  | error => cases h

theorem length_written (b : MsgBuf) : b.written.unsent.length = b.hdr.len + b.pay.len :=
  length_unsent _

theorem Fresh.inOrder (h : b.Fresh) : b.InOrder :=
  ⟨by rw [h.2.1]; exact Nat.zero_le _, .inr h.2.2⟩

theorem inOrder_written (b : MsgBuf) : b.written.InOrder := ⟨Nat.zero_le _, .inr rfl⟩

theorem Fresh.unsent_ne_nil (h : b.Fresh) : b.unsent ≠ [] := by
  intro hnil
  have hlen := length_unsent b
  rw [hnil, Part.left, h.1, h.2.1, List.length_nil] at hlen
  omega

end MsgBuf

end OnlDaemons.Proxy

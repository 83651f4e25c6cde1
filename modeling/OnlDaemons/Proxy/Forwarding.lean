import OnlDaemons.Proxy.SessionRx
import OnlDaemons.Proxy.SessionTx

/-!
# Messages that the proxy forwards

A message of a forwarded connection begins with its length, a number of 32 bits. It becomes the payload of a message to
the client, whose header has 16 bits for the length of both. A message is refused only when its length comes in parts,
or when there is no buffer left for it.

## Main definitions

- `StreamConn`, `StreamConn.step` — the connection, with the message its handler has sent last
- `StreamConn.Kept` — what is sent has the payload that was received, and says so
- `StreamConn.Short` — the length of the message and of the header is a number of 16 bits

## Main result

- `StreamConn.kept_iff_short` — over runs
-/

namespace OnlDaemons.Proxy
open OnlDaemons.Lib

namespace MsgBuf

/-! ### The header -/

def setCmd (b : MsgBuf) (cmd : ℕ) : MsgBuf := { b with hdr := b.hdr.set 2 (bytesOf 2 cmd) }

def setMsgID (b : MsgBuf) (mid : ℕ) : MsgBuf := { b with hdr := b.hdr.set 4 (bytesOf 2 mid) }

/-- `hdr_t::dlen(x)`. Both `x` and its sum with the length of the header are numbers of 16 bits. -/
def setDlen (b : MsgBuf) (x : ℕ) : MsgBuf := { b with hdr := b.hdr.set 0 (bytesOf 2 (x % 2 ^ 16 + 8)) }

/-- `hdr_t::reset`. -/
def resetHdr (b : MsgBuf) : MsgBuf := (((b.setDlen 0).setCmd 0).setConID 0).setMsgID 0

/-- The message that `StreamConn::handler` makes of one it has read whole. -/
def forward (b : MsgBuf) (cid : ℕ) : MsgBuf :=
  (((b.resetHdr.setCmd SessionTx.fwdData).setMsgID 0).setConID cid).setDlen b.pay.left

/-- The header says how long the message is, and what follows it is `m`. -/
def Keeps (f : MsgBuf) (m : List UInt8) : Prop :=
  framing.IsFrame f.message ∧ f.message.drop 8 = m ∧ bigEndian (f.message.take 2) = f.message.length

variable {b b' : MsgBuf} {line line' : List UInt8} {r r₁ r₂ : Transfer} {stat : MsgStat}

theorem length_message (b : MsgBuf) : b.message.length = 8 + b.pay.len := by
  rw [message, List.length_append, length_window, length_window]

theorem length_forward (b : MsgBuf) (cid : ℕ) :
    bigEndian ((b.forward cid).message.take 2) = (b.pay.left % 2 ^ 16 + 8) % 2 ^ 16 := by
  have htwo : (b.forward cid).message.take 2 = window (b.forward cid).hdr.mem 0 2 := by
    rw [message, List.take_append_of_le_length (by rw [length_window]; decide), take_window _ _ (by decide)]
  have hset : window (b.forward cid).hdr.mem 0 2 = bytesOf 2 (b.pay.left % 2 ^ 16 + 8) :=
    holds_overwrite _ 0 (bytesOf 2 (b.pay.left % 2 ^ 16 + 8))
  rw [htwo, hset, bigEndian_bytesOf]
  rfl

/-- The length field is the length of the message only if that has 16 bits, and then the payload can be found. -/
theorem keeps_forward_iff (hoff : b.pay.off = 0) (cid : ℕ) :
    (b.forward cid).Keeps b.payload ↔ b.payload.length + 8 < 2 ^ 16 := by
  have hleft : b.pay.left = b.pay.len := by rw [Part.left, hoff, Nat.sub_zero]
  have hfield := length_forward b cid
  have hlen : (b.forward cid).message.length = 8 + b.pay.len := length_message _
  have hpayload : b.payload.length = b.pay.len := length_window _ _ _
  rw [hleft] at hfield
  rw [hpayload]
  constructor
  · rintro ⟨-, -, h⟩
    rw [hfield, hlen] at h
    omega
  · intro hshort
    have htotal : bigEndian ((b.forward cid).message.take 2) = (b.forward cid).message.length := by
      rw [hfield, hlen]
      omega
    refine ⟨?_, List.drop_left' (length_window _ _ _), htotal⟩
    have htake : ((b.forward cid).message.take 8).take 2 = (b.forward cid).message.take 2 := by
      rw [List.take_take]
      rfl
    show _ = 8 + (bigEndian (((b.forward cid).message.take 8).take 2) + 2 ^ 16 - 8) % 2 ^ 16
    rw [htake, htotal, hlen]
    omega

/-! ### Messages whose length comes in parts -/

/-- How far `readPload` has come, however its length was read. -/
def LengthOk (b : MsgBuf) : Prop :=
  match b.st with
  | .hPartial => b.pay.len = 4 ∧ b.pay.off ≤ 4
  | .pPartial => b.pay.len = 4 + bigEndian (window b.pay.mem 0 4) ∧ 4 ≤ b.pay.off ∧ b.pay.off < b.pay.len
  | .header => False
  | _ => True

theorem PloadOk.lengthOk (h : b.PloadOk) : b.LengthOk := by
  simp only [PloadOk, LengthOk] at h ⊢
  cases hs : b.st with
  | hPartial =>
    simp only [hs] at h ⊢
    exact ⟨h.1, by omega⟩
  | pPartial =>
    simp only [hs] at h ⊢
    exact h
  | header => simp only [hs] at h
  | ready => trivial
  | complete => trivial
  | error => trivial

theorem grows_of_plen {total : ℕ} (h : b.plen total = some b') : b.Grows total := by
  unfold plen at h
  split at h
  · next hsize => exact .inl hsize
  · split at h
    · cases h
    · next hcnt => exact .inr hcnt

theorem readv_bytes_length {asked : ℕ} {bs : List UInt8} (h : readv asked line r = some (.bytes bs, line')) :
    r = .bytes bs.length := by
  cases r with
  | bytes n =>
    simp only [readv] at h
    split at h
    · cases h
    split at h <;> cases h
    next hn => rw [List.length_take, Nat.min_eq_left hn.2.2]
  | again =>
    simp only [readv] at h
    split at h <;> cases h
  | eof =>
    simp only [readv] at h
    split at h <;> cases h
  | error => cases h

/-- A payload is complete only if its length was read at once. -/
theorem readLength_parts (hlen : b.pay.len = 4) (hoff : b.pay.off ≤ 4)
    (h : b.readLength line r₁ r₂ = some (stat, b', line')) :
    (stat = .dataPartial → b'.LengthOk) ∧
      (stat = .dataComplete → b.pay.off = 0 ∧ r₁ = .bytes 4 ∧ b.Grows (4 + bigEndian (line.take 4))) := by
  have hcase := h
  unfold readLength at h
  split at h
  · cases h
  · next bs line₂ hr =>
    obtain ⟨hline, hpos, hle⟩ := readv_bytes hr
    have hbytes := readv_bytes_length hr
    rw [Part.left, hlen] at hle
    split at h
    · next hfour =>
      have hzero : b.pay.off = 0 := by omega
      have htake : line.take 4 = bs := by rw [hline, List.take_left' hfour]
      have hmem : window (b.pay.store bs).rewind.mem 0 4 = bs := by
        have hstore := window_store b.pay bs
        rw [hzero, Nat.zero_add, hfour] at hstore
        exact hstore
      rw [hfour] at hbytes
      simp only [hmem] at h
      rw [htake]
      split at h
      · next d hd =>
        have hgrows : b.Grows (4 + bigEndian bs) :=
          grows_of_plen (b := { b with pay := (b.pay.store bs).rewind }) hd
        have hspec := readLength_spec hlen hzero
          (fun n hn => ⟨Transfer.bytes.inj (hn.symm.trans hbytes), htake ▸ hgrows⟩) hcase
        refine ⟨?_, fun _ => ⟨hzero, hbytes, hgrows⟩⟩
        rintro rfl
        exact PloadOk.lengthOk hspec.1
      · cases h
        exact ⟨(by intros; contradiction), (by intros; contradiction)⟩
    · cases h
      refine ⟨fun _ => ⟨hlen, ?_⟩, (by intros; contradiction)⟩
      show b.pay.off + bs.length ≤ 4
      omega
  · cases h
    exact ⟨fun _ => ⟨hlen, hoff⟩, (by intros; contradiction)⟩
  · cases h
    exact ⟨(by intros; contradiction), (by intros; contradiction)⟩
  · cases h
    exact ⟨(by intros; contradiction), (by intros; contradiction)⟩

/-- What `readPload` leaves; where it completes a payload, it has read it as `readPload_spec` says. -/
theorem readPload_parts (hok : b.LengthOk) (h : b.readPload line r₁ r₂ = some (stat, b', line')) :
    (stat = .dataPartial → b'.LengthOk) ∧ (stat = .dataComplete → b.PloadOk ∧ b.LengthWhole line r₁) := by
  have hreset : b.st = .ready ∨ b.st = .error ∨ b.st = .complete → b.PloadOk → b.msgPartial = false →
      (stat = .dataPartial → b'.LengthOk) ∧ (stat = .dataComplete → b.PloadOk ∧ b.LengthWhole line r₁) := by
    intro hs hpload hpart
    have hstart : b.ploadStart = { b with pay := { b.pay with len := 4, off := 0 }, st := .ready } := by
      have hs' : b.preset.st = .ready ∨ b.preset.st = .error ∨ b.preset.st = .complete := hs
      simp only [ploadStart, hpart, Bool.false_eq_true, if_false, if_pos hs']
      rfl
    simp only [readPload, hstart, true_or, if_true] at h
    obtain ⟨hfirst, hcomplete⟩ := readLength_parts
      (b := { b with pay := { b.pay with len := 4, off := 0 }, st := .ready }) rfl (Nat.zero_le 4) h
    refine ⟨hfirst, fun hstat => ⟨hpload, ?_⟩⟩
    obtain ⟨-, rfl, hgrows⟩ := hcomplete hstat
    exact .inr ⟨rfl, hgrows⟩
  have hkeep : b.msgPartial = true → b.ploadStart = b := by
    intro hpart
    have hnot : ¬(b.st = .ready ∨ b.st = .error ∨ b.st = .complete) := by
      intro hs
      rw [msgPartial] at hpart
      obtain hs | hs | hs := hs <;> rw [hs] at hpart <;> cases hpart
    simp only [ploadStart, hpart, if_true, if_neg hnot]
  have hcase := hok
  unfold LengthOk at hok
  cases hs : b.st <;> rw [hs] at hok <;> simp only at hok
  case hPartial =>
    have hpart : b.msgPartial = true := by rw [msgPartial, hs]; rfl
    simp only [readPload, hkeep hpart, if_pos (Or.inr hs)] at h
    obtain ⟨hfirst, hcomplete⟩ := readLength_parts hok.1 hok.2 h
    refine ⟨hfirst, fun hstat => ?_⟩
    obtain ⟨hzero, rfl, hgrows⟩ := hcomplete hstat
    refine ⟨?_, .inr ⟨rfl, hgrows⟩⟩
    rw [PloadOk, hs]
    exact ⟨hok.1, hzero⟩
  case pPartial =>
    have hpload : b.PloadOk := by
      rw [PloadOk, hs]
      exact hok
    have hwhole : b.LengthWhole line r₁ := by
      cases r₁ with
      | bytes n => exact .inl hs
      | again | eof | error => trivial
    refine ⟨?_, fun _ => ⟨hpload, hwhole⟩⟩
    rintro rfl
    exact PloadOk.lengthOk (readPload_spec hpload hwhole h).1
  case ready =>
    exact hreset (.inl hs) (by rw [PloadOk, hs]; trivial) (by rw [msgPartial, hs]; rfl)
  case complete =>
    exact hreset (.inr (.inr hs)) (by rw [PloadOk, hs]; trivial) (by rw [msgPartial, hs]; rfl)
  case error =>
    exact hreset (.inr (.inl hs)) (by rw [PloadOk, hs]; trivial) (by rw [msgPartial, hs]; rfl)

theorem readBody_rewound (h : b.readBody line r = some (.dataComplete, b', line')) : b'.pay.off = 0 := by
  unfold readBody at h
  split at h
  · cases h
    rfl
  · split at h
    · cases h
    · split at h <;> cases h
      rfl
    · cases h
    · cases h
    · cases h

theorem readPload_rewound (h : b.readPload line r₁ r₂ = some (.dataComplete, b', line')) : b'.pay.off = 0 := by
  simp only [readPload] at h
  split at h
  · simp only [readLength] at h
    split at h
    · cases h
    · split at h
      · split at h
        · exact readBody_rewound h
        · cases h
      · cases h
    · cases h
    · cases h
    · cases h
  · exact readBody_rewound h

end MsgBuf

/-! ### The connection -/

/-- `sent` is the message that the last step gave to `doSend` of the session. -/
structure StreamConn where
  cid : ℕ
  buf : MsgBuf := {}
  line : List UInt8 := []
  lost : Bool := false
  sent : Option MsgBuf := none

/-- Bytes that come, and a call of the handler with what its reads come back with. -/
inductive StreamAct
  | arrive (bs : List UInt8)
  | handler (r₁ r₂ : Transfer)

namespace StreamConn

/-- `StreamConn::handler`, as far as it sends. -/
def handler (c : StreamConn) (r₁ r₂ : Transfer) : Option StreamConn :=
  match c.buf.readPload c.line r₁ r₂ with
  | none => none
  | some (.dataPartial, b, line) => some { c with buf := b, line, sent := none }
  | some (.dataComplete, b, line) =>
    some { c with buf := (b.forward c.cid).written, line, sent := some (b.forward c.cid) }
  | some (.endOfFile, _, _) | some (.error, _, _) => some { c with lost := true, sent := none }

def exec (c : StreamConn) : StreamAct → Option StreamConn
  | .arrive bs => some { c with line := c.line ++ bs, sent := none }
  | .handler r₁ r₂ => if c.lost then none else c.handler r₁ r₂

def step (c : StreamConn) (a : StreamAct) (d : StreamConn) : Prop := c.exec a = some d

/-- What is there of the message that is being received, and what follows it. -/
def incoming (c : StreamConn) : List UInt8 := c.buf.halfPload ++ c.line

/-- The length of the message that is being received, with its length field. -/
def size (c : StreamConn) : ℕ := MsgBuf.nccpFraming.size c.incoming

/-- A message that is sent has the payload that was received. -/
def Kept (c : StreamConn) (_ : StreamAct) (d : StreamConn) : Prop := ∀ f ∈ d.sent, f.Keeps (c.incoming.take c.size)

/-- A message that is sent is short enough for the header. -/
def Short (c : StreamConn) (_ : StreamAct) (d : StreamConn) : Prop := d.sent.isSome → c.size + 8 < 2 ^ 16

variable {c d : StreamConn} {a : StreamAct} {r₁ r₂ : Transfer}

theorem lengthOk_handler (hok : c.buf.LengthOk) (h : c.handler r₁ r₂ = some d) : d.buf.LengthOk := by
  unfold handler at h
  split at h
  · cases h
  · next hr =>
    cases h
    exact (MsgBuf.readPload_parts hok hr).1 rfl
  · cases h
    trivial
  · cases h
    exact hok
  · cases h
    exact hok

theorem lengthOk_step (hok : c.buf.LengthOk) (h : step c a d) : d.buf.LengthOk := by
  unfold step at h
  cases a with
  | arrive bs =>
    cases h
    exact hok
  | handler r₁ r₂ =>
    simp only [exec] at h
    split at h
    · cases h
    · exact lengthOk_handler hok h

/-- What is sent was received whole. -/
theorem sent_cases (hok : c.buf.LengthOk) (h : step c a d) :
    d.sent = none ∨ ∃ b : MsgBuf, d.sent = some (b.forward c.cid) ∧ b.pay.off = 0 ∧
      b.payload = c.incoming.take c.size ∧ b.payload.length = c.size := by
  unfold step at h
  cases a with
  | arrive bs =>
    cases h
    exact .inl rfl
  | handler r₁ r₂ =>
    simp only [exec] at h
    split at h
    · cases h
    unfold handler at h
    split at h
    · cases h
    · cases h
      exact .inl rfl
    · next b line hr =>
      cases h
      obtain ⟨hpload, hwhole⟩ := (MsgBuf.readPload_parts hok hr).2 rfl
      obtain ⟨-, hframe, hall⟩ := MsgBuf.readPload_spec hpload hwhole hr
      have hsize : c.size = b.payload.length := by
        rw [size, incoming, ← hall, MsgBuf.nccpFraming.size_append hframe.headLen_le, ← hframe]
      refine .inr ⟨b, rfl, MsgBuf.readPload_rewound hr, ?_, hsize.symm⟩
      rw [hsize, incoming, ← hall, List.take_left']
      rfl
    · cases h
      exact .inl rfl
    · cases h
      exact .inl rfl

theorem kept_iff_step (hok : c.buf.LengthOk) (h : step c a d) : Kept c a d ↔ Short c a d := by
  obtain hnone | ⟨b, hb, hoff, hpayload, hlen⟩ := sent_cases hok h
  · rw [Kept, Short, hnone]
    exact ⟨fun _ => nofun, fun _ => nofun⟩
  · have hiff := MsgBuf.keeps_forward_iff hoff c.cid
    rw [hpayload] at hiff
    rw [hpayload] at hlen
    rw [hlen] at hiff
    rw [Kept, Short, hb]
    exact ⟨fun hk _ => hiff.mp (hk _ rfl), fun hs f hf => Option.some.inj hf ▸ hiff.mpr (hs rfl)⟩

/-- In a run, all messages that are forwarded keep their payload if and only if they all have less than `2 ^ 16 - 8`
bytes, with their length field. -/
theorem kept_iff_short (cid : ℕ) {tr : List (StreamAct × StreamConn)} (hr : IsRun step { cid } tr) :
    EveryStep Kept { cid } tr ↔ EveryStep Short { cid } tr :=
  hr.everyStep_congr (P := fun c => c.buf.LengthOk) (fun _ _ _ hok h => lengthOk_step hok h)
    (fun _ _ _ hok h => kept_iff_step hok h) trivial

/-- A message that comes at once, in a new buffer, is sent. -/
theorem sends_whole (cid : ℕ) {m : List UInt8} (hm : MsgBuf.nccpFraming.IsFrame m) (hne : m.length ≠ 4) :
    ∃ d, ({ cid, line := m } : StreamConn).exec (.handler (.bytes 4) (.bytes (m.length - 4))) = some d ∧
      d.sent.isSome = true := by
  have hlen : m.length = 4 + bigEndian (m.take 4) := hm
  have htake : (m.take 4).length = 4 := by
    rw [List.length_take]
    omega
  have hmem (mem : ℕ → UInt8) : window (overwrite mem 0 (m.take 4)) 0 4 = m.take 4 := by
    have h := holds_overwrite mem 0 (m.take 4)
    rwa [Holds, htake] at h
  have hone : readv 4 m (.bytes 4) = some (.bytes (m.take 4), m.drop 4) := by
    rw [readv, if_neg (by decide), if_pos ⟨by decide, le_rfl, by omega⟩]
  have htwo : readv (m.length - 4) (m.drop 4) (.bytes (m.length - 4)) = some (.bytes (m.drop 4), []) := by
    have hdrop : (m.drop 4).length = m.length - 4 := List.length_drop
    rw [readv, if_neg (by omega), if_pos ⟨by omega, le_rfl, hdrop.ge⟩, ← hdrop, List.take_length, List.drop_length]
  have hgrows : ({ pay := { len := 4, mem := overwrite (fun _ => 0) 0 (m.take 4) } } : MsgBuf).Grows m.length :=
    .inr (show 2 ≠ 8 by decide)
  obtain ⟨b, hb, -, -, hpay, -⟩ := MsgBuf.plen_some m.length hgrows
  have hleft : (b.pay.seek 4).left = m.length - 4 := by
    rw [hpay]
    rfl
  have hbody : ({ b with pay := b.pay.seek 4, st := .header } : MsgBuf).readBody (m.drop 4) (.bytes (m.length - 4)) =
      some (.dataComplete, { b with pay := ((b.pay.seek 4).store (m.drop 4)).rewind, st := .complete }, []) := by
    simp only [MsgBuf.readBody, hleft, htwo, if_neg (show m.length - 4 ≠ 0 by omega), List.length_drop, if_true]
  have hread : ({} : MsgBuf).readPload m (.bytes 4) (.bytes (m.length - 4)) =
      some (.dataComplete, { b with pay := ((b.pay.seek 4).store (m.drop 4)).rewind, st := .complete }, []) := by
    have hstart : ({} : MsgBuf).ploadStart = { pay := { len := 4 } } := rfl
    have hstore : (({ len := 4 } : Part).store (m.take 4)).rewind =
        { len := 4, mem := overwrite (fun _ => 0) 0 (m.take 4) } := rfl
    simp only [MsgBuf.readPload, hstart, true_or, if_true, MsgBuf.readLength, Part.left, Nat.sub_zero, hone, htake,
      hstore, hmem, ← hlen, hb]
    exact hbody
  simp only [exec, Bool.false_eq_true, if_false, handler, hread]
  exact ⟨_, rfl, rfl⟩

/-- A message of 65532 bytes with its length before them: the header says that there is no payload. -/
theorem longMessage_not_kept :
    ¬∀ tr, IsRun step { cid := 5 } tr → EveryStep Kept { cid := 5 } tr := by
  intro h
  let m := bytesOf 4 65532 ++ List.replicate 65532 (0 : UInt8)
  have hlen : m.length = 65536 := by
    rw [List.length_append, length_bytesOf, List.length_replicate]
  have hm : MsgBuf.nccpFraming.IsFrame m := by
    show m.length = 4 + bigEndian (m.take 4)
    rw [hlen, List.take_left' (length_bytesOf 4 65532), bigEndian_bytesOf]
    rfl
  obtain ⟨d, hd, hsent⟩ := sends_whole 5 hm (by rw [hlen]; decide)
  have hrun : IsRun step { cid := 5 }
      [(.arrive m, { cid := 5, line := m }), (.handler (.bytes 4) (.bytes (m.length - 4)), d)] := ⟨rfl, hd, trivial⟩
  have hshort := (kept_iff_step (c := { cid := 5, line := m }) trivial hd).mp (h _ hrun).2.1 hsent
  have hsize : size { cid := 5, line := m } = 65536 := (hm.symm.trans hlen)
  rw [hsize] at hshort
  exact absurd hshort (by decide)

/-- A message of two bytes. -/
theorem shortMessage_kept :
    EveryStep Kept { cid := 5 }
      (runOf exec { cid := 5 }
        [.arrive [0, 0, 0, 2, 7, 8], .handler (.bytes 4) (.bytes 1), .handler (.bytes 1) .again]) := by
  apply (kept_iff_short 5 (isRun_runOf _ _ _)).mpr
  refine ⟨nofun, nofun, fun _ => ?_, trivial⟩
  decide

end StreamConn

end OnlDaemons.Proxy

import OnlDaemons.Lib.Run
import OnlDaemons.Proxy.MsgBuf
import Mathlib.Logic.Function.Basic

/-!
# What a session receives

The thread of a session reads the connection of its client, whose messages are commands, and the
connections it has opened for it, whose messages it forwards. It tells the client of a connection that
is lost, and of an observer that leaves, with a message that is made in the buffer of its own connection.

## Main definitions

- `SessionRx`, `SessionRx.step` — the connections with their buffers
- `SessionRx.Delivers` — every connection gives its messages to the handler
- `SessionRx.Orderly` — the steps after which it does

## Main result

- `SessionRx.delivers_of_orderly` — over runs
-/

namespace OnlDaemons.Proxy
open OnlDaemons.Lib

namespace MsgBuf

/-- `sendBack`: a message with 4 bytes of flags is made in the buffer. -/
def sendBack (b : MsgBuf) (cmd flags : ℕ) : Option MsgBuf :=
  (b.plen 4).map fun b =>
    { b with
      hdr := (b.hdr.set 2 (bytesOf 2 cmd)).set 0 (bytesOf 2 12)
      pay := b.pay.set 0 (bytesOf 4 flags) }

def setConID (b : MsgBuf) (conID : ℕ) : MsgBuf := { b with hdr := b.hdr.set 6 (bytesOf 2 conID) }

end MsgBuf

/-- A connection: the messages that its peer has sent, those that were given to the handler, the bytes
that were not read yet and the buffer. `cut` says that the peer or the socket has failed, and `lost` that
the connection was given up. -/
structure RxConn where
  sent : List (List UInt8) := []
  delivered : List (List UInt8) := []
  line : List UInt8 := []
  buf : MsgBuf := {}
  cut : Bool := false
  lost : Bool := false

/-- `client` is the connection of the session itself, and `conns` has the others by their socket. -/
structure SessionRx where
  client : RxConn := {}
  conns : ℕ → Option RxConn := fun _ => none

/-- `arrive` is a message from a peer, of the client if `cid` is none. `sent` says that what is sent to the
client is taken. `reply` is the command and the flags of an answer. -/
inductive RxAct
  | arrive (cid : Option ℕ) (msg : List UInt8)
  | addConn (cid : ℕ)
  | client (r₁ r₂ : Transfer) (reply : Option (ℕ × ℕ)) (sent : Bool)
  | conn (cid : ℕ) (r₁ r₂ : Transfer) (sent : Bool)
  | removeSlave (cid : ℕ) (sent : Bool)
  | closeConn (cid : ℕ)
  | control (sent : Bool)

namespace RxConn

def put (c : RxConn) (msg : List UInt8) : RxConn :=
  { c with sent := c.sent ++ [msg], line := c.line ++ msg }

/-- The connection is given up. -/
def close (c : RxConn) : RxConn := { c with lost := true }

def fail (c : RxConn) : RxConn := { c with cut := true, lost := true }

end RxConn

namespace SessionRx

def setConn (s : SessionRx) (cid : ℕ) (c : Option RxConn) : SessionRx :=
  { s with conns := Function.update s.conns cid c }

/-- The session is closed when the client does not take what is sent. -/
def taken (s : SessionRx) (sent : Bool) : SessionRx :=
  if sent then s else { s with client := s.client.fail }

/-- A status message to the client. -/
def sendStatus (s : SessionRx) (cmd flags conID : ℕ) (sent : Bool) : SessionRx :=
  match s.client.buf.sendBack cmd flags with
  | none => { s with client := s.client.close }
  | some b =>
    if sent then { s with client := { s.client with buf := (b.setConID conID).written } }
    else { s with client := s.client.fail }

/-- `wucmd::closeConn`. -/
def closeConnCmd : ℕ := 3

/-- `connLost` for a connection that is not that of the session: it is removed, and the client is told of
an error. -/
def connLost (s : SessionRx) (cid : ℕ) (sent : Bool) : SessionRx :=
  s.sendStatus closeConnCmd (0x40 + 0x8000) cid sent

/-- `Session::handler`. -/
def handler (s : SessionRx) (r₁ r₂ : Transfer) (reply : Option (ℕ × ℕ)) (sent : Bool) :
    Option SessionRx :=
  match s.client.buf.readmsg s.client.line r₁ r₂ with
  | none => none
  | some (.dataPartial, b, line) => some { s with client := { s.client with buf := b, line := line } }
  | some (.dataComplete, b, line) =>
    let s := { s with client := { s.client with
      buf := b, line := line, delivered := s.client.delivered ++ [b.message] } }
    match reply with
    | none => some s
    | some (cmd, flags) => some (s.sendStatus cmd flags 0 sent)
  | some (.endOfFile, _, _) | some (.error, _, _) =>
    some { s with client := { s.client with cut := s.client.cut || r₁.fails || r₂.fails, lost := true } }

/-- `StreamConn::handler`. A message is forwarded to the client from the buffer it was read into. -/
def connHandler (s : SessionRx) (cid : ℕ) (c : RxConn) (r₁ r₂ : Transfer) (sent : Bool) :
    Option SessionRx :=
  match c.buf.readPload c.line r₁ r₂ with
  | none => none
  | some (.dataPartial, b, line) => some (s.setConn cid (some { c with buf := b, line := line }))
  | some (.dataComplete, b, line) =>
    some ((s.setConn cid (some { c with
      buf := (b.hdrReset.setConID cid).written
      line := line
      delivered := c.delivered ++ [b.payload] })).taken sent)
  | some (.endOfFile, _, _) | some (.error, _, _) =>
    let c := { c with cut := c.cut || r₁.fails || r₂.fails, lost := true }
    some ((s.setConn cid (some c)).connLost cid sent)

def step (s : SessionRx) : RxAct → Option SessionRx
  | .arrive none msg =>
    if MsgBuf.framing.IsFrame msg ∧ bigEndian (msg.take 2) = msg.length then
      some { s with client := s.client.put msg }
    else none
  | .arrive (some cid) msg =>
    match s.conns cid with
    | none => none
    | some c => if MsgBuf.nccpFraming.IsFrame msg then some (s.setConn cid (some (c.put msg))) else none
  | .addConn cid =>
    match s.conns cid with
    | none => some (s.setConn cid (some {}))
    | some _ => none
  | .client r₁ r₂ reply sent => if s.client.lost then none else s.handler r₁ r₂ reply sent
  | .conn cid r₁ r₂ sent =>
    match s.conns cid with
    | none => none
    | some c => if s.client.lost || c.lost then none else s.connHandler cid c r₁ r₂ sent
  | .removeSlave cid sent =>
    if s.client.lost then none else some (s.sendStatus closeConnCmd 0 cid sent)
  | .closeConn cid => some (s.setConn cid none)
  -- the message is made in `ctlBuf_`
  | .control sent => if s.client.lost then none else some (s.taken sent)

/-- The handler gets the messages of the connection, one after the other, and the part of the next one
that was read is kept; and the connection is only given up when its peer or its socket has failed. -/
structure Whole (F : Framing UInt8) (half : MsgBuf → List UInt8) (c : RxConn) : Prop where
  first : c.delivered <+: c.sent
  kept : c.delivered.flatten ++ half c.buf ++ c.line = c.sent.flatten
  all : c.line = [] → c.delivered = c.sent
  lost : c.lost = true → c.cut = true

/-- A length is read at once and its payload fits; and no connection is lost and no observer leaves while a
message of the client has been read in part. -/
def Orderly (s : SessionRx) : RxAct → Prop
  | .conn cid r₁ r₂ _ => ∀ c ∈ s.conns cid, c.buf.LengthWhole c.line r₁ ∧
      (r₁.fails ∨ r₂.fails → s.client.buf.half = [])
  | .removeSlave _ _ => s.client.buf.half = []
  | _ => True

/-! ### The invariant -/

/-- The connection is in step with its peer. -/
structure InStep (F : Framing UInt8) (half : MsgBuf → List UInt8) (Ok : MsgBuf → Prop) (c : RxConn) :
    Prop where
  received : F.Received c.sent c.delivered (half c.buf) c.line
  ok : Ok c.buf
  lost : c.lost = true → c.cut = true

def ClientOk (c : RxConn) : Prop := InStep MsgBuf.framing MsgBuf.half MsgBuf.ReadOk c

def ConnOk (c : RxConn) : Prop := InStep MsgBuf.nccpFraming MsgBuf.halfPload MsgBuf.PloadOk c

structure Inv (s : SessionRx) : Prop where
  client : ClientOk s.client
  conns : ∀ cid, ∀ c ∈ s.conns cid, ConnOk c

variable {s t : SessionRx} {c : RxConn} {F : Framing UInt8} {half : MsgBuf → List UInt8}
  {Ok : MsgBuf → Prop} {cid : ℕ} {r₁ r₂ : Transfer}

theorem InStep.whole (h : InStep F half Ok c) (hok : Ok c.buf → F.Incomplete (half c.buf)) :
    Whole F half c := by
  refine ⟨h.received.isPrefix, h.received.all, fun hl => ?_, h.lost⟩
  have hr := h.received
  rw [hl] at hr
  exact (hr.eq_of_nil (hok h.ok)).1

theorem InStep.fail (h : InStep F half Ok c) : InStep F half Ok c.fail :=
  ⟨h.received, h.ok, fun _ => rfl⟩

theorem InStep.put (h : InStep F half Ok c) {msg : List UInt8} (hm : F.IsFrame msg) :
    InStep F half Ok (c.put msg) :=
  ⟨h.received.put hm, h.ok, h.lost⟩

theorem Inv.setConn (h : s.Inv) (o : Option RxConn) (ho : ∀ c ∈ o, ConnOk c) : (s.setConn cid o).Inv := by
  refine ⟨h.client, fun cid' c hc => ?_⟩
  have hc' : c ∈ Function.update s.conns cid o cid' := hc
  by_cases he : cid' = cid
  · rw [he, Function.update_self] at hc'
    exact ho c hc'
  · rw [Function.update_of_ne he] at hc'
    exact h.conns cid' c hc'

theorem Inv.setClient (h : s.Inv) (hc : ClientOk c) : Inv { s with client := c } := ⟨hc, h.conns⟩

theorem Inv.taken (h : s.Inv) (sent : Bool) : (s.taken sent).Inv := by
  unfold SessionRx.taken
  split
  · exact h
  · exact h.setClient h.client.fail

/-- The buffer of the client may be used for another message when no message is in it. -/
theorem Inv.sendStatus (h : s.Inv) (hhalf : s.client.buf.half = []) (cmd flags conID : ℕ) (sent : Bool) :
    (s.sendStatus cmd flags conID sent).Inv := by
  have hroom := h.client.ok.1
  obtain ⟨b, hb, -, -, -, hroom'⟩ := MsgBuf.plen_some _ (hroom.grows (by decide : 4 < 2 ^ 16))
  unfold SessionRx.sendStatus MsgBuf.sendBack
  rw [hb]
  simp only [Option.map_some]
  split
  · refine h.setClient ⟨?_, ⟨hroom' hroom, trivial⟩, h.client.lost⟩
    have hr := h.client.received
    rw [hhalf] at hr
    exact hr
  · exact h.setClient h.client.fail

theorem Inv.handler (h : s.Inv) {reply : Option (ℕ × ℕ)} {sent : Bool}
    (hs : s.handler r₁ r₂ reply sent = some t) : t.Inv := by
  unfold SessionRx.handler at hs
  split at hs
  · cases hs
  · next b line hr =>
    cases hs
    obtain ⟨hok, hall⟩ := MsgBuf.readmsg_spec h.client.ok hr
    exact h.setClient ⟨h.client.received.take hall, hok, h.client.lost⟩
  · next b line hr =>
    obtain ⟨hok, hst, hframe, hall⟩ := MsgBuf.readmsg_spec h.client.ok hr
    have hhalf : b.half = [] := by rw [MsgBuf.half, hst]
    have hnext : Inv { s with client := { s.client with
        buf := b, line := line, delivered := s.client.delivered ++ [b.message] } } := by
      refine h.setClient ⟨?_, hok, h.client.lost⟩
      show MsgBuf.framing.Received _ _ b.half _
      rw [hhalf]
      exact h.client.received.deliver hframe hall
    simp only at hs
    split at hs <;> cases hs
    · exact hnext
    · exact hnext.sendStatus hhalf _ _ _ _
  all_goals
    next b line hr =>
    cases hs
    refine h.setClient ⟨h.client.received, h.client.ok, fun _ => ?_⟩
    have hf : (r₁.fails || r₂.fails) = true := MsgBuf.readmsg_spec h.client.ok hr
    show (s.client.cut || r₁.fails || r₂.fails) = true
    rw [Bool.or_assoc, hf, Bool.or_true]

/-- A connection that is given up has failed, and then the buffer of the client has no message in it. -/
theorem Inv.connHandler (h : s.Inv) (hc : ConnOk c) (hwhole : c.buf.LengthWhole c.line r₁)
    (hhalf : r₁.fails ∨ r₂.fails → s.client.buf.half = []) {sent : Bool}
    (hs : s.connHandler cid c r₁ r₂ sent = some t) : t.Inv := by
  unfold SessionRx.connHandler at hs
  split at hs
  · cases hs
  · next b line hr =>
    cases hs
    obtain ⟨hok, hall⟩ := MsgBuf.readPload_spec hc.ok hwhole hr
    refine h.setConn _ fun c' hc' => ?_
    cases hc'
    exact ⟨hc.received.take hall, hok, hc.lost⟩
  · next b line hr =>
    cases hs
    obtain ⟨hst, hframe, hall⟩ := MsgBuf.readPload_spec hc.ok hwhole hr
    refine (h.setConn _ fun c' hc' => ?_).taken sent
    cases hc'
    exact ⟨hc.received.deliver hframe hall, trivial, hc.lost⟩
  all_goals
    next b line hr =>
    cases hs
    have hf : (r₁.fails || r₂.fails) = true := MsgBuf.readPload_spec hc.ok hwhole hr
    refine (h.setConn _ fun c' hc' => ?_).sendStatus ?_ _ _ _ _
    · cases hc'
      refine ⟨hc.received, hc.ok, fun _ => ?_⟩
      show (c.cut || r₁.fails || r₂.fails) = true
      rw [Bool.or_assoc, hf, Bool.or_true]
    · exact hhalf (by rwa [Bool.or_eq_true] at hf)

theorem Inv.step (h : s.Inv) {a : RxAct} (ho : s.Orderly a) (hs : s.step a = some t) : t.Inv := by
  cases a with
  | arrive o msg =>
    cases o with
    | none =>
      simp only [SessionRx.step] at hs
      split at hs <;> cases hs
      next hm => exact h.setClient (h.client.put hm.1)
    | some cid =>
      simp only [SessionRx.step] at hs
      split at hs
      · cases hs
      next c hc =>
      split at hs <;> cases hs
      next hm =>
      refine h.setConn _ fun c' hc' => ?_
      cases hc'
      exact (h.conns cid c hc).put hm
  | addConn cid =>
    simp only [SessionRx.step] at hs
    split at hs <;> cases hs
    refine h.setConn _ fun c' hc' => ?_
    cases hc'
    exact ⟨MsgBuf.nccpFraming.received_nil, trivial, fun hl => by cases hl⟩
  | client r₁ r₂ reply sent =>
    simp only [SessionRx.step] at hs
    split at hs
    · cases hs
    · exact h.handler hs
  | conn cid r₁ r₂ sent =>
    simp only [SessionRx.step] at hs
    split at hs
    · cases hs
    next c hc =>
    split at hs
    · cases hs
    · exact h.connHandler (h.conns cid c hc) (ho c hc).1 (ho c hc).2 hs
  | removeSlave cid sent =>
    simp only [SessionRx.step] at hs
    split at hs <;> cases hs
    exact h.sendStatus ho _ _ _ _
  | closeConn cid =>
    cases hs
    exact h.setConn _ fun c' hc' => by cases hc'
  | control sent =>
    simp only [SessionRx.step] at hs
    split at hs <;> cases hs
    exact h.taken sent

theorem inv_empty : Inv {} :=
  ⟨⟨MsgBuf.framing.received_nil, ⟨⟨le_rfl, by decide, by decide⟩, trivial⟩, fun hl => by cases hl⟩,
    fun cid c hc => by cases hc⟩

instance (b : MsgBuf) (line : List UInt8) : (r : Transfer) → Decidable (b.LengthWhole line r)
  | .bytes n => inferInstanceAs (Decidable (b.st = .pPartial ∨ n = 4 ∧ (_ ∨ _)))
  | .again | .eof | .error => .isTrue trivial

instance (s : SessionRx) : (a : RxAct) → Decidable (s.Orderly a)
  | .conn cid _ _ _ => inferInstanceAs (Decidable (∀ c ∈ s.conns cid, _ ∧ (_ ∨ _ → _)))
  | .removeSlave _ _ => inferInstanceAs (Decidable (_ = _))
  | .arrive _ _ | .addConn _ | .client _ _ _ _ | .closeConn _ | .control _ => .isTrue trivial

end SessionRx

end OnlDaemons.Proxy

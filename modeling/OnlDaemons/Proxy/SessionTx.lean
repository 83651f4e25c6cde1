import OnlDaemons.Lib.Run
import OnlDaemons.Proxy.Sending

/-!
# What a session sends

A session sends on the socket of its client, on that of an observer of the client and on the connections
it has opened for either. While a message waits for its socket, the thread of the session does nothing
else. What the client gets of a connection, the observer gets after it.

## Main definitions

- `SessionTx`, `SessionTx.step` — the session
- `SessionTx.Sends` — each socket takes the messages that were handed over for it
- `SessionTx.Orderly` — the steps after which it does

## Main result

- `SessionTx.sends_of_orderly` — over runs
-/

namespace OnlDaemons.Proxy
open OnlDaemons.Lib

/-- `Session`. `mid` is the message of the client that was read last, `fault` says that a socket has broken
or that the session was told to shut down, and `ended` that its thread has left `run`. -/
structure SessionTx where
  sending : Sending := {}
  cid : ℕ := 0
  mid : ℕ := 0
  txNext : Bool := false
  tryCount : ℕ := 0
  removing : Bool := false
  closing : Bool := false
  ended : Bool := false
  fault : Bool := false

/-- `room` and `breaks` are what happens to a socket. `send` is a message that a handler sends; `next`
says that the observer gets it too, and `strict` that the handler closes the session when it cannot be
sent. -/
inductive TxAct
  | room (k : Sock) (n : ℕ)
  | breaks (k : Sock)
  | command (mid : ℕ)
  | addConn (cid : ℕ) (own : Bool)
  | addObserver
  | rmConn (cid : ℕ)
  | rmObserver
  | send (k : Sock) (b : MsgBuf) (next strict : Bool)
  | removeSlave (connid : ℕ)
  | shutdown
  | resume
  | timeout

namespace MsgBuf

def command (b : MsgBuf) : ℕ := bigEndian (window b.hdr.mem 2 2)

/-- The message `closeConn` of `sendBack`. -/
def closeConn (mid conID : ℕ) : MsgBuf :=
  { hdr := { mem := overwrite (fun _ => 0) 0 (bytesOf 2 12 ++ bytesOf 2 3 ++ bytesOf 2 mid ++ bytesOf 2 conID)
             len := 8 }
    pay := { len := 4 } }

end MsgBuf

namespace SessionTx

def shareReply : ℕ := 13

def fwdData : ℕ := 1

def copyFwd : ℕ := 10

/-- `doSendNext` changes the header for the observer. -/
def forObserver (s : SessionTx) (b : MsgBuf) : MsgBuf :=
  if b.command = shareReply then { b with hdr := b.hdr.set 6 (bytesOf 2 s.cid) }
  else if b.command = fwdData then { b with hdr := b.hdr.set 2 (bytesOf 2 copyFwd) }
  else b

/-- A message for a socket, and the write of it. -/
def hand (s : SessionTx) (k : Sock) (c : TxSock) (b : MsgBuf) : Sending × Outcome × MsgBuf :=
  s.sending.put k (c.hand (k.unsent b)) b

/-- `doSendNext`. -/
def doSendNext (s : SessionTx) (b : MsgBuf) : SessionTx × Bool :=
  if s.txNext then
    let s := { s with txNext := false }
    match s.sending.socks .observer with
    | none => (s, true)
    | some c =>
      let r := s.hand .observer c (s.forObserver b)
      ({ s with sending := r.1 }, r.2.1 != .failed)
  else (s, true)

/-- What `Session::doSend` does after the write, for the session itself. -/
def sentClient (onFail : SessionTx → SessionTx) (s : SessionTx) (r : Sending × Outcome × MsgBuf) :
    SessionTx × Bool :=
  let s := { s with sending := r.1 }
  match r.2.1 with
  | .complete => s.doSendNext r.2.2
  | .parked => (s, true)
  | .failed => (onFail s, false)

/-- The message `closeConn` is sent to the client, and to the observer next. -/
def sendClose (onFail : SessionTx → SessionTx) (s : SessionTx) (connid : ℕ) : SessionTx :=
  match s.sending.socks .client with
  | none => s
  | some c =>
    let s := { s with txNext := s.txNext || (s.sending.socks .observer).isSome }
    (sentClient onFail s (s.hand .client c (.closeConn s.mid connid))).1

/-- The connections are closed, all of them or those of the observer. -/
def rmConns (s : SessionTx) (all : Bool) : SessionTx :=
  { s with sending := { s.sending with socks := fun k =>
      match k with
      | .conn _ => (s.sending.socks k).filter fun c => !all && c.own
      | _ => s.sending.socks k } }

/-- `Session::close`. If a message waits, what its buffer holds afterwards is not the rest of it, and the
thread is taken to end. -/
def close (s : SessionTx) : SessionTx :=
  if s.closing then s
  else
    let s := { s with closing := true, ended := s.sending.txConn.isSome }
    let s := if s.removing then s
      else { s.sendClose id s.cid with removing := (s.sending.socks .observer).isSome }
    s.rmConns true

/-- The loop of `run` has gone round when no message waits. -/
def settle (s : SessionTx) : SessionTx :=
  if s.sending.txConn.isNone then { s with tryCount := 0, ended := s.ended || s.closing } else s

/-- The thread leaves `run`. -/
def leave (s : SessionTx) : SessionTx := { s.close with ended := true }

/-- What `doSend` of the socket does after the write. -/
def sent (s : SessionTx) (k : Sock) (c : TxSock) (r : Sending × Outcome × MsgBuf) : SessionTx × Bool :=
  match k with
  | .client => s.sentClient close r
  | .observer =>
    let s := { s with sending := r.1 }
    if r.2.1 = .complete then s.doSendNext r.2.2 else (s, r.2.1 != .failed)
  | .conn _ =>
    if r.2.1 = .failed then
      ({ s with sending := r.1.setSock k { (r.1.socks k).getD c with closed := true } }, false)
    else ({ s with sending := r.1 }, true)

/-- A round of `run` while a message waits. `select` does not take a closed socket. -/
def resume (s : SessionTx) (k : Sock) (c : TxSock) : SessionTx :=
  if s.tryCount = 3 then s.leave
  else
    let s := { s with tryCount := s.tryCount + 1 }
    if c.closed then s.leave
    else
      let r := s.sending.put k c s.sending.txBuf
      -- the message is in the same buffer as before
      let r := if r.1.txConn.isSome then ({ r.1 with txBuf := r.2.2 }, r.2) else r
      (s.sent k c r).1.settle

def step (s : SessionTx) : TxAct → Option SessionTx
  | .room k n =>
    (s.sending.socks k).map fun c => { s with sending := s.sending.setSock k { c with room := n } }
  | .breaks k =>
    (s.sending.socks k).map fun c =>
      { s with sending := s.sending.setSock k { c with broken := true }, fault := true }
  | .command mid => if s.sending.txConn.isNone && !s.closing then some { s with mid := mid } else none
  | .addConn cid own =>
    if s.sending.txConn.isNone && (s.sending.socks (.conn cid)).isNone then
      some { s with sending := s.sending.setSock (.conn cid) { own := own } }
    else none
  | .addObserver =>
    if s.sending.txConn.isNone && (s.sending.socks .observer).isNone then
      some { s with sending := s.sending.setSock .observer {} }
    else none
  | .rmConn cid =>
    if s.sending.txConn = some (.conn cid) then none
    else
      some { s with sending := { s.sending with
        socks := Function.update s.sending.socks (.conn cid) none } }
  | .rmObserver =>
    if s.sending.txConn.isNone then
      some { s with
        sending := { s.sending with socks := Function.update s.sending.socks .observer none }
        removing := false }
    else none
  | .send k b next strict =>
    match s.sending.socks k with
    | none => none
    | some c =>
      if s.sending.txConn.isNone && !s.closing && !s.removing && decide b.Fresh then
        let s := { s with
          txNext := s.txNext || (next && k = Sock.client && (s.sending.socks .observer).isSome) }
        let r := s.sent k c (s.hand k c b)
        some (if strict && k = Sock.client && !r.2 then r.1.close.settle else r.1.settle)
      else none
  | .removeSlave connid =>
    match s.sending.socks .observer with
    | none => none
    | some _ =>
      if s.sending.txConn.isNone && !s.closing && !s.removing then
        some { (s.sendClose close connid).rmConns false with removing := true }.settle
      else none
  | .shutdown =>
    if s.sending.txConn.isNone && !s.closing then some { s with fault := true }.close.settle else none
  | .resume =>
    match s.sending.txConn with
    | none => none
    | some k =>
      match s.sending.socks k with
      | none => none
      | some c => if s.ended then none else some (s.resume k c)
  | .timeout =>
    if s.sending.txConn.isSome && !s.ended then some s.leave else none

/-- Each socket takes the messages that were handed over for it, one after the other and all of them when
no message waits; the session is only closed when a socket breaks or it is told to, and a connection only
when its own socket breaks. -/
structure Sends (s : SessionTx) : Prop where
  first : ∀ k, ∀ c ∈ s.sending.socks k, c.out <+: c.handed.flatten
  all : s.sending.txConn = none → s.closing = false → ∀ k, ∀ c ∈ s.sending.socks k,
    c.broken = false → c.out = c.handed.flatten
  session : s.closing = true → s.fault = true
  conns : ∀ k, ∀ c ∈ s.sending.socks k, c.closed = true → c.broken = true

/-- The socket takes the message at once. -/
def Takes (s : SessionTx) (k : Sock) (b : MsgBuf) : Prop :=
  ∃ c ∈ s.sending.socks k, c.broken = false ∧ (k.unsent b).length ≤ c.room

/-- The socket does not take a part of the message only. -/
def Fits (s : SessionTx) (k : Sock) (b : MsgBuf) : Prop :=
  ∀ c ∈ s.sending.socks k, c.broken = true ∨ (k.unsent b).length ≤ c.room

/-- When the client has the message, the observer takes it at once. -/
def NextFits (s : SessionTx) (b : MsgBuf) : Prop := s.Takes .client b → s.Fits .observer b.written

/-- The observer and its connections take a message at once, the client and the connections of the session
take it in two parts at most, and no socket lets a message wait until `select` times out. -/
def Orderly (s : SessionTx) : TxAct → Prop
  | .send .client b next _ => next = true → s.NextFits b
  | .send .observer b _ _ => s.Fits .observer b
  | .send (.conn cid) b _ _ =>
    (∃ c ∈ s.sending.socks (.conn cid), c.own = false) → s.Fits (.conn cid) b
  | .removeSlave connid => s.NextFits (.closeConn s.mid connid)
  | .shutdown => s.NextFits (.closeConn s.mid s.cid)
  | .resume => ∀ k ∈ s.sending.txConn, s.Fits k s.sending.txBuf ∧
      (k = .client → s.txNext = true → s.Fits .observer s.sending.txBuf.written)
  | .timeout => False
  | _ => True

variable {s t : SessionTx} {a : TxAct} {k : Sock} {c : TxSock} {b : MsgBuf}

theorem forObserver_length (s : SessionTx) (b : MsgBuf) :
    (s.forObserver b).unsent.length = b.unsent.length := by
  rw [MsgBuf.length_unsent, MsgBuf.length_unsent]
  unfold forObserver
  split
  · rfl
  · split <;> rfl

theorem forObserver_inOrder (s : SessionTx) (h : b.InOrder) : (s.forObserver b).InOrder := by
  unfold forObserver
  split
  · exact h
  · split <;> exact h

theorem forObserver_sendable (s : SessionTx) (h : b.unsent ≠ []) :
    Sock.observer.Sendable (s.forObserver b) := by
  refine .inl fun hnil => h ?_
  rw [← List.length_eq_zero_iff, ← s.forObserver_length b]
  exact List.length_eq_zero_iff.mpr hnil

theorem doSendNext_ok (hok : s.sending.Ok s.fault s.sending.due) (hidle : s.sending.txConn = none)
    (hb : b.unsent ≠ []) (hord : b.InOrder) (hfits : s.txNext = true → s.Fits .observer b) :
    ∃ x : Sending, (s.doSendNext b).1 = { s with sending := x, txNext := false } ∧
      x.Ok s.fault x.due ∧ x.txConn = none ∧
      ((s.doSendNext b).2 = false → s.fault = true ∧ ∀ c ∈ x.socks .observer, c.broken = true) := by
  unfold doSendNext
  by_cases hnext : s.txNext = true
  · rw [if_pos hnext]
    cases hobs : s.sending.socks .observer with
    | none =>
      simp only [hobs]
      exact ⟨s.sending, rfl, hok, hidle, nofun⟩
    | some c =>
      simp only [hobs]
      have hc := hok .observer c hobs
      rw [Sending.due_idle hidle] at hc
      have hfit : c.broken = true ∨ (s.forObserver b).unsent.length ≤ c.room := by
        rw [s.forObserver_length b]
        exact hfits hnext c hobs
      have hput := Sending.put_fresh (k := .observer) hok hidle (hc.hand _) (s.forObserver_sendable hb)
        (s.forObserver_inOrder hord) (.inr hfit)
      refine ⟨_, rfl, hput.1.ok, ?_⟩
      obtain ⟨hres, hnone, -⟩ | ⟨-, -, hown⟩ | ⟨-, hnone, hbr, hall⟩ := hput.2
      · refine ⟨hnone, fun hf => ?_⟩
        have hf' : ((s.hand .observer c (s.forObserver b)).2.1 != .failed) = false := hf
        rw [show (s.hand .observer c (s.forObserver b)).2.1 = .complete from hres] at hf'
        cases hf'
      · cases hown
      · refine ⟨hnone, fun _ => ⟨hc.cause hbr, fun c' hc' => ?_⟩⟩
        rw [show c' = c.hand _ from Option.some.inj (hc'.symm.trans hall)]
        exact hbr
  · rw [if_neg hnext]
    rw [Bool.not_eq_true] at hnext
    refine ⟨s.sending, ?_, hok, hidle, nofun⟩
    rw [← hnext]

/-- Whatever the session is about to do, no socket gets bytes of another message in the middle of one. -/
theorem doSendNext_weak {owed : Sock → List UInt8} (hok : s.sending.Ok s.fault owed)
    (hobs : owed .observer = []) (hb : b.unsent ≠ []) :
    ∃ (x : Sending) (owed' : Sock → List UInt8),
      (s.doSendNext b).1 = { s with sending := x, txNext := false } ∧ x.Ok s.fault owed' := by
  unfold doSendNext
  by_cases hnext : s.txNext = true
  · rw [if_pos hnext]
    cases hsock : s.sending.socks .observer with
    | none =>
      simp only [hsock]
      exact ⟨s.sending, owed, rfl, hok⟩
    | some c =>
      simp only [hsock]
      have hc := hok .observer c hsock
      rw [hobs] at hc
      obtain ⟨d, hput, -⟩ := Sending.put_spec (k := .observer) hok (hc.hand _)
        (.inr (s.forObserver_sendable hb))
      exact ⟨_, _, rfl, hput⟩
  · rw [if_neg hnext]
    rw [Bool.not_eq_true] at hnext
    exact ⟨s.sending, owed, by rw [← hnext], hok⟩

theorem nextFits_of_client (h : ∀ c ∈ s.sending.socks .client, c.broken = true) (b : MsgBuf) :
    s.NextFits b := by
  rintro ⟨c, hc, hb, -⟩
  rw [h c hc] at hb
  cases hb

theorem nextFits_of_observer (h : ∀ c ∈ s.sending.socks .observer, c.broken = true) (b : MsgBuf) :
    s.NextFits b :=
  fun _ c hc => .inl (h c hc)

/-- How a message to the client ends, when none waits. The observer takes it at once if the client has. -/
theorem sentClient_ok (f : SessionTx → SessionTx) (hok : s.sending.Ok s.fault s.sending.due)
    (hidle : s.sending.txConn = none) (hc : s.sending.socks .client = some c) (hb : b.Fresh)
    (hnext : s.txNext = true → s.NextFits b) :
    (∃ (x : Sending) (n : Bool),
      (s.sentClient f (s.hand .client c b)).1 = { s with sending := x, txNext := n } ∧
        x.Steady s.fault ∧ (n = true → x.txConn = some .client) ∧
        ((s.sentClient f (s.hand .client c b)).2 = false → x.txConn = none ∧ s.fault = true ∧
          ∀ b', ({ s with sending := x, txNext := n } : SessionTx).NextFits b')) ∨
    (∃ x : Sending,
      (s.sentClient f (s.hand .client c b)).1 = f { s with sending := x } ∧
        x.Steady s.fault ∧ x.txConn = none ∧ s.fault = true ∧
        ∀ b', ({ s with sending := x } : SessionTx).NextFits b') := by
  have hcok := hok .client c hc
  rw [Sending.due_idle hidle] at hcok
  obtain ⟨hr, hput⟩ := Sending.put_fresh (k := .client) hok hidle (hcok.hand _)
    (.inl hb.unsent_ne_nil) hb.inOrder (.inl rfl)
  unfold sentClient
  obtain ⟨hres, hnone, hfit⟩ | ⟨hres, hconn, -⟩ | ⟨hres, hnone, hbr, hself⟩ := hput
  · have hres' : (s.hand .client c b).2.1 = .complete := hres
    have hwr : (s.hand .client c b).2.2 = b.written := Sending.put_written hres
    simp only [hres', hwr]
    have hfits : s.txNext = true →
        ({ s with sending := (s.hand .client c b).1 } : SessionTx).Fits .observer b.written := by
      intro hn c' hc'
      have hroom := hfit.resolve_right hb.unsent_ne_nil
      refine hnext hn ⟨c, hc, hroom.1, hroom.2⟩ c' ?_
      rwa [← Sending.put_others s.sending .client (c.hand (Sock.unsent .client b)) b (by decide)]
    have hne : b.written.unsent ≠ [] := by
      rw [← List.length_pos_iff, b.length_written, hb.1]
      omega
    obtain ⟨x, hx, hxok, hxidle, hxbr⟩ := doSendNext_ok
      (s := { s with sending := (s.hand .client c b).1 }) hr.ok hnone hne b.inOrder_written hfits
    refine .inl ⟨x, false, hx, hxok.steady hxidle, nofun, fun hf => ⟨hxidle, (hxbr hf).1, ?_⟩⟩
    exact nextFits_of_observer (hxbr hf).2
  · have hres' : (s.hand .client c b).2.1 = .parked := hres
    simp only [hres']
    exact .inl ⟨_, s.txNext, rfl, hr, fun _ => hconn, nofun⟩
  · have hres' : (s.hand .client c b).2.1 = .failed := hres
    simp only [hres']
    refine .inr ⟨_, rfl, hr, hnone, hcok.cause hbr, nextFits_of_client fun c' hc' => ?_⟩
    rw [show c' = c.hand _ from Option.some.inj (hc'.symm.trans hself)]
    exact hbr

/-- What holds while the session handles an event. -/
structure Mid (s : SessionTx) : Prop where
  weak : ∃ owed, s.sending.Ok s.fault owed
  steady : s.ended = false → s.sending.Steady s.fault
  ended : s.ended = true → s.closing = true
  cause : s.closing = true → s.fault = true
  tries : s.ended = false → s.closing = false → ∀ k ∈ s.sending.txConn,
    s.tryCount = 0 ∨ s.tryCount = 1 ∧ ∀ c ∈ s.sending.socks k, c.closed = true
  next : s.ended = false → s.txNext = true →
    s.sending.txConn = some .client ∨ s.sending.txConn = none ∧ s.closing = true

/-- What holds between two rounds of `run`. -/
structure Inv (s : SessionTx) : Prop extends Mid s where
  idle : s.ended = false → s.sending.txConn = none → s.tryCount = 0 ∧ s.closing = false

theorem Mid.settle (h : s.Mid) : s.settle.Inv := by
  unfold SessionTx.settle
  cases hconn : s.sending.txConn with
  | none =>
    rw [Option.isNone_none, if_pos rfl]
    have hended : ∀ {p : Prop}, ((s.ended || s.closing) = false → p) ↔
        (s.ended = false → s.closing = false → p) := by
      intro p
      rw [Bool.or_eq_false_iff, and_imp]
    refine ⟨⟨h.weak, hended.mpr fun he _ => h.steady he, fun he => ?_, h.cause, ?_, ?_⟩, ?_⟩
    · rw [Bool.or_eq_true] at he
      exact he.elim h.ended id
    · intro _ _ k hk
      rw [hconn] at hk
      cases hk
    · refine hended.mpr fun he hcl hn => ?_
      obtain hc | ⟨-, hc⟩ := h.next he hn
      · exact .inl hc
      · rw [hcl] at hc
        cases hc
    · exact hended.mpr fun _ hcl _ => ⟨rfl, hcl⟩
  | some k =>
    rw [if_neg (by simp)]
    exact ⟨h, fun _ hnone => by rw [hconn] at hnone; cases hnone⟩

/-- Sockets may go, but for their number nothing changes. -/
theorem Mid.of_socks (h : s.Mid) {socks : Sock → Option TxSock}
    (hsub : ∀ k, ∀ c ∈ socks k, c ∈ s.sending.socks k) :
    Mid { s with sending := { s.sending with socks := socks } } := by
  obtain ⟨owed, hok⟩ := h.weak
  refine ⟨⟨owed, fun k c hc => hok k c (hsub k c hc)⟩, fun he => ?_, h.ended, h.cause, ?_, h.next⟩
  · exact ⟨fun k c hc => (h.steady he).ok k c (hsub k c hc),
      fun k hk c hc => (h.steady he).own k hk c (hsub k c hc)⟩
  · exact fun he hcl k hk => (h.tries he hcl k hk).imp_right fun ht =>
      ⟨ht.1, fun c hc => ht.2 c (hsub k c hc)⟩

theorem Mid.rmConns (h : s.Mid) (all : Bool) : (s.rmConns all).Mid := by
  refine h.of_socks fun k c hc => ?_
  cases k with
  | client => exact hc
  | observer => exact hc
  | conn cid => exact (Option.mem_filter_iff.mp hc).1

theorem fresh_closeConn (mid conID : ℕ) : (MsgBuf.closeConn mid conID).Fresh := ⟨rfl, rfl, rfl⟩

/-- A session that closes while no message waits. -/
theorem close_idle (hst : s.sending.Steady s.fault) (hidle : s.sending.txConn = none)
    (hclosing : s.closing = false) (hfault : s.fault = true)
    (hfits : s.NextFits (.closeConn s.mid s.cid)) : s.close.Mid := by
  have hmid : ∀ x : Sending, ∀ n : Bool, ∀ r : Bool, x.Steady s.fault →
      (n = true → x.txConn = some .client ∨ x.txConn = none) →
      Mid { s with sending := x, txNext := n, closing := true, ended := false, removing := r } := by
    intro x n r hx hn
    refine ⟨⟨_, hx.ok⟩, fun _ => hx, nofun, fun _ => hfault, nofun, fun _ hn' => ?_⟩
    exact (hn hn').imp_right fun h => ⟨h, rfl⟩
  unfold close
  rw [hclosing, hidle]
  simp only [Bool.false_eq_true, if_false, Option.isSome_none]
  refine Mid.rmConns ?_ true
  split
  · exact hmid s.sending s.txNext s.removing hst fun _ => .inr hidle
  · unfold sendClose
    cases hc : s.sending.socks .client with
    | none =>
      simp only
      exact hmid s.sending s.txNext _ hst fun _ => .inr hidle
    | some c =>
      simp only
      obtain ⟨x, n, hx, hxst, hn, -⟩ | ⟨x, hx, hxst, hxidle, -⟩ := sentClient_ok
        (s := { s with
          closing := true, ended := false
          txNext := s.txNext || (s.sending.socks .observer).isSome }) id hst.ok hidle hc
        (fresh_closeConn s.mid s.cid) fun _ => hfits
      · rw [hx]
        exact hmid x n _ hxst fun h => .inl (hn h)
      · rw [hx]
        exact hmid x _ _ hxst fun _ => .inr hxidle

/-- A session that closes while a message waits comes to its end. -/
theorem close_waiting (hsome : s.sending.txConn.isSome = true) (hclosing : s.closing = false)
    (hfault : s.fault = true) {owed : Sock → List UInt8} (hok : s.sending.Ok s.fault owed)
    (hcl : ∀ c ∈ s.sending.socks .client, c.broken = true ∨ owed .client = [])
    (hobs : owed .observer = []) : s.close.Mid := by
  have hmid : ∀ t : SessionTx, t.ended = true → t.closing = true → t.fault = true →
      (∃ owed, t.sending.Ok t.fault owed) → t.Mid := by
    intro t hended htc htf hw
    have hne : t.ended ≠ false := by rw [hended]; decide
    exact ⟨hw, fun he => absurd he hne, fun _ => htc, fun _ => htf, fun he => absurd he hne,
      fun he => absurd he hne⟩
  unfold close
  rw [hclosing, hsome]
  simp only [Bool.false_eq_true, if_false]
  refine Mid.rmConns ?_ true
  split
  · exact hmid _ rfl rfl hfault ⟨owed, hok⟩
  · unfold sendClose
    cases hc : s.sending.socks .client with
    | none =>
      simp only
      exact hmid _ rfl rfl hfault ⟨owed, hok⟩
    | some c =>
      simp only
      have hcok : c.Ok s.fault [] := by
        obtain hb | hnil := hcl c hc
        · exact (hok _ c hc).of_broken hb _
        · rw [← hnil]
          exact hok _ c hc
      obtain ⟨d, hput, -⟩ := Sending.put_spec (k := .client) hok
        (hcok.hand (Sock.unsent .client (.closeConn s.mid s.cid)))
        (.inr (.inl (fresh_closeConn s.mid s.cid).unsent_ne_nil))
      have hwritten := Sending.put_written (s := s.sending)
        (c := c.hand (Sock.unsent .client (.closeConn s.mid s.cid))) (b := .closeConn s.mid s.cid)
      unfold sentClient hand
      generalize s.sending.put .client (c.hand (Sock.unsent .client (.closeConn s.mid s.cid)))
        (.closeConn s.mid s.cid) = r at hput hwritten ⊢
      obtain ⟨t, o, b⟩ := r
      cases o with
      | complete =>
        obtain rfl : b = (MsgBuf.closeConn s.mid s.cid).written := hwritten rfl
        obtain ⟨x, owed', hx, hxok⟩ := doSendNext_weak
          (s := { s with
            sending := t, closing := true, ended := true
            txNext := s.txNext || (s.sending.socks .observer).isSome })
          (b := (MsgBuf.closeConn s.mid s.cid).written) hput
          (by rw [Function.update_of_ne (by decide), hobs])
          (by rw [← List.length_pos_iff, MsgBuf.length_written]; exact Nat.zero_lt_succ _)
        simp only [hx]
        exact hmid _ rfl rfl hfault ⟨owed', hxok⟩
      | parked => exact hmid _ rfl rfl hfault ⟨_, hput⟩
      | failed => exact hmid _ rfl rfl hfault ⟨_, hput⟩

theorem Mid.leave (h : s.close.Mid) (hclosing : s.close.closing = true) : s.leave.Inv := by
  have hne : s.leave.ended ≠ false := by
    show true ≠ false
    decide
  exact ⟨⟨h.weak, fun he => absurd he hne, fun _ => hclosing, h.cause, fun he => absurd he hne,
    fun he => absurd he hne⟩, fun he => absurd he hne⟩

theorem Inv.mid_idle (h : s.Inv) (hidle : s.sending.txConn = none)
    {x : Sending} (hx : x.Steady s.fault) {n : Bool} (hn : n = true → x.txConn = some .client) :
    Mid { s with sending := x, txNext := n } := by
  refine ⟨⟨_, hx.ok⟩, fun _ => hx, h.ended, h.cause, fun he _ k _ => .inl (h.idle he hidle).1, ?_⟩
  exact fun _ hn' => .inl (hn hn')

theorem doSendNext_closing (s : SessionTx) (b : MsgBuf) : (s.doSendNext b).1.closing = s.closing := by
  unfold doSendNext
  split
  · simp only
    split <;> rfl
  · rfl

theorem sentClient_closing (s : SessionTx) (r : Sending × Outcome × MsgBuf) :
    (s.sentClient id r).1.closing = s.closing := by
  unfold sentClient
  simp only
  split
  · exact doSendNext_closing _ _
  · rfl
  · rfl

theorem sendClose_closing (s : SessionTx) (connid : ℕ) : (s.sendClose id connid).closing = s.closing := by
  unfold sendClose
  split
  · rfl
  · exact sentClient_closing _ _

theorem close_closing (s : SessionTx) : s.close.closing = true := by
  unfold close
  split
  · assumption
  · show (if s.removing then _ else _ : SessionTx).closing = true
    split
    · rfl
    · exact sendClose_closing _ _

theorem close_of_closing (h : s.closing = true) : s.close = s := if_pos h

theorem Inv.of_closing (h : s.Inv) (hclosing : s.closing = false) : s.ended = false := by
  by_contra he
  rw [Bool.not_eq_false] at he
  rw [h.ended he] at hclosing
  cases hclosing

theorem Inv.txNext (h : s.Inv) (hclosing : s.closing = false) (hidle : s.sending.txConn = none) :
    s.txNext = false := by
  by_contra hn
  rw [Bool.not_eq_false] at hn
  obtain hc | ⟨-, hc⟩ := h.next (h.of_closing hclosing) hn
  · rw [hidle] at hc
    cases hc
  · rw [hclosing] at hc
    cases hc

/-- A message to the client, by a handler that may close the session when it cannot be sent. -/
theorem Inv.sendClient (h : s.Inv) (hidle : s.sending.txConn = none) (hclosing : s.closing = false)
    (hc : s.sending.socks .client = some c) (hb : b.Fresh) {next : Bool}
    (hnext : next = true → s.NextFits b) (strict : Bool) :
    let r := ({ s with txNext := next } : SessionTx).sentClient close (s.hand .client c b)
    (if strict && !r.2 then r.1.close.settle else r.1.settle).Inv := by
  have hended := h.of_closing hclosing
  intro r
  obtain ⟨x, n, hx, hxst, hn, hf⟩ | ⟨x, hx, hxst, hxidle, hfault, hfits⟩ := sentClient_ok
    (s := { s with txNext := next }) close (h.steady hended).ok hidle hc hb hnext
  · have hmid : r.1.Mid := by
      rw [show r.1 = { s with sending := x, txNext := n } from hx]
      exact h.mid_idle hidle hxst hn
    by_cases hstrict : (strict && !r.2) = true
    · rw [if_pos hstrict]
      rw [Bool.and_eq_true, Bool.not_eq_true'] at hstrict
      obtain ⟨hxidle, hfault, hfits⟩ := hf hstrict.2
      rw [show r.1 = { s with sending := x, txNext := n } from hx]
      exact (close_idle (s := { s with sending := x, txNext := n }) hxst hxidle hclosing hfault
        (hfits _)).settle
    · rw [if_neg hstrict]
      exact hmid.settle
  · have hmid : (close { s with sending := x, txNext := next }).Mid :=
      close_idle (s := { s with sending := x, txNext := next }) hxst hxidle hclosing hfault (hfits _)
    rw [show r.1 = close { s with sending := x, txNext := next } from hx]
    split
    · rw [close_of_closing (close_closing _)]
      exact hmid.settle
    · exact hmid.settle

/-- What happens to a socket from outside. -/
theorem Inv.setSock (h : s.Inv) (hc : s.sending.socks k = some c) {c' : TxSock} {fault : Bool}
    (hout : c'.out = c.out) (hhanded : c'.handed = c.handed) (hown : c'.own = c.own)
    (hclosed : c'.closed = c.closed) (hbr : c.broken = true → c'.broken = true)
    (hf : s.fault = true → fault = true) (hbf : c'.broken = true → fault = true) :
    Inv { s with sending := s.sending.setSock k c', fault := fault } := by
  have hsock : ∀ l, c.Ok s.fault l → c'.Ok fault l := by
    intro l hok
    refine ⟨by rw [hout, hhanded]; exact hok.first, fun hb => ?_, fun hcl => ?_, hbf⟩
    · rw [hout, hhanded]
      refine hok.due (Bool.eq_false_iff.mpr fun hb' => ?_)
      rw [hbr hb'] at hb
      cases hb
    · rw [hclosed] at hcl
      exact hbr (hok.closed hcl)
  have hall : ∀ owed, s.sending.Ok s.fault owed → (s.sending.setSock k c').Ok fault owed := by
    intro owed hok j d hd
    obtain ⟨rfl, rfl⟩ | ⟨-, hd⟩ := Sending.mem_setSock hd
    · exact hsock _ (hok j c hc)
    · exact (hok j d hd).mono hf
  obtain ⟨owed, hok⟩ := h.weak
  refine ⟨⟨⟨owed, hall _ hok⟩, fun he => ⟨hall _ (h.steady he).ok, ?_⟩, h.ended,
    fun hcl => hf (h.cause hcl), ?_, h.next⟩, h.idle⟩
  · intro j hj d hd
    obtain ⟨rfl, rfl⟩ | ⟨-, hd⟩ := Sending.mem_setSock hd
    · obtain ⟨ho, hu⟩ := (h.steady he).own j hj c hc
      refine ⟨?_, hu.imp_left hbr⟩
      cases j with
      | client => rfl
      | observer => exact ho
      | conn cid => exact hown.trans ho
    · exact (h.steady he).own j hj d hd
  · intro he hcl j hj
    refine (h.tries he hcl j hj).imp_right fun ht => ⟨ht.1, fun d hd => ?_⟩
    obtain ⟨rfl, rfl⟩ | ⟨-, hd⟩ := Sending.mem_setSock hd
    · rw [hclosed]
      exact ht.2 c hc
    · exact ht.2 d hd

/-- A socket on which nothing was sent yet. -/
theorem Inv.newSock (h : s.Inv) (hidle : s.sending.txConn = none) (own : Bool) :
    Inv { s with sending := s.sending.setSock k { own := own } } := by
  have hnew : ∀ l, l = [] → TxSock.Ok { own := own } s.fault l := by
    rintro l rfl
    exact ⟨List.prefix_rfl, fun _ => rfl, nofun, nofun⟩
  have hnone : ∀ {p : Sock → Prop}, ∀ j ∈ s.sending.txConn, p j := by
    intro p j hj
    rw [hidle] at hj
    cases hj
  obtain ⟨owed, hok⟩ := h.weak
  refine ⟨⟨⟨_, hok.setSock (hnew [] rfl)⟩, fun he => ⟨fun j d hd => ?_, hnone⟩, h.ended, h.cause,
    fun _ _ => hnone, h.next⟩, h.idle⟩
  obtain ⟨rfl, rfl⟩ | ⟨-, hd⟩ := Sending.mem_setSock hd
  · exact hnew _ (Sending.due_idle (s := s.sending.setSock j { own := own }) hidle _)
  · exact (h.steady he).ok j d hd

theorem Inv.of_socks (h : s.Inv) (socks : Sock → Option TxSock)
    (hsub : ∀ k, ∀ c ∈ socks k, c ∈ s.sending.socks k) :
    Inv { s with sending := { s.sending with socks := socks } } :=
  ⟨h.toMid.of_socks hsub, h.idle⟩

/-- A message to the observer or on a connection. -/
theorem Inv.sendOther (h : s.Inv) (hidle : s.sending.txConn = none) (hclosing : s.closing = false)
    (hc : s.sending.socks k = some c) (hb : b.Fresh) (hk : k ≠ .client)
    (hfits : k.isOwn c = true ∨ c.broken = true ∨ (k.unsent b).length ≤ c.room) :
    (({ s with txNext := false } : SessionTx).sent k c (s.hand k c b)).1.settle.Inv := by
  have hended := h.of_closing hclosing
  have hcok := (h.steady hended).ok k c hc
  rw [Sending.due_idle hidle] at hcok
  have hsend : k.Sendable b := by
    cases k with
    | client => exact absurd rfl hk
    | observer => exact .inl hb.unsent_ne_nil
    | conn cid => exact .inr ⟨cid, rfl⟩
  obtain ⟨hst, hput⟩ := Sending.put_fresh (h.steady hended).ok hidle (hcok.hand (k.unsent b)) hsend
    hb.inOrder (by cases k <;> exact hfits)
  have hmid : Mid { s with sending := (s.hand k c b).1, txNext := false } :=
    h.mid_idle hidle hst nofun
  refine Mid.settle ?_
  cases k with
  | client => exact absurd rfl hk
  | observer =>
    unfold sent
    simp only
    split
    · exact hmid
    · exact hmid
  | conn cid =>
    unfold sent
    simp only
    split
    · next hres =>
      obtain ⟨hres', -⟩ | ⟨hres', -⟩ | ⟨-, hnone, hbr, hself⟩ := hput
      · cases (show Outcome.complete = .failed from hres'.symm.trans hres)
      · cases (show Outcome.parked = .failed from hres'.symm.trans hres)
      · have hget : ((s.hand (.conn cid) c b).1.socks (.conn cid)).getD c =
            c.hand (Sock.unsent (.conn cid) b) := by
          rw [show (s.hand (.conn cid) c b).1.socks (.conn cid) = _ from hself]
          rfl
        rw [hget]
        refine h.mid_idle (x := (s.hand (.conn cid) c b).1.setSock (.conn cid)
          { c.hand (Sock.unsent (.conn cid) b) with closed := true }) (n := false) hidle ?_ nofun
        exact (hst.ok.closeBroken hself hbr).steady hnone
    · exact hmid

/-- A round of `run` in which the socket takes the rest of the message. -/
theorem Inv.resume (h : s.Inv) (hended : s.ended = false) (hk : s.sending.txConn = some k)
    (hc : s.sending.socks k = some c)
    (hfits : c.broken = true ∨ (k.unsent s.sending.txBuf).length ≤ c.room)
    (hnext : k = .client → s.txNext = true → s.Fits .observer s.sending.txBuf.written) :
    (s.resume k c).Inv := by
  have hst := h.steady hended
  obtain ⟨hown, hsome⟩ := hst.own k hk c hc
  have hobs : k ≠ .observer := by
    rintro rfl
    cases hown
  have hother : ∀ j ≠ k, s.sending.due j = [] := by
    intro j hj
    rw [Sending.due, if_neg]
    rw [hk]
    exact fun he => hj (Option.some.inj he).symm
  have hleave : s.closing = true → s.leave.Inv := fun hcl =>
    Mid.leave (by rw [close_of_closing hcl]; exact h.toMid) (close_closing s)
  unfold SessionTx.resume
  by_cases htry : s.tryCount = 3
  · rw [if_pos htry]
    refine hleave (Bool.not_eq_false _ |>.mp fun hcl => ?_)
    obtain ht | ⟨ht, -⟩ := h.tries hended hcl k hk <;> omega
  rw [if_neg htry]
  simp only
  have hround : s.closing = true → Mid { s with tryCount := s.tryCount + 1 } := fun hcl =>
    ⟨h.weak, h.steady, h.ended, h.cause, fun _ hcl' => (by rw [hcl] at hcl'; cases hcl'),
      h.next⟩
  by_cases hclosed : c.closed = true
  · -- the descriptor of the socket is still in the set that select is called with
    rw [if_pos hclosed]
    have hb := (hst.ok k c hc).closed hclosed
    refine Mid.leave ?_ (close_closing _)
    by_cases hcl : s.closing = true
    · rw [close_of_closing (s := { s with tryCount := s.tryCount + 1 }) hcl]
      exact hround hcl
    · refine close_waiting (s := { s with tryCount := s.tryCount + 1 }) (by rw [hk]; rfl)
        (Bool.not_eq_true _ |>.mp hcl) ((hst.ok k c hc).cause hb) hst.ok ?_ (hother _ hobs.symm)
      intro c' hc'
      by_cases hkc : k = .client
      · subst hkc
        cases hc.symm.trans hc'
        exact .inl hb
      · exact .inr (hother _ (Ne.symm hkc))
  rw [if_neg hclosed]
  have hnext' : k ≠ .client → s.txNext = false := by
    intro hkc
    by_contra hn
    obtain hn' | ⟨hn', -⟩ := h.next hended (Bool.not_eq_false _ |>.mp hn)
    · exact hkc (Option.some.inj (hk.symm.trans hn'))
    · rw [hk] at hn'
      cases hn'
  have hput := Sending.put_parked hst.ok hk hc hown hsome hfits
  have hunb := fun hkc : k = .client => Sending.put_unbroken (s := s.sending) (c := c) (b := s.sending.txBuf)
  generalize hr : s.sending.put k c s.sending.txBuf = r at hput ⊢
  obtain ⟨x, o, b⟩ := r
  obtain ⟨hres, hnone, hok⟩ | ⟨hres, hconn, hb, hself, hok⟩ := hput
  · cases hres
    rw [show x.txConn.isSome = false by rw [hnone]; rfl]
    simp only [Bool.false_eq_true, if_false]
    cases k with
    | client =>
      have hres : (s.sending.put .client c s.sending.txBuf).2.1 = .complete := by rw [hr]
      have hwr : b = s.sending.txBuf.written := by
        have hw := Sending.put_written hres
        rwa [hr] at hw
      have hne : s.sending.txBuf.written.unsent ≠ [] := by
        have hlen := List.length_pos_iff.mpr (hsome.resolve_left (by rw [Sending.put_unbroken hres]; decide))
        rw [← List.length_pos_iff, MsgBuf.length_written]
        rw [show (Sock.unsent .client s.sending.txBuf).length = _ from MsgBuf.length_unsent _, Part.left,
          Part.left] at hlen
        omega
      subst hwr
      have hfits' : s.txNext = true → ({ s with sending := x } : SessionTx).Fits .observer
          s.sending.txBuf.written := by
        intro hn c' hc'
        refine hnext rfl hn c' ?_
        have ho := Sending.put_others s.sending .client c s.sending.txBuf
          (j := .observer) (by decide)
        rw [hr] at ho
        exact ho.symm.trans hc'
      obtain ⟨y, hy, hyok, hyidle, -⟩ := doSendNext_ok
        (s := { s with sending := x, tryCount := s.tryCount + 1 }) hok hnone hne
        (MsgBuf.inOrder_written _) hfits'
      unfold sent sentClient
      simp only [hy]
      refine Mid.settle ⟨⟨_, hyok⟩, fun _ => hyok.steady hyidle, h.ended, h.cause, ?_, (by intros; contradiction)⟩
      intro _ _ j hj
      rw [show y.txConn = none from hyidle] at hj
      cases hj
    | observer => exact absurd rfl hobs
    | conn cid =>
      unfold sent
      simp only [reduceCtorEq, if_false]
      refine Mid.settle ⟨⟨_, hok⟩, fun _ => hok.steady hnone, h.ended, h.cause, ?_, ?_⟩
      · intro _ _ j hj
        rw [show x.txConn = none from hnone] at hj
        cases hj
      · intro _ hn
        rw [hnext' (by intro h; cases h)] at hn
        cases hn
  · cases hres
    rw [show x.txConn.isSome = true by rw [show x.txConn = some k from hconn]; rfl]
    simp only [if_true]
    -- the socket has broken, and the message still waits for it
    have hdue : ∀ j ≠ k, ({ x with txBuf := b } : Sending).due j = [] := by
      intro j hj
      rw [Sending.due, if_neg]
      rw [show ({ x with txBuf := b } : Sending).txConn = some k from hconn]
      exact fun he => hj (Option.some.inj he).symm
    have hownk : ∀ j ∈ ({ x with txBuf := b } : Sending).txConn, j = k := fun j hj =>
      Option.some.inj (hj.symm.trans hconn)
    cases k with
    | client =>
      unfold sent sentClient
      simp only
      refine Mid.settle ?_
      by_cases hcl : s.closing = true
      · rw [close_of_closing (by exact hcl)]
        refine ⟨⟨_, hok _ hdue⟩, fun _ => ⟨hok _ hdue, fun j hj c' hc' => ?_⟩, h.ended, h.cause,
          fun _ hcl' => ?_, fun _ _ => .inl hconn⟩
        · obtain rfl := hownk j hj
          cases hself.symm.trans hc'
          exact ⟨rfl, .inl hb⟩
        · rw [show s.closing = false from hcl'] at hcl
          cases hcl
      · refine close_waiting ?_ (Bool.not_eq_true _ |>.mp hcl) ((hst.ok _ c hc).cause hb)
          (hok (fun _ => []) fun _ _ => rfl) (fun _ _ => .inr rfl) rfl
        show x.txConn.isSome = true
        rw [show x.txConn = some .client from hconn]
        rfl
    | observer => exact absurd rfl hobs
    | conn cid =>
      unfold sent
      have hget : (x.socks (.conn cid)).getD c = c := by
        rw [show x.socks (.conn cid) = some c from hself]
        rfl
      simp only [if_true, hget]
      have hok' := Sending.Ok.closeBroken (s := { x with txBuf := b }) (hok _ hdue) hself hb
      refine Mid.settle ⟨⟨_, hok'⟩, fun _ => ⟨hok', fun j hj c' hc' => ?_⟩, h.ended, h.cause, ?_, ?_⟩
      · obtain rfl := hownk j hj
        obtain ⟨-, rfl⟩ | ⟨hne, -⟩ := Sending.mem_setSock hc'
        · exact ⟨hown, .inl hb⟩
        · exact absurd rfl hne
      · intro _ hcl j hj
        obtain rfl := hownk j hj
        have hzero := (h.tries hended hcl _ hk).resolve_right fun ht => hclosed (ht.2 c hc)
        refine .inr ⟨congrArg (· + 1) hzero, fun c' hc' => ?_⟩
        obtain ⟨-, rfl⟩ | ⟨hne, -⟩ := Sending.mem_setSock hc'
        · rfl
        · exact absurd rfl hne
      · intro _ hn
        rw [hnext' (by intro h; cases h)] at hn
        cases hn

theorem Inv.send (h : s.Inv) (hidle : s.sending.txConn = none) (hclosing : s.closing = false)
    (hc : s.sending.socks k = some c) (hb : b.Fresh) {next strict : Bool}
    (ho : s.Orderly (.send k b next strict)) :
    let n := s.txNext || (next && k = Sock.client && (s.sending.socks .observer).isSome)
    let r := ({ s with txNext := n } : SessionTx).sent k c (s.hand k c b)
    (if strict && k = Sock.client && !r.2 then r.1.close.settle else r.1.settle).Inv := by
  rw [h.txNext hclosing hidle]
  cases k with
  | client =>
    simp only [decide_true, Bool.and_true, Bool.false_or]
    refine h.sendClient hidle hclosing hc hb (fun hn => ho ?_) strict
    rw [Bool.and_eq_true] at hn
    exact hn.1
  | observer =>
    simp only [reduceCtorEq, decide_false, Bool.and_false, Bool.false_and, Bool.false_or,
      Bool.false_eq_true, if_false]
    exact h.sendOther hidle hclosing hc hb (by decide) (.inr (ho c hc))
  | conn cid =>
    simp only [reduceCtorEq, decide_false, Bool.and_false, Bool.false_and, Bool.false_or,
      Bool.false_eq_true, if_false]
    refine h.sendOther hidle hclosing hc hb nofun ?_
    cases hown : c.own with
    | true => exact .inl hown
    | false => exact .inr (ho ⟨c, hc, hown⟩ c hc)

theorem Inv.removeSlave (h : s.Inv) (hidle : s.sending.txConn = none) (hclosing : s.closing = false)
    {connid : ℕ} (ho : s.NextFits (.closeConn s.mid connid)) :
    (s.sendClose close connid).Mid := by
  have hended := h.of_closing hclosing
  unfold sendClose
  cases hc : s.sending.socks .client with
  | none => exact h.toMid
  | some c =>
    simp only
    obtain ⟨x, n, hx, hxst, hn, -⟩ | ⟨x, hx, hxst, hxidle, hfault, hfits⟩ := sentClient_ok
      (s := { s with txNext := s.txNext || (s.sending.socks .observer).isSome }) close
      (h.steady hended).ok hidle hc (fresh_closeConn s.mid connid) fun _ => ho
    · rw [hx]
      exact h.mid_idle hidle hxst hn
    · rw [hx]
      exact close_idle (s := { s with
        sending := x, txNext := s.txNext || (s.sending.socks .observer).isSome }) hxst hxidle hclosing
        hfault (hfits _)

theorem Inv.step (h : s.Inv) (ho : s.Orderly a) (hs : s.step a = some t) : t.Inv := by
  cases a with
  | room k n =>
    obtain ⟨c, hc, rfl⟩ := Option.map_eq_some_iff.mp hs
    have hb : c.broken = true → s.fault = true := by
      obtain ⟨owed, hok⟩ := h.weak
      exact (hok k c hc).cause
    exact h.setSock hc rfl rfl rfl rfl id id hb
  | breaks k =>
    obtain ⟨c, hc, rfl⟩ := Option.map_eq_some_iff.mp hs
    exact h.setSock hc rfl rfl rfl rfl (fun _ => rfl) (fun _ => rfl) fun _ => rfl
  | command mid =>
    simp only [SessionTx.step] at hs
    split at hs <;> cases hs
    exact ⟨⟨h.weak, h.steady, h.ended, h.cause, h.tries, h.next⟩, h.idle⟩
  | addConn cid own =>
    simp only [SessionTx.step] at hs
    split at hs <;> cases hs
    next hg =>
    rw [Bool.and_eq_true] at hg
    exact h.newSock (Option.isNone_iff_eq_none.mp hg.1) own
  | addObserver =>
    simp only [SessionTx.step] at hs
    split at hs <;> cases hs
    next hg =>
    rw [Bool.and_eq_true] at hg
    exact h.newSock (Option.isNone_iff_eq_none.mp hg.1) true
  | rmConn cid =>
    simp only [SessionTx.step] at hs
    split at hs <;> cases hs
    exact h.of_socks _ fun k c hc => Sending.mem_removed hc
  | rmObserver =>
    simp only [SessionTx.step] at hs
    split at hs <;> cases hs
    have hrm := h.of_socks (Function.update s.sending.socks .observer none)
      fun k c hc => Sending.mem_removed hc
    exact ⟨⟨hrm.weak, hrm.steady, hrm.ended, hrm.cause, hrm.tries, hrm.next⟩, hrm.idle⟩
  | send k b next strict =>
    simp only [SessionTx.step] at hs
    split at hs
    · cases hs
    next c hc =>
    split at hs <;> cases hs
    next hg =>
    simp only [Bool.and_eq_true, Bool.not_eq_true', decide_eq_true_eq] at hg
    exact h.send (Option.isNone_iff_eq_none.mp hg.1.1.1) hg.1.1.2 hc hg.2 ho
  | removeSlave connid =>
    simp only [SessionTx.step] at hs
    split at hs
    · cases hs
    split at hs <;> cases hs
    next hg =>
    simp only [Bool.and_eq_true, Bool.not_eq_true'] at hg
    have hmid := (h.removeSlave (Option.isNone_iff_eq_none.mp hg.1.1) hg.1.2 ho).rmConns false
    exact Mid.settle ⟨hmid.weak, hmid.steady, hmid.ended, hmid.cause, hmid.tries, hmid.next⟩
  | shutdown =>
    simp only [SessionTx.step] at hs
    split at hs <;> cases hs
    next hg =>
    simp only [Bool.and_eq_true, Bool.not_eq_true'] at hg
    have hst := h.steady (h.of_closing hg.2)
    refine (close_idle (s := { s with fault := true }) ?_ (Option.isNone_iff_eq_none.mp hg.1) hg.2 rfl
      ho).settle
    exact ⟨fun k c hc => (hst.ok k c hc).mono fun _ => rfl, hst.own⟩
  | resume =>
    simp only [SessionTx.step] at hs
    split at hs
    · cases hs
    next k hk =>
    split at hs
    · cases hs
    next c hc =>
    split at hs <;> cases hs
    next hended =>
    obtain ⟨hfits, hnext⟩ := ho k hk
    exact h.resume (Bool.not_eq_true _ |>.mp hended) hk hc (hfits c hc) hnext
  | timeout => exact absurd ho id

theorem inv_start : Inv {} := by
  have hok : ({} : Sending).Ok false ({} : Sending).due := by
    intro k c hc
    have hmem : c ∈ Function.update (fun _ => none) Sock.client (some ({} : TxSock)) k := hc
    by_cases hk : k = .client
    · rw [hk, Function.update_self] at hmem
      cases hmem
      exact ⟨List.prefix_rfl, fun _ => rfl, nofun, nofun⟩
    · rw [Function.update_of_ne hk] at hmem
      cases hmem
  exact ⟨⟨⟨_, hok⟩, fun _ => hok.steady rfl, nofun, nofun, fun _ _ _ hk => (nomatch hk), nofun⟩,
    fun _ _ => ⟨rfl, rfl⟩⟩

theorem Inv.sends (h : s.Inv) : s.Sends := by
  obtain ⟨owed, hok⟩ := h.weak
  refine ⟨fun k c hc => (hok k c hc).first, fun hidle hclosing k c hc hb => ?_, h.cause,
    fun k c hc => (hok k c hc).closed⟩
  have hdue := ((h.steady (h.of_closing hclosing)).ok k c hc).due hb
  rwa [Sending.due_idle hidle, List.append_nil] at hdue

/-- What a session sends when the observer and its connections take each message at once, and the others in
two parts at most. -/
theorem sends_of_orderly {tr : List (TxAct × SessionTx)}
    (hrun : IsRun (fun s a t => step s a = some t) {} tr)
    (hord : EveryStep (fun s a _ => s.Orderly a) {} tr) : EveryState Sends {} tr :=
  (hrun.everyState (fun _ _ _ h hs ho => h.step ho hs) inv_start hord).mono fun _ h => h.sends

instance (s : SessionTx) (k : Sock) (b : MsgBuf) : Decidable (s.Takes k b) :=
  inferInstanceAs (Decidable (∃ c ∈ s.sending.socks k, _ ∧ _ ≤ _))

instance (s : SessionTx) (k : Sock) (b : MsgBuf) : Decidable (s.Fits k b) :=
  inferInstanceAs (Decidable (∀ c ∈ s.sending.socks k, _ ∨ _ ≤ _))

instance (s : SessionTx) (b : MsgBuf) : Decidable (s.NextFits b) :=
  inferInstanceAs (Decidable (_ → _))

instance (s : SessionTx) : (a : TxAct) → Decidable (s.Orderly a)
  | .send .client _ _ _ => inferInstanceAs (Decidable (_ → NextFits _ _))
  | .send .observer _ _ _ => inferInstanceAs (Decidable (Fits _ _ _))
  | .send (.conn _) _ _ _ => inferInstanceAs (Decidable ((∃ c ∈ _, _ = _) → Fits _ _ _))
  | .removeSlave _ | .shutdown => inferInstanceAs (Decidable (NextFits _ _))
  | .resume => inferInstanceAs (Decidable (∀ k ∈ s.sending.txConn, _ ∧ (_ → _ → Fits _ _ _)))
  | .timeout => .isFalse id
  | .room _ _ | .breaks _ | .command _ | .addConn _ _ | .addObserver | .rmConn _ | .rmObserver =>
    .isTrue trivial

/-- A message that is forwarded, with a payload of 2 bytes. -/
def forwarded : MsgBuf :=
  { hdr := { mem := overwrite (fun _ => 0) 0 [0, 10, 0, 1, 0, 0, 0, 5], len := 8 }
    pay := { mem := overwrite (fun _ => 0) 0 [7, 8], len := 2 } }

/-- The client takes a message in two parts and the observer after it, and a connection of the session takes
one byte at a time. -/
def twoParts : List TxAct :=
  [.addObserver, .addConn 5 true, .room .client 3, .room .observer 20, .send .client forwarded true true,
    .room .client 20, .resume, .room (.conn 5) 1, .send (.conn 5) forwarded false false,
    .room (.conn 5) 1, .resume]

theorem twoParts_sends : EveryState Sends {} (runOf step {} twoParts) ∧
    ((lastState {} (runOf step {} twoParts)).sending.socks .observer).map TxSock.out =
      some [0, 10, 0, 10, 0, 0, 0, 5, 7, 8] ∧
    ((lastState {} (runOf step {} twoParts)).sending.socks (.conn 5)).map TxSock.out = some [7, 8] :=
  ⟨sends_of_orderly (isRun_runOf _ _ _) (by decide), by decide, by decide⟩

/-- A client that takes a message in three parts: after the second the session is closed. -/
theorem second_part_closes : ¬∀ tr : List (TxAct × SessionTx),
    IsRun (fun s a t => step s a = some t) {} tr → EveryState Sends {} tr := by
  intro h
  have hsends := (h _ (isRun_runOf step {} [.room .client 3, .send .client forwarded false true,
    .room .client 3, .resume])).last
  have hfault := hsends.session (by decide)
  revert hfault
  decide

end SessionTx

end OnlDaemons.Proxy

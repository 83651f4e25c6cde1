import OnlDaemons.Proxy.MsgBuf
import Mathlib.Logic.Function.Basic

/-!
# Sockets and the message that waits

A message that a socket does not take at once waits for it. One message can wait at a time; the sockets,
that message and its socket are what the functions on one write change.

## Main definitions

- `TxSock` — a socket with the messages that were handed over for it and the bytes it has taken
- `Sending`, `Sending.put` — the write of `doSend`

## Main results

- `Sending.put_spec` — what one write leaves due
- `Sending.put_fresh`, `Sending.put_parked` — a new message, and the rest of one that waits
-/

namespace OnlDaemons.Proxy
open OnlDaemons.Lib

/-- The sockets of a session. -/
inductive Sock
  | client
  | observer
  | conn (cid : ℕ)
deriving DecidableEq

/-- A connection is sent the payload of a message only. -/
def Sock.unsent : Sock → MsgBuf → List UInt8
  | .conn _, b => b.pay.data
  | _, b => b.unsent

def Sock.write : Sock → MsgBuf → Transfer → MsgStat × MsgBuf × List UInt8
  | .conn _, b, r => b.writePload r
  | _, b, r => b.writemsg r

/-- The messages that were handed over for a socket and the bytes it has taken. It can take `room` bytes
more, or none if it is `broken`. A connection is the session's `own` or one of the observer. -/
structure TxSock where
  handed : List (List UInt8) := []
  out : List UInt8 := []
  room : ℕ := 0
  own : Bool := true
  broken : Bool := false
  closed : Bool := false

namespace TxSock

/-- What `writev` does when there are so many bytes to write. -/
def accept (c : TxSock) (asked : ℕ) : Transfer :=
  if c.broken then .error
  else if min c.room asked = 0 then .again
  else .bytes (min c.room asked)

def hand (c : TxSock) (msg : List UInt8) : TxSock := { c with handed := c.handed ++ [msg] }

def take (c : TxSock) (bs : List UInt8) : TxSock :=
  { c with out := c.out ++ bs, room := c.room - bs.length }

end TxSock

/-- The session whose `doSend` it is, is this one. -/
def Sock.isOwn : Sock → TxSock → Bool
  | .client, _ => true
  | .observer, _ => false
  | .conn _, c => c.own

/-- `txConn_` and `txBuf_` are the socket that a message waits for and its buffer. -/
structure Sending where
  socks : Sock → Option TxSock := Function.update (fun _ => none) .client (some {})
  txConn : Option Sock := none
  txBuf : MsgBuf := {}

/-- How a `doSend` has ended. -/
inductive Outcome
  | complete
  | parked
  | failed
deriving DecidableEq

namespace Sending

def setSock (s : Sending) (k : Sock) (c : TxSock) : Sending :=
  { s with socks := Function.update s.socks k (some c) }

/-- `setTxHandler`. An observer leaves it to the session that it observes. -/
def setTxHandler (s : Sending) (k : Sock) (c : TxSock) (b : MsgBuf) : Option Sending :=
  if s.txConn.isSome || c.closed then none else some { s with txConn := some k, txBuf := b }

/-- `clearTxHandler`. That of the observer clears a `txConn_` of its own, which is never set. -/
def clearTxHandler (s : Sending) (own : Bool) : Sending :=
  if own then { s with txConn := none, txBuf := {} } else s

/-- The write and what follows it in `doSend`, of a session and of a connection. -/
def put (s : Sending) (k : Sock) (c : TxSock) (b : MsgBuf) : Sending × Outcome × MsgBuf :=
  match k.write b (c.accept (k.unsent b).length) with
  | (.dataComplete, b, bs) => ((s.setSock k (c.take bs)).clearTxHandler (k.isOwn c), .complete, b)
  | (.dataPartial, b, bs) =>
    match (s.setSock k (c.take bs)).setTxHandler k c b with
    | some s => (s, .parked, b)
    | none => (s.setSock k (c.take bs), .failed, b)
  | (.endOfFile, b, _) | (.error, b, _) => (s.setSock k c, .failed, b)

end Sending

/-! ### One socket -/

/-- What the socket has taken and what is `due` to it are its messages. -/
structure TxSock.Ok (c : TxSock) (fault : Bool) (due : List UInt8) : Prop where
  first : c.out <+: c.handed.flatten
  due : c.broken = false → c.out ++ due = c.handed.flatten
  closed : c.closed = true → c.broken = true
  cause : c.broken = true → fault = true

/-- A message with something to send; the payload of one for a connection may be empty. -/
def Sock.Sendable (k : Sock) (b : MsgBuf) : Prop := k.unsent b ≠ [] ∨ ∃ cid, k = .conn cid

variable {k : Sock} {c : TxSock} {b : MsgBuf} {fault : Bool}

theorem TxSock.Ok.hand (h : c.Ok fault []) (msg : List UInt8) : (c.hand msg).Ok fault msg := by
  have hflat : (c.handed ++ [msg]).flatten = c.handed.flatten ++ msg := by
    rw [List.flatten_append, List.flatten_singleton]
  refine ⟨?_, fun hb => ?_, h.closed, h.cause⟩
  · show c.out <+: (c.handed ++ [msg]).flatten
    rw [hflat]
    exact h.first.trans (List.prefix_append _ _)
  · show c.out ++ msg = (c.handed ++ [msg]).flatten
    rw [hflat, ← h.due hb, List.append_nil]

theorem TxSock.Ok.take {bs rest : List UInt8} (h : c.Ok fault (bs ++ rest)) (hb : c.broken = false) :
    (c.take bs).Ok fault rest := by
  have hall : c.out ++ bs ++ rest = c.handed.flatten := by
    rw [List.append_assoc, h.due hb]
  refine ⟨⟨rest, hall⟩, fun _ => hall, h.closed, h.cause⟩

/-- Nothing more is due to a socket that has broken. -/
theorem TxSock.Ok.of_broken {d : List UInt8} (h : c.Ok fault d) (hb : c.broken = true)
    (d' : List UInt8) : c.Ok fault d' :=
  ⟨h.first, fun hb' => absurd hb' (by rw [hb]; decide), h.closed, h.cause⟩

theorem TxSock.Ok.mono {fault' : Bool} {d : List UInt8} (h : c.Ok fault d)
    (hf : fault = true → fault' = true) : c.Ok fault' d :=
  ⟨h.first, h.due, h.closed, fun hb => hf (h.cause hb)⟩

theorem TxSock.accept_cases (c : TxSock) {n : ℕ} (hn : c.broken = true ∨ n ≠ 0) :
    c.broken = true ∧ c.accept n = .error ∨
    c.broken = false ∧ n ≤ c.room ∧ c.accept n = .bytes n ∨
    c.broken = false ∧ c.room < n ∧ c.accept n = if c.room = 0 then .again else .bytes c.room := by
  unfold TxSock.accept
  by_cases hb : c.broken = true
  · exact .inl ⟨hb, if_pos hb⟩
  rw [if_neg hb]
  have hn := hn.resolve_left hb
  rw [Bool.not_eq_true] at hb
  by_cases hle : n ≤ c.room
  · exact .inr (.inl ⟨hb, hle, by rw [Nat.min_eq_right hle, if_neg hn]⟩)
  · exact .inr (.inr ⟨hb, Nat.lt_of_not_le hle, by rw [Nat.min_eq_left (by omega)]⟩)

/-- What a write does: all is taken, or a part, or the socket has broken. `left` is what of a message is for
the socket. -/
def TxSock.Wrote (c : TxSock) (left : MsgBuf → List UInt8) (b : MsgBuf)
    (w : MsgStat × MsgBuf × List UInt8) : Prop :=
  (w.1 = .dataComplete ∧ w.2.2 = left b ∧
    (c.broken = false ∧ (left b).length ≤ c.room ∨ left b = [])) ∨
  (w.1 = .dataPartial ∧ w.2.2 = (left b).take c.room ∧ c.broken = false ∧
    c.room < (left b).length ∧ (b.InOrder → left w.2.1 = (left b).drop c.room)) ∨
  ((w.1 = .endOfFile ∨ w.1 = .error) ∧ c.broken = true)

theorem TxSock.writemsg_wrote (c : TxSock) (hne : c.broken = true ∨ b.unsent ≠ []) :
    c.Wrote MsgBuf.unsent b (b.writemsg (c.accept b.unsent.length)) := by
  obtain ⟨hb, ha⟩ | ⟨hb, hle, ha⟩ | ⟨hb, hlt, ha⟩ := c.accept_cases
    (hne.imp_right (mt List.length_eq_zero_iff.mp))
  · rw [ha]
    exact .inr (.inr ⟨.inr rfl, hb⟩)
  · rw [ha, MsgBuf.writemsg, if_pos rfl]
    exact .inl ⟨rfl, rfl, .inl ⟨hb, hle⟩⟩
  · refine .inr (.inl ?_)
    by_cases hz : c.room = 0
    · rw [ha, if_pos hz, hz]
      exact ⟨rfl, rfl, hb, hz ▸ hlt, fun _ => rfl⟩
    · rw [ha, if_neg hz, MsgBuf.writemsg, if_neg hlt.ne]
      exact ⟨rfl, rfl, hb, hlt, fun hord => MsgBuf.unsent_seek hord _⟩

theorem TxSock.writePload_wrote (c : TxSock) (b : MsgBuf) :
    c.Wrote (fun b => b.pay.data) b (b.writePload (c.accept b.pay.data.length)) := by
  have hlen : b.pay.data.length = b.pay.left := MsgBuf.length_data _
  unfold MsgBuf.writePload
  by_cases hz : b.pay.left = 0
  · have hnil : b.pay.data = [] := List.length_eq_zero_iff.mp (by rw [hlen, hz])
    rw [if_pos hz]
    exact .inl ⟨rfl, hnil.symm, .inr hnil⟩
  rw [if_neg hz]
  obtain ⟨hb, ha⟩ | ⟨hb, hle, ha⟩ | ⟨hb, hlt, ha⟩ := c.accept_cases (n := b.pay.data.length)
    (.inr (by rw [hlen]; exact hz))
  · rw [ha]
    exact .inr (.inr ⟨.inr rfl, hb⟩)
  · rw [ha]
    simp only [if_pos hlen]
    exact .inl ⟨rfl, rfl, .inl ⟨hb, hle⟩⟩
  · refine .inr (.inl ?_)
    by_cases hr : c.room = 0
    · rw [ha, if_pos hr, hr]
      exact ⟨rfl, rfl, hb, hr ▸ hlt, fun _ => rfl⟩
    · have hne : c.room ≠ b.pay.left := by
        rw [← hlen]
        exact hlt.ne
      rw [ha, if_neg hr]
      simp only [if_neg hne]
      exact ⟨trivial, trivial, hb, hlt, fun _ => MsgBuf.data_seek _ _⟩

theorem Sock.write_wrote (c : TxSock) (hs : c.broken = true ∨ k.Sendable b) :
    c.Wrote k.unsent b (k.write b (c.accept (k.unsent b).length)) := by
  cases k with
  | client => exact c.writemsg_wrote (hs.imp_right fun h => h.resolve_right nofun)
  | observer => exact c.writemsg_wrote (hs.imp_right fun h => h.resolve_right nofun)
  | conn cid => exact c.writePload_wrote b

namespace Sending

/-- Of each socket, `due` is what it has not taken yet. -/
def Ok (s : Sending) (fault : Bool) (due : Sock → List UInt8) : Prop :=
  ∀ k, ∀ c ∈ s.socks k, c.Ok fault (due k)

/-- How `put` ends, with what is due to the socket afterwards. -/
inductive PutTo (s : Sending) (k : Sock) (c : TxSock) (b : MsgBuf) :
    List UInt8 → Sending × Outcome × MsgBuf → Prop
  | complete {t : Sending} {b' : MsgBuf} (conn : t.txConn = if k.isOwn c then none else s.txConn)
      (fits : c.broken = false ∧ (k.unsent b).length ≤ c.room ∨ k.unsent b = []) :
      PutTo s k c b [] (t, .complete, b')
  | parked {t : Sending} {b' : MsgBuf} {d : List UInt8} (idle : s.txConn = none)
      (conn : t.txConn = some k) (buf : t.txBuf = b') (rest : b.InOrder → d = k.unsent b')
      (some : d ≠ []) (own : ∀ c' ∈ t.socks k, k.isOwn c' = k.isOwn c) (broken : c.broken = false)
      (room : c.room < (k.unsent b).length) : PutTo s k c b d (t, .parked, b')
  | failed {t : Sending} {b' : MsgBuf} {d : List UInt8} (conn : t.txConn = s.txConn)
      (why : c.broken = true ∧ t.socks k = some c ∨
        c.broken = false ∧ s.txConn.isSome = true ∧ c.room < (k.unsent b).length) :
      PutTo s k c b d (t, .failed, b')

/-- What of the message that waits is left for its socket. -/
def due (s : Sending) (k : Sock) : List UInt8 := if s.txConn = some k then k.unsent s.txBuf else []

variable {s : Sending} {owed : Sock → List UInt8}

theorem Ok.setSock (h : s.Ok fault owed) {d : List UInt8} (hc : c.Ok fault d) :
    (s.setSock k c).Ok fault (Function.update owed k d) := by
  intro j c' hc'
  have hmem : c' ∈ Function.update s.socks k (some c) j := hc'
  by_cases hj : j = k
  · rw [hj, Function.update_self] at hmem ⊢
    cases hmem
    exact hc
  · rw [Function.update_of_ne hj] at hmem ⊢
    exact h j c' hmem

theorem clearTxHandler_socks (s : Sending) (own : Bool) : (s.clearTxHandler own).socks = s.socks := by
  unfold clearTxHandler
  split <;> rfl

theorem clearTxHandler_txConn (s : Sending) (own : Bool) :
    (s.clearTxHandler own).txConn = if own then none else s.txConn := by
  unfold clearTxHandler
  split <;> rfl

theorem put_others (s : Sending) (k : Sock) (c : TxSock) (b : MsgBuf) {j : Sock} (hj : j ≠ k) :
    (s.put k c b).1.socks j = s.socks j := by
  have hset : ∀ c', (s.setSock k c').socks j = s.socks j := fun c' => Function.update_of_ne hj _ _
  unfold put
  split
  · rw [clearTxHandler_socks]
    exact hset _
  · unfold setTxHandler
    split
    · next hs =>
      split at hs <;> cases hs
      exact hset _
    · exact hset _
  · exact hset _
  · exact hset _

/-- One write on a socket, of a message that is due to it. -/
theorem put_spec (h : s.Ok fault owed) (hc : c.Ok fault (k.unsent b))
    (hs : c.broken = true ∨ k.Sendable b) :
    ∃ d, (s.put k c b).1.Ok fault (Function.update owed k d) ∧ PutTo s k c b d (s.put k c b) := by
  have hw := Sock.write_wrote c hs
  unfold put
  generalize k.write b (c.accept (k.unsent b).length) = w at hw ⊢
  obtain ⟨stat, b', bs⟩ := w
  obtain ⟨hstat, hbs, hfits⟩ | ⟨hstat, hbs, hb, hlt, hrest⟩ | ⟨hstat, hb⟩ := hw
  · cases hstat
    simp only at hbs ⊢
    refine ⟨[], ?_, .complete (clearTxHandler_txConn _ _) hfits⟩
    have hok : (c.take bs).Ok fault [] := by
      obtain ⟨hb, -⟩ | hnil := hfits
      · exact TxSock.Ok.take (by rwa [hbs, List.append_nil]) hb
      · rw [hbs, hnil]
        rw [hnil] at hc
        refine ⟨?_, fun hb => ?_, hc.closed, hc.cause⟩
        · show c.out ++ [] <+: c.handed.flatten
          rw [List.append_nil]
          exact hc.first
        · show c.out ++ [] ++ [] = c.handed.flatten
          rw [List.append_nil]
          exact hc.due hb
    intro j c' hc'
    rw [clearTxHandler_socks] at hc'
    exact h.setSock hok j c' hc'
  · cases hstat
    simp only at hbs ⊢
    have hok : (c.take bs).Ok fault ((k.unsent b).drop c.room) := by
      refine TxSock.Ok.take ?_ hb
      rwa [hbs, List.take_append_drop]
    refine ⟨(k.unsent b).drop c.room, ?_⟩
    unfold setTxHandler
    split
    · next t ht =>
      split at ht <;> cases ht
      next hg =>
      rw [Bool.or_eq_true, not_or, Bool.not_eq_true, Option.isSome_eq_false_iff] at hg
      refine ⟨h.setSock hok, .parked (Option.isNone_iff_eq_none.mp hg.1) rfl rfl
        (fun hord => (hrest hord).symm) ?_ ?_ hb hlt⟩
      · intro hnil
        have hlen := List.drop_eq_nil_iff.mp hnil
        omega
      · intro c' hc'
        have hmem : c' ∈ Function.update s.socks k (some (c.take bs)) k := hc'
        rw [Function.update_self] at hmem
        cases hmem
        cases k <;> rfl
    · next ht =>
      split at ht
      · next hg =>
        rw [Bool.or_eq_true] at hg
        refine ⟨h.setSock hok, .failed rfl (hg.elim (fun hsome => .inr ⟨hb, hsome, hlt⟩) fun hclosed => ?_)⟩
        exact absurd (hc.closed hclosed) (by rw [hb]; decide)
      · cases ht
  · have hok : c.Ok fault [] := hc.of_broken hb _
    have hself : (s.setSock k c).socks k = some c := Function.update_self _ _ _
    obtain rfl | rfl := hstat
    · exact ⟨[], h.setSock hok, .failed rfl (.inl ⟨hb, hself⟩)⟩
    · exact ⟨[], h.setSock hok, .failed rfl (.inl ⟨hb, hself⟩)⟩

theorem due_idle (h : s.txConn = none) (k : Sock) : s.due k = [] := by
  rw [due, h, if_neg nofun]

theorem Ok.congr (h : s.Ok fault owed) {owed' : Sock → List UInt8}
    (hd : ∀ k, ∀ c ∈ s.socks k, c.broken = true ∨ owed' k = owed k) : s.Ok fault owed' := by
  intro k c hc
  obtain hb | he := hd k c hc
  · exact (h k c hc).of_broken hb _
  · rw [he]
    exact h k c hc

/-- Each socket has taken its messages but for the rest of the one that waits, and the session itself has
to send that. -/
structure Steady (s : Sending) (fault : Bool) : Prop where
  ok : s.Ok fault s.due
  own : ∀ k ∈ s.txConn, ∀ c ∈ s.socks k,
    k.isOwn c = true ∧ (c.broken = true ∨ k.unsent s.txBuf ≠ [])

theorem Ok.steady (h : s.Ok fault s.due) (hidle : s.txConn = none) : s.Steady fault :=
  ⟨h, fun k hk => by rw [hidle] at hk; cases hk⟩

/-- A message for a socket to which nothing was due, when no message waits. The socket takes it at once, or
it belongs to the session itself. -/
theorem put_fresh (h : s.Ok fault s.due) (hidle : s.txConn = none) (hc : c.Ok fault (k.unsent b))
    (hs : k.Sendable b) (hord : b.InOrder)
    (hfits : k.isOwn c = true ∨ c.broken = true ∨ (k.unsent b).length ≤ c.room) :
    (s.put k c b).1.Steady fault ∧
      ((s.put k c b).2.1 = .complete ∧ (s.put k c b).1.txConn = none ∧
          (c.broken = false ∧ (k.unsent b).length ≤ c.room ∨ k.unsent b = []) ∨
        (s.put k c b).2.1 = .parked ∧ (s.put k c b).1.txConn = some k ∧ k.isOwn c = true ∨
        (s.put k c b).2.1 = .failed ∧ (s.put k c b).1.txConn = none ∧ c.broken = true ∧
          (s.put k c b).1.socks k = some c) := by
  obtain ⟨d, hok, hput⟩ := put_spec h hc (.inr hs)
  generalize s.put k c b = r at hok hput ⊢
  have hzero : ∀ t : Sending, t.txConn = none → t.Ok fault (Function.update s.due k []) →
      t.Ok fault t.due := by
    intro t ht hok
    refine hok.congr fun j _ _ => .inr ?_
    rw [due_idle ht]
    by_cases hj : j = k
    · rw [hj, Function.update_self]
    · rw [Function.update_of_ne hj, due_idle hidle]
  cases hput with
  | complete hconn hfit =>
    have hnone : (if k.isOwn c then none else s.txConn) = none := by rw [hidle, ite_self]
    rw [hnone] at hconn
    exact ⟨(hzero _ hconn hok).steady hconn, .inl ⟨rfl, hconn, hfit⟩⟩
  | parked hnone hconn hbuf hrest hsome hown hb hlt =>
    rename_i t b'
    have hkown : k.isOwn c = true := by
      obtain h | h | h := hfits
      · exact h
      · exact absurd h (by rw [hb]; decide)
      · omega
    refine ⟨⟨hok.congr fun j _ _ => .inr ?_, fun j hj c' hc' => ?_⟩, .inr (.inl ⟨rfl, hconn, hkown⟩)⟩
    · show (if t.txConn = some j then j.unsent t.txBuf else []) = _
      rw [hconn, hbuf]
      by_cases hj : j = k
      · rw [hj, if_pos rfl, Function.update_self, hrest hord]
      · rw [Function.update_of_ne hj, due_idle hidle, if_neg fun he => hj (Option.some.inj he).symm]
    · obtain rfl : j = k := Option.some.inj (hj.symm.trans hconn)
      refine ⟨by rw [hown c' hc', hkown], .inr ?_⟩
      show j.unsent t.txBuf ≠ []
      rw [hbuf, ← hrest hord]
      exact hsome
  | failed hconn hwhy =>
    obtain ⟨hb, hall⟩ | ⟨-, hsome, -⟩ := hwhy
    · have hnone := hconn.trans hidle
      refine ⟨(hzero _ hnone (hok.congr fun j c' hc' => ?_)).steady hnone,
        .inr (.inr ⟨rfl, hconn.trans hidle, hb, hall⟩)⟩
      by_cases hj : j = k
      · rw [hj, hall] at hc'
        cases hc'
        exact .inl hb
      · exact .inr (by rw [Function.update_of_ne hj, Function.update_of_ne hj])
    · rw [hidle] at hsome
      cases hsome

/-- The rest of the message that waits. The socket takes all of it. -/
theorem put_parked (h : s.Ok fault s.due) (hk : s.txConn = some k) (hc : c ∈ s.socks k)
    (hown : k.isOwn c = true) (hs : c.broken = true ∨ k.unsent s.txBuf ≠ [])
    (hfits : c.broken = true ∨ (k.unsent s.txBuf).length ≤ c.room) :
    ((s.put k c s.txBuf).2.1 = .complete ∧ (s.put k c s.txBuf).1.txConn = none ∧
        (s.put k c s.txBuf).1.Ok fault (s.put k c s.txBuf).1.due) ∨
      ((s.put k c s.txBuf).2.1 = .failed ∧ (s.put k c s.txBuf).1.txConn = some k ∧
        c.broken = true ∧ (s.put k c s.txBuf).1.socks k = some c ∧
        ∀ owed : Sock → List UInt8, (∀ j ≠ k, owed j = []) → (s.put k c s.txBuf).1.Ok fault owed) := by
  have hdue : c.Ok fault (k.unsent s.txBuf) := by
    have hc' := h k c hc
    rwa [due, if_pos hk] at hc'
  have hother : ∀ j ≠ k, s.due j = [] := by
    intro j hj
    rw [due, if_neg]
    rw [hk]
    exact fun he => hj (Option.some.inj he).symm
  obtain ⟨d, hok, hput⟩ := put_spec h hdue (hs.imp_right Or.inl)
  generalize s.put k c s.txBuf = r at hok hput ⊢
  cases hput with
  | complete hconn _ =>
    rw [hown, if_pos rfl] at hconn
    refine .inl ⟨rfl, hconn, hok.congr fun j _ _ => .inr ?_⟩
    rw [due_idle hconn]
    by_cases hj : j = k
    · rw [hj, Function.update_self]
    · rw [Function.update_of_ne hj, hother j hj]
  | parked hnone _ _ _ _ _ _ _ =>
    rw [hnone] at hk
    cases hk
  | failed hconn hwhy =>
    obtain ⟨hb, hall⟩ | ⟨hb, -, hlt⟩ := hwhy
    · refine .inr ⟨rfl, hconn.trans hk, hb, hall, fun owed howed => hok.congr fun j c' hc' => ?_⟩
      by_cases hj : j = k
      · rw [hj, hall] at hc'
        cases hc'
        exact .inl hb
      · exact .inr (by rw [Function.update_of_ne hj, hother j hj, howed j hj])
    · rw [hb] at hfits
      have hle := hfits.resolve_left nofun
      omega

theorem put_complete (h : (s.put k c b).2.1 = .complete) :
    (k.write b (c.accept (k.unsent b).length)).1 = .dataComplete ∧
      (s.put k c b).2.2 = (k.write b (c.accept (k.unsent b).length)).2.1 := by
  unfold put at h ⊢
  generalize k.write b (c.accept (k.unsent b).length) = w at h ⊢
  obtain ⟨stat, b', bs⟩ := w
  cases stat with
  | dataComplete => exact ⟨rfl, rfl⟩
  | dataPartial =>
    simp only at h
    split at h <;> cases h
  | endOfFile => cases h
  | error => cases h

theorem put_written (h : (s.put .client c b).2.1 = .complete) : (s.put .client c b).2.2 = b.written := by
  obtain ⟨hw, hb⟩ := put_complete h
  rw [hb]
  exact MsgBuf.writemsg_written hw

theorem put_unbroken (h : (s.put .client c b).2.1 = .complete) : c.broken = false := by
  by_contra hb
  rw [Bool.not_eq_false] at hb
  have hw : (b.writemsg (c.accept b.unsent.length)).1 = .dataComplete := (put_complete h).1
  rw [TxSock.accept, if_pos hb] at hw
  cases hw

theorem mem_setSock {d : TxSock} {j : Sock} (hd : d ∈ (s.setSock k c).socks j) :
    j = k ∧ d = c ∨ j ≠ k ∧ d ∈ s.socks j := by
  have hmem : d ∈ Function.update s.socks k (some c) j := hd
  by_cases hj : j = k
  · rw [hj, Function.update_self] at hmem
    cases hmem
    exact .inl ⟨hj, rfl⟩
  · rw [Function.update_of_ne hj] at hmem
    exact .inr ⟨hj, hmem⟩

/-- A socket that has broken is closed. -/
theorem Ok.closeBroken (h : s.Ok fault owed) (hself : s.socks k = some c) (hb : c.broken = true) :
    (s.setSock k { c with closed := true }).Ok fault owed := by
  intro j d hd
  obtain ⟨rfl, rfl⟩ | ⟨-, hd⟩ := mem_setSock hd
  · have hc := h j c hself
    exact ⟨hc.first, hc.due, fun _ => hb, hc.cause⟩
  · exact h j d hd

theorem mem_removed {j : Sock} (hc : c ∈ Function.update s.socks k none j) :
    c ∈ s.socks j := by
  by_cases hj : j = k
  · rw [hj, Function.update_self] at hc
    cases hc
  · rwa [Function.update_of_ne hj] at hc

end Sending

end OnlDaemons.Proxy

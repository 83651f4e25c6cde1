import OnlDaemons.Lib.Run
import OnlDaemons.Shared.Rendezvous
import Mathlib.Logic.Function.Basic

/-!
# Matching responses to requests

Any number of threads send requests and wait for their responses, and any number of dispatcher
threads hand over the responses that arrive. A dispatcher thread looks the request up under the
lock of the map and calls it back after it has given that lock up.

## Main definitions

- `Dispatch` — the registry, the request objects and the dispatcher threads
- `Step` — what one thread does between two points where another may run
- `Delivered` — a callback reaches its request inside `send_and_wait`, and what that returns is a
  response to it
- `Orderly` — the steps that keep it so
- `delivered_of_orderly` — in a run of orderly steps every response reaches its request
-/

namespace OnlDaemons.Dispatcher

open OnlDaemons.Lib OnlDaemons.Shared

/-- Where the owner of a request object is: before or after `send_and_wait`, or inside it with
the sequence number taken, the marker in the map, the message sent, the wait over, the marker
out of the map. -/
inductive Phase where
  | absent
  | idle
  | numbered
  | registered
  | sent
  | waited (got_reply : Bool)
  | cleared (got_reply : Bool)
deriving DecidableEq, Repr

/-- Inside `send_and_wait`. -/
def Phase.Inside : Phase → Prop
  | absent | idle => False
  | _ => True

/-- Inside, and the marker of the request not yet reset. -/
def Phase.Marked : Phase → Prop
  | absent | idle | cleared _ => False
  | _ => True

/-- The reply of a peer: the marker it copied, and which of all calls of `send_and_wait` sent the
request it answers. Only the marker is on the wire. -/
structure Reply where
  rend : Rendezvous
  answers : ℕ
deriving DecidableEq, Repr

structure Req where
  rend : Rendezvous
  received_response : Bool
  resp : Option Reply
  phase : Phase
  /-- The number of the call under way, or of the last one. -/
  call : ℕ
deriving DecidableEq, Repr

/-- A dispatcher thread between its look-up and the end of its callback. `stored` says whether the
callback has set `resp` already. -/
structure Calling where
  resp : Reply
  req : ℕ
  stored : Bool
deriving DecidableEq, Repr

structure Dispatch where
  next_seq : UInt8 → UInt32
  rend_map : UInt8 × UInt32 → Option ℕ
  req : ℕ → Req
  calling : ℕ → Option Calling
  /-- The marker of each call of `send_and_wait` so far. -/
  calls : List Rendezvous

namespace Dispatch

def setReq (s : Dispatch) (o : ℕ) (r : Req) : Dispatch := { s with req := Function.update s.req o r }

def setCalling (s : Dispatch) (t : ℕ) (c : Option Calling) : Dispatch :=
  { s with calling := Function.update s.calling t c }

/-- The constructor of a request. -/
def newReq : Req where
  rend := Rendezvous.new 0 0
  received_response := false
  resp := none
  phase := .idle
  call := 0

/-- No request has been made. -/
def initial : Dispatch where
  next_seq := fun _ => 1
  rend_map := fun _ => none
  req := fun _ => { newReq with phase := .absent }
  calling := fun _ => none
  calls := []

end Dispatch

inductive Action where
  | create (o : ℕ)
  | number (o : ℕ) (op : UInt8)
  | register (o : ℕ)
  | send (o : ℕ)
  | sendFails (o : ℕ)
  | wake (o : ℕ)
  | timeout (o : ℕ)
  | clear (o : ℕ)
  | return (o : ℕ) (result : Option Reply)
  | delete (o : ℕ)
  | lookup (t : ℕ) (resp : Reply)
  | store (t : ℕ)
  | signal (t : ℕ)
deriving DecidableEq, Repr

open Dispatch in
/-- What a thread does while it holds a lock, or between two of its locks. -/
inductive Step : Dispatch → Action → Dispatch → Prop
  | create {s : Dispatch} {o : ℕ} (h : (s.req o).phase = .absent) :
    Step s (.create o) (s.setReq o newReq)
  -- the first half of `register_rendezvous`, under the lock of the sequence numbers
  | number {s : Dispatch} {o : ℕ} {op : UInt8} (h : (s.req o).phase = .idle) :
    Step s (.number o op)
      { s.setReq o { s.req o with
          rend := Rendezvous.new op (s.next_seq op)
          phase := .numbered
          call := s.calls.length } with
        next_seq := Function.update s.next_seq op (s.next_seq op + 1)
        calls := s.calls ++ [Rendezvous.new op (s.next_seq op)] }
  -- the second half, under the lock of the map
  | register {s : Dispatch} {o : ℕ} (h : (s.req o).phase = .numbered) :
    Step s (.register o)
      { s.setReq o { s.req o with phase := .registered } with
        rend_map := Function.update s.rend_map (s.req o).rend.key (some o) }
  | send {s : Dispatch} {o : ℕ} (h : (s.req o).phase = .registered) :
    Step s (.send o) (s.setReq o { s.req o with phase := .sent })
  | sendFails {s : Dispatch} {o : ℕ} (h : (s.req o).phase = .registered) :
    Step s (.sendFails o) (s.setReq o { s.req o with phase := .waited false })
  -- the end of `wait_for_response`, which resets the flag under the lock of the request
  | wake {s : Dispatch} {o : ℕ} (h : (s.req o).phase = .sent)
    (hr : (s.req o).received_response = true) :
    Step s (.wake o)
      (s.setReq o { s.req o with phase := .waited true, received_response := false })
  | timeout {s : Dispatch} {o : ℕ} (h : (s.req o).phase = .sent) :
    Step s (.timeout o)
      (s.setReq o { s.req o with phase := .waited false, received_response := false })
  | clear {s : Dispatch} {o : ℕ} {got_reply : Bool} (h : (s.req o).phase = .waited got_reply) :
    Step s (.clear o)
      { s.setReq o { s.req o with phase := .cleared got_reply, rend := Rendezvous.new 0 0 } with
        rend_map := Function.update s.rend_map (s.req o).rend.key none }
  | return {s : Dispatch} {o : ℕ} {got_reply : Bool} {result : Option Reply}
    (h : (s.req o).phase = .cleared got_reply)
    (hresult : result = if got_reply then (s.req o).resp else none) :
    Step s (.return o result) (s.setReq o { s.req o with phase := .idle })
  | delete {s : Dispatch} {o : ℕ} (h : (s.req o).phase = .idle) :
    Step s (.delete o) (s.setReq o { s.req o with phase := .absent })
  -- the part of `call_rendezvous` under the lock of the map
  | lookup {s : Dispatch} {t o : ℕ} {resp : Reply} (h : s.calling t = none)
    (hsent : s.calls[resp.answers]? = some resp.rend)
    (hfind : s.rend_map resp.rend.key = some o) :
    Step s (.lookup t resp) (s.setCalling t (some { resp := resp, req := o, stored := false }))
  | lookupMiss {s : Dispatch} {t : ℕ} {resp : Reply} (h : s.calling t = none)
    (hsent : s.calls[resp.answers]? = some resp.rend) (hfind : s.rend_map resp.rend.key = none) :
    Step s (.lookup t resp) s
  -- `request_rendezvous` sets the response without a lock
  | store {s : Dispatch} {t : ℕ} {c : Calling} (h : s.calling t = some c)
    (hs : c.stored = false) :
    Step s (.store t)
      ((s.setReq c.req { s.req c.req with resp := some c.resp }).setCalling t
        (some { c with stored := true }))
  -- and then the flag, under the lock of the request
  | signal {s : Dispatch} {t : ℕ} {c : Calling} (h : s.calling t = some c)
    (hs : c.stored = true) :
    Step s (.signal t)
      ((s.setReq c.req { s.req c.req with received_response := true }).setCalling t none)

/-- The reply carries the marker of the object's call and answers that call, which is under way. -/
structure Matches (s : Dispatch) (o : ℕ) (resp : Reply) : Prop where
  inside : (s.req o).phase.Inside
  rend : s.calls[(s.req o).call]? = some resp.rend
  answers : resp.answers = (s.req o).call

/-- A callback reaches the request whose marker its response carries, and reaches it inside
`send_and_wait`. What `send_and_wait` returns is a response to it, or there is none. -/
def Delivered (s : Dispatch) : Action → Dispatch → Prop
  | .store t, _ => ∀ c, s.calling t = some c → Matches s c.req c.resp
  | .signal t, _ => ∀ c, s.calling t = some c → Matches s c.req c.resp
  | .return o result, _ => ∀ resp, result = some resp → Matches s o resp
  | _, _ => True

/-- When `send_and_wait` returns no dispatcher thread has the request looked up and its callback
to finish; the request it starts with has no flag left over from an earlier call; and its sequence
number was not used before. -/
def Orderly (s : Dispatch) : Action → Dispatch → Prop
  | .return o _, _ => ∀ t c, s.calling t = some c → c.req ≠ o
  | .number o op, _ =>
    (s.req o).received_response = false ∧ ∀ rend ∈ s.calls, rend.key ≠ (op, s.next_seq op)
  | _, _ => True

/-! ### The invariant -/

/-- The response the object holds is one to its call. -/
def HasReply (s : Dispatch) (o : ℕ) : Prop := ∃ resp, (s.req o).resp = some resp ∧ Matches s o resp

structure Inv (s : Dispatch) : Prop where
  calls_inj : ∀ (i j : ℕ) (r r' : Rendezvous), s.calls[i]? = some r → s.calls[j]? = some r' → r.key = r'.key → i = j
  marked : ∀ o, (s.req o).phase.Marked → s.calls[(s.req o).call]? = some (s.req o).rend
  mapped : ∀ k o, s.rend_map k = some o →
    (s.req o).phase.Marked ∧ (s.req o).rend.key = k
  calling : ∀ t c, s.calling t = some c → Matches s c.req c.resp
  stored : ∀ t c, s.calling t = some c → c.stored = true → HasReply s c.req
  flagged : ∀ o, (s.req o).phase.Inside → (s.req o).received_response = true → HasReply s o
  replied : ∀ o, (s.req o).phase = .waited true ∨ (s.req o).phase = .cleared true → HasReply s o

theorem inv_initial : Inv Dispatch.initial where
  calls_inj := fun i j r r' h => by cases h
  marked := fun o h => h.elim
  mapped := fun k o h => by cases h
  calling := fun t c h => by cases h
  stored := fun t c h => by cases h
  flagged := fun o h => h.elim
  replied := fun o h => by rcases h with h | h <;> cases h

theorem Phase.Marked.inside {p : Phase} (h : p.Marked) : p.Inside := by
  cases p <;> trivial

variable {s s' : Dispatch} {a : Action} {o t : ℕ} {resp : Reply}

@[simp] theorem setReq_self (r : Req) : (s.setReq o r).req o = r := Function.update_self ..

@[simp] theorem setReq_of_ne {p : ℕ} (h : p ≠ o) (r : Req) : (s.setReq o r).req p = s.req p :=
  Function.update_of_ne h ..

theorem getElem?_of_prefix {l l' : List Rendezvous} (h : l <+: l') {i : ℕ} {r : Rendezvous}
    (hr : l[i]? = some r) : l'[i]? = some r := by
  obtain ⟨m, rfl⟩ := h
  rw [List.getElem?_append_left (List.getElem?_eq_some_iff.mp hr).1]
  exact hr

/-- Later calls leave the markers of the earlier ones as they are. -/
theorem Matches.frame (h : Matches s o resp) (hcalls : s.calls <+: s'.calls)
    (hcall : (s'.req o).call = (s.req o).call) (hin : (s'.req o).phase.Inside) :
    Matches s' o resp where
  inside := hin
  rend := by
    rw [hcall]
    exact getElem?_of_prefix hcalls h.rend
  answers := h.answers.trans hcall.symm

/-- The object is in the same call and holds the same response. -/
def SameCall (s s' : Dispatch) (o : ℕ) : Prop :=
  (s'.req o).phase.Inside ∧ (s'.req o).call = (s.req o).call ∧ (s'.req o).resp = (s.req o).resp

theorem HasReply.same (h : HasReply s o) (hcalls : s.calls <+: s'.calls)
    (hsame : SameCall s s' o) : HasReply s' o := by
  obtain ⟨r, hr, hm⟩ := h
  exact ⟨r, hsame.2.2.trans hr, hm.frame hcalls hsame.2.1 hsame.1⟩

/-- A step of the owner of `o`: no other object changes, and no thread calls `o` back unless it
stays in its call. -/
theorem Inv.owner (hi : Inv s) (hcalls : s.calls <+: s'.calls) (hcalling : s'.calling = s.calling)
    (hinj : ∀ (i j : ℕ) (r r' : Rendezvous), s'.calls[i]? = some r → s'.calls[j]? = some r' →
      r.key = r'.key → i = j)
    (hother : ∀ p, p ≠ o → s'.req p = s.req p)
    (hin : SameCall s s' o ∨ ∀ t c, s.calling t = some c → c.req ≠ o)
    (hmark : (s'.req o).phase.Marked → s'.calls[(s'.req o).call]? = some (s'.req o).rend)
    (hflag : (s'.req o).phase.Inside → (s'.req o).received_response = true →
      SameCall s s' o ∧ (s.req o).phase.Inside ∧ (s.req o).received_response = true)
    (hreply : (s'.req o).phase = .waited true ∨ (s'.req o).phase = .cleared true →
      SameCall s s' o ∧ HasReply s o)
    (hmap : ∀ k p, s'.rend_map k = some p → p = o ∧ (s'.req o).phase.Marked ∧
      (s'.req o).rend.key = k ∨ p ≠ o ∧ s.rend_map k = some p) : Inv s' := by
  have hsame : ∀ p, p ≠ o → (s.req p).phase.Inside → SameCall s s' p := by
    intro p hp hin
    rw [SameCall, hother p hp]
    exact ⟨hin, rfl, rfl⟩
  have hcall : ∀ t c, s.calling t = some c → SameCall s s' c.req := by
    intro t c hc
    by_cases hco : c.req = o
    · rw [hco]
      exact hin.resolve_right fun hno => hno t c hc hco
    · exact hsame _ hco (hi.calling t c hc).inside
  constructor
  case calls_inj => exact hinj
  case marked =>
    intro p hp
    by_cases hpo : p = o
    · subst hpo
      exact hmark hp
    · rw [hother p hpo] at hp ⊢
      exact getElem?_of_prefix hcalls (hi.marked p hp)
  case mapped =>
    intro k p hk
    rcases hmap k p hk with ⟨rfl, hm, hkey⟩ | ⟨hpo, hold⟩
    · exact ⟨hm, hkey⟩
    · rw [hother p hpo]
      exact hi.mapped k p hold
  case calling =>
    intro t c hc
    rw [hcalling] at hc
    have hs := hcall t c hc
    exact (hi.calling t c hc).frame hcalls hs.2.1 hs.1
  case stored =>
    intro t c hc hst
    rw [hcalling] at hc
    exact (hi.stored t c hc hst).same hcalls (hcall t c hc)
  case flagged =>
    intro p hp hf
    by_cases hpo : p = o
    · subst hpo
      obtain ⟨hs, hin', hf'⟩ := hflag hp hf
      exact (hi.flagged p hin' hf').same hcalls hs
    · rw [hother p hpo] at hp hf
      exact (hi.flagged p hp hf).same hcalls (hsame p hpo hp)
  case replied =>
    intro p hp
    by_cases hpo : p = o
    · subst hpo
      obtain ⟨hs, hr⟩ := hreply hp
      exact hr.same hcalls hs
    · rw [hother p hpo] at hp
      have hr := hi.replied p hp
      have hpin : (s.req p).phase.Inside := by rcases hp with h | h <;> rw [h] <;> trivial
      exact hr.same hcalls (hsame p hpo hpin)

/-- A step inside a call that keeps the marker of the request, or takes it out of the map. -/
theorem Inv.inside (hi : Inv s) {r : Req} {m : UInt8 × UInt32 → Option ℕ}
    (hold : (s.req o).phase.Marked) (hr : r.phase.Inside) (hcall : r.call = (s.req o).call)
    (hresp : r.resp = (s.req o).resp) (hrend : r.phase.Marked → r.rend = (s.req o).rend)
    (hflag : r.received_response = true → (s.req o).received_response = true)
    (hreply : r.phase = .waited true ∨ r.phase = .cleared true → HasReply s o)
    (hmap : ∀ k p, m k = some p → p = o ∧ r.phase.Marked ∧ r.rend.key = k ∨
      p ≠ o ∧ s.rend_map k = some p) :
    Inv { s.setReq o r with rend_map := m } := by
  have hself : ({ s.setReq o r with rend_map := m } : Dispatch).req o = r := setReq_self r
  have hsame : SameCall s { s.setReq o r with rend_map := m } o := by
    rw [SameCall, hself]
    exact ⟨hr, hcall, hresp⟩
  refine hi.owner (o := o) List.prefix_rfl rfl hi.calls_inj (fun p hp => setReq_of_ne hp r)
    (Or.inl hsame) ?_ ?_ ?_ ?_
  · rw [hself]
    intro hm
    rw [hcall, hrend hm]
    exact hi.marked o hold
  · rw [hself]
    exact fun _ hf => ⟨hsame, hold.inside, hflag hf⟩
  · rw [hself]
    exact fun h => ⟨hsame, hreply h⟩
  · rw [hself]
    exact hmap

/-- The map a step inside the call leaves as it is. -/
theorem Inv.same_map (hi : Inv s) {r : Req} (hr : r.phase.Marked) (hrend : r.rend = (s.req o).rend) :
    ∀ k p, s.rend_map k = some p → p = o ∧ r.phase.Marked ∧ r.rend.key = k ∨
      p ≠ o ∧ s.rend_map k = some p := by
  intro k p hk
  by_cases hp : p = o
  · subst hp
    exact Or.inl ⟨rfl, hr, by rw [hrend, (hi.mapped k p hk).2]⟩
  · exact Or.inr ⟨hp, hk⟩

/-- The owner is out of its call, with a new object or the old one. -/
theorem Inv.outside (hi : Inv s) {r : Req} (hr : ¬ r.phase.Inside)
    (hno : ∀ t c, s.calling t = some c → c.req ≠ o) (hold : ¬ (s.req o).phase.Marked) :
    Inv (s.setReq o r) := by
  refine hi.owner (o := o) List.prefix_rfl rfl hi.calls_inj (fun p hp => setReq_of_ne hp r)
    (Or.inr hno) ?_ ?_ ?_ ?_
  · rw [setReq_self]
    exact fun h => absurd h.inside hr
  · rw [setReq_self]
    exact fun h => absurd h hr
  · rw [setReq_self]
    rintro (h | h) <;> exact absurd (by rw [h]; trivial) hr
  · intro k p hk
    refine Or.inr ⟨?_, hk⟩
    rintro rfl
    exact hold (hi.mapped k p hk).1

theorem Inv.not_called (hi : Inv s) (h : ¬ (s.req o).phase.Inside) :
    ∀ t c, s.calling t = some c → c.req ≠ o := by
  rintro t c hc rfl
  exact h (hi.calling t c hc).inside

theorem getElem?_concat_cases {l : List Rendezvous} {x r : Rendezvous} {i : ℕ}
    (h : (l ++ [x])[i]? = some r) : l[i]? = some r ∧ r ∈ l ∨ i = l.length ∧ r = x := by
  by_cases hi : i < l.length
  · rw [List.getElem?_append_left hi] at h
    exact Or.inl ⟨h, List.mem_of_getElem? h⟩
  · rw [List.getElem?_append_right (Nat.le_of_not_lt hi), List.getElem?_singleton] at h
    split at h
    case isTrue hzero => exact Or.inr ⟨by omega, (Option.some_inj.mp h).symm⟩
    case isFalse => cases h

/-- A call starts with a number that was not used before, on an object without a stale flag. -/
theorem Inv.number (hi : Inv s) {op : UInt8} (h : (s.req o).phase = .idle)
    (hflag : (s.req o).received_response = false)
    (hnew : ∀ rend ∈ s.calls, rend.key ≠ (op, s.next_seq op)) :
    Inv { s.setReq o { s.req o with
          rend := Rendezvous.new op (s.next_seq op)
          phase := .numbered
          call := s.calls.length } with
        next_seq := Function.update s.next_seq op (s.next_seq op + 1)
        calls := s.calls ++ [Rendezvous.new op (s.next_seq op)] } := by
  set r : Req := { s.req o with
    rend := Rendezvous.new op (s.next_seq op)
    phase := .numbered
    call := s.calls.length } with hrdef
  have hout : ¬ (s.req o).phase.Inside := by
    rw [h]
    exact id
  have hself : (s.setReq o r).req o = r := setReq_self r
  refine hi.owner (o := o) (List.prefix_append _ _) rfl ?_ (fun p hp => setReq_of_ne hp r)
    (Or.inr (hi.not_called hout)) ?_ ?_ ?_ ?_
  · intro i j x y hx hy hxy
    rcases getElem?_concat_cases hx with ⟨hx, hxl⟩ | ⟨hi', rfl⟩
    · rcases getElem?_concat_cases hy with ⟨hy, -⟩ | ⟨-, rfl⟩
      · exact hi.calls_inj i j x y hx hy hxy
      · exact absurd hxy (hnew x hxl)
    · rcases getElem?_concat_cases hy with ⟨-, hyl⟩ | ⟨hj', -⟩
      · exact absurd hxy.symm (hnew y hyl)
      · exact hi'.trans hj'.symm
  · intro _
    show (s.calls ++ [_])[((s.setReq o r).req o).call]? = some ((s.setReq o r).req o).rend
    rw [hself]
    exact List.getElem?_concat_length
  · intro _ (hf : ((s.setReq o r).req o).received_response = true)
    rw [hself] at hf
    exact absurd (hf.symm.trans hflag) (by decide)
  · show ((s.setReq o r).req o).phase = _ ∨ ((s.setReq o r).req o).phase = _ → _
    rw [hself]
    rintro (hp | hp) <;> cases hp
  · intro k p hk
    refine Or.inr ⟨?_, hk⟩
    rintro rfl
    exact hout (hi.mapped k p hk).1.inside

/-! ### Callbacks -/

/-- The map leads a response to the object of the call it answers. -/
theorem Inv.matches_of_find (hi : Inv s) (hsent : s.calls[resp.answers]? = some resp.rend)
    (hfind : s.rend_map resp.rend.key = some o) : Matches s o resp := by
  obtain ⟨hm, hkey⟩ := hi.mapped _ _ hfind
  have hcall := hi.marked o hm
  have hnum : resp.answers = (s.req o).call :=
    hi.calls_inj _ _ _ _ hsent hcall hkey.symm
  exact ⟨hm.inside, hnum ▸ hsent, hnum⟩

theorem calling_cases {u : ℕ} {x : Option Calling} {c : Calling}
    (h : (s.setCalling t x).calling u = some c) : x = some c ∨ s.calling u = some c := by
  have hup : Function.update s.calling t x u = some c := h
  by_cases hu : u = t
  · rw [hu, Function.update_self] at hup
    exact Or.inl hup
  · rw [Function.update_of_ne hu] at hup
    exact Or.inr hup

/-- Which threads call back does not matter to what the objects hold. -/
theorem Matches.setCalling (h : Matches s o resp) (x : Option Calling) :
    Matches (s.setCalling t x) o resp := ⟨h.inside, h.rend, h.answers⟩

theorem HasReply.setCalling (h : HasReply s o) (x : Option Calling) :
    HasReply (s.setCalling t x) o := by
  obtain ⟨ρ, hρ, hm⟩ := h
  exact ⟨ρ, hρ, hm.setCalling x⟩

theorem Inv.lookup (hi : Inv s) (hm : Matches s o resp) :
    Inv (s.setCalling t (some { resp := resp, req := o, stored := false })) := by
  refine ⟨hi.calls_inj, hi.marked, hi.mapped, ?_, ?_,
    fun p hp hf => (hi.flagged p hp hf).setCalling _, fun p hp => (hi.replied p hp).setCalling _⟩
  · intro u c hc
    rcases calling_cases hc with hc | hc
    · cases hc
      exact hm.setCalling _
    · exact (hi.calling u c hc).setCalling _
  · intro u c hc hst
    rcases calling_cases hc with hc | hc
    · cases hc
      cases hst
    · exact (hi.stored u c hc hst).setCalling _

/-- A callback that leaves the object with a response to its call. -/
theorem Inv.callback (hi : Inv s) {r : Req} {x : Option Calling}
    (hphase : r.phase = (s.req o).phase) (hcall : r.call = (s.req o).call)
    (hrend : r.rend = (s.req o).rend) (hresp : ∃ resp, r.resp = some resp ∧ Matches s o resp)
    (hx : ∀ c, x = some c → c.req = o ∧ Matches s o c.resp) :
    Inv ((s.setReq o r).setCalling t x) := by
  set s' := (s.setReq o r).setCalling t x with hs'
  have hself : s'.req o = r := setReq_self r
  have hother : ∀ p, p ≠ o → s'.req p = s.req p := fun p hp => setReq_of_ne hp r
  have hkeep : ∀ p, (s'.req p).phase = (s.req p).phase ∧ (s'.req p).call = (s.req p).call ∧
      (s'.req p).rend = (s.req p).rend := by
    intro p
    by_cases hp : p = o
    · rw [hp, hself]
      exact ⟨hphase, hcall, hrend⟩
    · rw [hother p hp]
      exact ⟨rfl, rfl, rfl⟩
  have hmatch : ∀ p ρ, Matches s p ρ → Matches s' p ρ := fun p ρ hm =>
    hm.frame List.prefix_rfl (hkeep p).2.1 ((hkeep p).1 ▸ hm.inside)
  have hhas : ∀ p, p = o ∨ HasReply s p → HasReply s' p := by
    intro p hp
    by_cases hpo : p = o
    · subst hpo
      obtain ⟨ρ, hρ, hm⟩ := hresp
      exact ⟨ρ, by rw [hself, hρ], hmatch p ρ hm⟩
    · obtain ⟨ρ, hρ, hm⟩ := hp.resolve_left hpo
      exact ⟨ρ, by rw [hother p hpo, hρ], hmatch p ρ hm⟩
  constructor
  case calls_inj => exact hi.calls_inj
  case marked =>
    intro p hp
    rw [(hkeep p).1] at hp
    rw [(hkeep p).2.1, (hkeep p).2.2]
    exact hi.marked p hp
  case mapped =>
    intro k p hk
    rw [(hkeep p).1, (hkeep p).2.2]
    exact hi.mapped k p hk
  case calling =>
    intro u c hc
    rcases calling_cases hc with hc | hc
    · obtain ⟨hco, hm⟩ := hx c hc
      rw [hco]
      exact hmatch o _ hm
    · exact hmatch _ _ (hi.calling u c hc)
  case stored =>
    intro u c hc hst
    rcases calling_cases hc with hc | hc
    · exact hhas _ (Or.inl (hx c hc).1)
    · exact hhas _ (Or.inr (hi.stored u c hc hst))
  case flagged =>
    intro p hp hf
    by_cases hpo : p = o
    · exact hhas p (Or.inl hpo)
    · rw [(hkeep p).1] at hp
      rw [hother p hpo] at hf
      exact hhas p (Or.inr (hi.flagged p hp hf))
  case replied =>
    intro p hp
    rw [(hkeep p).1] at hp
    exact hhas p (Or.inr (hi.replied p hp))

/-! ### Runs -/

theorem Inv.step (hi : Inv s) (h : Step s a s') (ho : Orderly s a s') : Inv s' := by
  cases h with
  | @create o h =>
    have hout : ¬ (s.req o).phase.Inside := by
      rw [h]
      exact id
    have hnew : ¬ Dispatch.newReq.phase.Inside := id
    exact hi.outside hnew (hi.not_called hout) (fun hm => hout hm.inside)
  | number h => exact hi.number h ho.1 ho.2
  | @register o h =>
    refine hi.inside (by rw [h]; trivial) trivial rfl rfl (fun _ => rfl) id ?_ ?_
    · rintro (h' | h') <;> cases h'
    · intro k p hk
      by_cases hkey : k = (s.req o).rend.key
      · rw [hkey, Function.update_self] at hk
        cases hk
        exact Or.inl ⟨rfl, trivial, hkey.symm⟩
      · rw [Function.update_of_ne hkey] at hk
        refine Or.inr ⟨?_, hk⟩
        rintro rfl
        exact hkey (hi.mapped k p hk).2.symm
  | @send o h =>
    refine hi.inside (by rw [h]; trivial) trivial rfl rfl (fun _ => rfl) id ?_ (hi.same_map trivial rfl)
    rintro (h' | h') <;> cases h'
  | @sendFails o h =>
    refine hi.inside (by rw [h]; trivial) trivial rfl rfl (fun _ => rfl) id ?_ (hi.same_map trivial rfl)
    rintro (h' | h') <;> cases h'
  | @wake o h hr =>
    refine hi.inside (by rw [h]; trivial) trivial rfl rfl (fun _ => rfl) (fun _ => hr) ?_
      (hi.same_map trivial rfl)
    exact fun _ => hi.flagged o (by rw [h]; trivial) hr
  | @timeout o h =>
    refine hi.inside (by rw [h]; trivial) trivial rfl rfl (fun _ => rfl)
      (fun hf => absurd hf Bool.false_ne_true) ?_ (hi.same_map trivial rfl)
    rintro (h' | h') <;> cases h'
  | @clear o got_reply h =>
    refine hi.inside (by rw [h]; trivial) trivial rfl rfl (fun hm => hm.elim) id ?_ ?_
    · rintro (h' | h')
      · cases h'
      · cases h'
        exact hi.replied o (Or.inl h)
    · intro k p hk
      by_cases hkey : k = (s.req o).rend.key
      · rw [hkey, Function.update_self] at hk
        cases hk
      · rw [Function.update_of_ne hkey] at hk
        refine Or.inr ⟨?_, hk⟩
        rintro rfl
        exact hkey (hi.mapped k p hk).2.symm
  | @«return» o got_reply result h hresult =>
    exact hi.outside id ho (by rw [h]; exact id)
  | @delete o h =>
    have hout : ¬ (s.req o).phase.Inside := by
      rw [h]
      exact id
    exact hi.outside id (hi.not_called hout) (fun hm => hout hm.inside)
  | lookup h hsent hfind => exact hi.lookup (hi.matches_of_find hsent hfind)
  | lookupMiss => exact hi
  | store h hst =>
    refine hi.callback rfl rfl rfl ⟨_, rfl, hi.calling _ _ h⟩ ?_
    intro c' hc'
    cases hc'
    exact ⟨rfl, hi.calling _ _ h⟩
  | signal h hst =>
    exact hi.callback rfl rfl rfl (hi.stored _ _ h hst) (fun c hc => by cases hc)

/-- Where the invariant holds every callback and every return is as it should be. -/
theorem Inv.delivered (hi : Inv s) (h : Step s a s') : Delivered s a s' := by
  cases h with
  | store h => exact fun c hc => hi.calling _ c hc
  | signal h => exact fun c hc => hi.calling _ c hc
  | @«return» o got_reply result h hresult =>
    intro ρ hρ
    rw [hresult] at hρ
    split at hρ
    case isFalse => cases hρ
    case isTrue hgot =>
      obtain ⟨ρ', hρ', hm⟩ := hi.replied o (Or.inr (hgot ▸ h))
      rw [hρ', Option.some_inj] at hρ
      exact hρ ▸ hm
  | _ => trivial

/-- In a run of orderly steps every callback reaches the request whose marker its response
carries, inside its `send_and_wait`, and each `send_and_wait` returns with a response to its
request or without one. -/
theorem delivered_of_orderly (tr : List (Action × Dispatch))
    (hr : IsRun Step Dispatch.initial tr) (ho : EveryStep Orderly Dispatch.initial tr) :
    EveryStep Delivered Dispatch.initial tr :=
  hr.everyStep (fun _ _ _ hi h hc => hi.step h hc) (fun _ _ _ hi h _ => hi.delivered h)
    inv_initial ho

/-- The reply to the first call, a request of operation 35. -/
def firstReply : Reply where
  rend := Rendezvous.new 35 1
  answers := 0

/-- A call whose reply arrives while it waits. -/
theorem answered_delivered : ∃ tr : List (Action × Dispatch),
    tr.map Prod.fst = [.create 0, .number 0 35, .register 0, .send 0, .lookup 7 firstReply,
      .store 7, .signal 7, .wake 0, .clear 0, .return 0 (some firstReply)] ∧
    EveryStep Delivered Dispatch.initial tr := by
  refine ⟨[(.create 0, _), (.number 0 35, _), (.register 0, _), (.send 0, _),
    (.lookup 7 firstReply, _), (.store 7, _), (.signal 7, _), (.wake 0, _), (.clear 0, _),
    (.return 0 (some firstReply), _)], rfl, delivered_of_orderly _
    (And.intro (.create rfl) <| And.intro (.number rfl) <| And.intro (.register rfl) <|
      And.intro (.send rfl) <| And.intro (.lookup rfl rfl rfl) <|
      And.intro (.store (c := ⟨firstReply, 0, false⟩) rfl rfl) <|
      And.intro (.signal (c := ⟨firstReply, 0, true⟩) rfl rfl) <| And.intro (.wake rfl rfl) <|
      And.intro (.clear rfl) <| And.intro (.return rfl rfl) trivial) ?_⟩
  refine ⟨trivial, ⟨rfl, fun r hr => absurd hr List.not_mem_nil⟩, trivial, trivial, trivial, trivial,
    trivial, trivial, trivial, ?_, trivial⟩
  intro t c (hc : Function.update (Function.update (Function.update (fun _ => none) 7 _) 7 _) 7
    none t = some c)
  rw [Function.update_idem, Function.update_idem] at hc
  by_cases ht : t = 7
  · rw [ht, Function.update_self] at hc
    cases hc
  · rw [Function.update_of_ne ht] at hc
    cases hc

/-- A call whose time is up between the look-up of its request and the callback. -/
theorem late_not_delivered :
    ¬ ∀ tr : List (Action × Dispatch), IsRun Step Dispatch.initial tr →
      EveryStep Delivered Dispatch.initial tr := by
  intro h
  have hrun := h [(.create 0, _), (.number 0 35, _), (.register 0, _), (.send 0, _),
    (.lookup 7 firstReply, _), (.timeout 0, _), (.clear 0, _), (.return 0 none, _), (.store 7, _)]
    (And.intro (.create rfl) <| And.intro (.number rfl) <| And.intro (.register rfl) <|
      And.intro (.send rfl) <| And.intro (.lookup rfl rfl rfl) <| And.intro (.timeout rfl) <|
      And.intro (.clear rfl) <| And.intro (.return rfl rfl) <|
      And.intro (.store (c := ⟨firstReply, 0, false⟩) rfl rfl) trivial)
  have hstore := hrun.2.2.2.2.2.2.2.2.1 _ rfl
  exact hstore.inside

end OnlDaemons.Dispatcher

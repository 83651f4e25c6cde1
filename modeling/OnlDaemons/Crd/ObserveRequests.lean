import OnlDaemons.Lib.Run
import Mathlib.Data.List.Nodup
import Mathlib.Data.List.Perm.Basic
import Mathlib.Tactic.Common

/-!
# Observing a session

A user who may observe a session asks for it and is told to wait. The owner of the session grants the request, or the
session is cleared and the user is told that it closes. The requests that wait are on a list of the session, which
`observe` and `grant_observe` change under `share_lock`, and `clear` without it.

## Main definitions

- `ObserveState`, `ObserveState.step` — the list, the threads that work on it, and what they have sent and deleted
- `ObserveState.ObserversAnswered`, `GrantsAnswered`, `Delivered` — what should hold of the answers
- `ObserveState.CarefulObserve`, `CarefulGrant` — the steps that keep it so

## Main result

- `answered_of_careful`
-/

namespace OnlDaemons.Crd
open OnlDaemons.Lib

/-- The answers to `observe_session_req`: "Request has been sent to experiment owner.", the grant, "Experiment closing",
and the failures. -/
inductive ObserveAnswer
  | stillRemaining
  | granted
  | closing
  | failed
deriving DecidableEq, Repr

/-- Where `grant_observe` is, with the request it has found. -/
inductive GrantStage
  | found
  | erased
  | answered
  | deleted
deriving DecidableEq, Repr

/-- Where `clear` is in its loop over the requests. -/
inductive ClearStage (R : Type)
  | open
  | loop
  | front (req : R)
  | popped (req : R)
  | answered (req : R)
  | closed
deriving DecidableEq, Repr

/-- `share` is the holder of `share_lock` in `grant_observe`. `telling` and `replying` are the requests whose handler is
about to send its own response. `asked`, `accepted` and `granting` record the requests to observe, those of them that
`observe` has returned true for, and the grants. `broken` says that something deleted has been used or deleted again, or
something erased that was not on the list. -/
structure ObserveState (U R G : Type) where
  allowedObservers : List U
  observeReqs : List R
  share : Option (G × R × GrantStage)
  clear : ClearStage R
  telling : List R
  replying : List G
  asked : List R
  accepted : List R
  granting : List G
  answers : List (R × ObserveAnswer)
  deleted : List R
  grantAnswers : List G
  broken : Bool

/-- `valid` says that the handler has found the user and the session. -/
inductive ObserveAct (U R G : Type)
  | addObserver (username : U)
  | observe (req : R) (valid : Bool)
  | tell (req : R)
  | grant (req : G) (observer : U) (valid : Bool)
  | grantNext
  | reply (req : G)
  | clear
deriving DecidableEq, Repr

namespace ObserveState

variable {U R G : Type} [DecidableEq R] (observer : R → U)

def init : ObserveState U R G where
  allowedObservers := []
  observeReqs := []
  share := none
  clear := .open
  telling := []
  replying := []
  asked := []
  accepted := []
  granting := []
  answers := []
  deleted := []
  grantAnswers := []
  broken := false

/-- Use of a request object. -/
def onReq (s u : ObserveState U R G) (req : R) : ObserveState U R G :=
  if req ∈ s.deleted then { s with broken := true } else u

section Step

variable [DecidableEq U] [DecidableEq G]

/-- The request of an observer on the list. -/
def findReq (s : ObserveState U R G) (username : U) : Option R := s.observeReqs.find? fun req => observer req = username

/-- The request is put on the list. -/
def enqueue (s : ObserveState U R G) (req : R) : ObserveState U R G :=
  { s with
    asked := s.asked ++ [req]
    observeReqs := s.observeReqs ++ [req]
    accepted := s.accepted ++ [req]
    telling := s.telling ++ [req] }

/-- The request fails. -/
def refuse (s : ObserveState U R G) (req : R) : ObserveState U R G :=
  { s with
    asked := s.asked ++ [req]
    answers := s.answers ++ [(req,.failed)]
    deleted := s.deleted ++ [req] }

/-- `observe`, with the handler up to it. A second request of an observer is accepted and not put on the list. -/
def receive (s : ObserveState U R G) (req : R) (valid : Bool) : ObserveState U R G :=
  if valid && observer req ∈ s.allowedObservers then
    if (s.findReq observer (observer req)).isSome then
      { s with asked := s.asked ++ [req], accepted := s.accepted ++ [req], telling := s.telling ++ [req] }
    else s.enqueue req
  else s.refuse req

/-- One step of `grant_observe`, after the request has been found. -/
def grantNext (s : ObserveState U R G) (g : G) (req : R) : GrantStage → ObserveState U R G
  | .found =>
    if req ∈ s.observeReqs then
      { s with observeReqs := s.observeReqs.erase req, share := some (g,req,.erased) }
    else { s with broken := true }
  | .erased => s.onReq { s with answers := s.answers ++ [(req,.granted)], share := some (g,req,.answered) } req
  | .answered => s.onReq { s with deleted := s.deleted ++ [req], share := some (g,req,.deleted) } req
  | .deleted =>
    { s with grantAnswers := s.grantAnswers ++ [g], share := none, replying := s.replying ++ [g] }

/-- One step of the loop in `clear`. -/
def clearNext (s : ObserveState U R G) : Option (ObserveState U R G) :=
  match s.clear with
  | .open => some { s with clear := .loop }
  | .loop =>
    match s.observeReqs with
    | [] => some { s with clear := .closed }
    | req :: _ => some { s with clear := .front req }
  | .front req =>
    match s.observeReqs with
    | [] => some { s with broken := true }
    | _ :: reqs => some { s with observeReqs := reqs, clear := .popped req }
  | .popped req => some (s.onReq { s with answers := s.answers ++ [(req,.closing)], clear := .answered req } req)
  | .answered req => some (s.onReq { s with deleted := s.deleted ++ [req], clear := .loop } req)
  | .closed => none

/-- Each access to the list is one step. `observe` and `grant_observe` wait for the lock. -/
def step (s : ObserveState U R G) (a : ObserveAct U R G) : Option (ObserveState U R G) :=
  if s.broken then none
  else match a with
  | .addObserver username =>
    if s.share.isSome then none
    else if username ∈ s.allowedObservers then some s
    else some { s with allowedObservers := s.allowedObservers ++ [username] }
  | .observe req valid => if s.share.isSome || req ∈ s.asked then none else some (s.receive observer req valid)
  | .tell req =>
    if req ∈ s.telling then
      some (s.onReq { s with telling := s.telling.erase req, answers := s.answers ++ [(req,.stillRemaining)] } req)
    else none
  | .grant g username valid =>
    if s.share.isSome || g ∈ s.granting then none
    else
      let s := { s with granting := s.granting ++ [g] }
      if valid then
        match s.findReq observer username with
        | some req => some { s with share := some (g,req,.found) }
        | none => some { s with replying := s.replying ++ [g] }
      else some { s with grantAnswers := s.grantAnswers ++ [g] }
  | .grantNext =>
    match s.share with
    | some (g,req,stage) => some (s.grantNext g req stage)
    | none => none
  | .reply g =>
    if g ∈ s.replying then
      some { s with replying := s.replying.erase g, grantAnswers := s.grantAnswers ++ [g] }
    else none
  | .clear => s.clearNext

end Step

/-! ### What should hold -/

/-- What `grant_observe` has taken from the list and not answered yet. -/
def grantTaken : Option (G × R × GrantStage) → List R
  | some (_,req,.erased) => [req]
  | _ => []

def clearTaken : ClearStage R → List R
  | .popped req => [req]
  | _ => []

/-- What `grant_observe` has answered and not deleted yet. -/
def grantAnswered : Option (G × R × GrantStage) → List R
  | some (_,req,.answered) => [req]
  | _ => []

def clearAnswered : ClearStage R → List R
  | .answered req => [req]
  | _ => []

def taken (s : ObserveState U R G) : List R := grantTaken s.share ++ clearTaken s.clear

def answered (s : ObserveState U R G) : List R := grantAnswered s.share ++ clearAnswered s.clear

def finals (s : ObserveState U R G) (req : R) : ℕ := s.answers.count (req,.granted) + s.answers.count (req,.closing)

/-- A request is still on the list or in the hands of `grant_observe` or `clear`. -/
def Pending (s : ObserveState U R G) (req : R) : Prop :=
  req ∈ s.observeReqs ∨ req ∈ s.taken ∨ req ∈ s.answered

/-- The requests that were told to wait get one final answer and are deleted once, and after the session has been
cleared none waits. -/
structure ObserversAnswered (s : ObserveState U R G) : Prop where
  sound : s.broken = false
  once : ∀ req, (req,.stillRemaining) ∈ s.answers → s.finals req ≤ 1 ∧ s.deleted.count req ≤ 1
  done : ∀ req, (req,.stillRemaining) ∈ s.answers → ¬s.Pending req → s.finals req = 1 ∧ s.deleted.count req = 1
  closed : s.clear = .closed → s.observeReqs = []

/-- A grant whose handler has not returned. -/
def Granting (s : ObserveState U R G) (g : G) : Prop := g ∈ s.replying ∨ ∃ req stage, s.share = some (g,req,stage)

def GrantsAnswered [DecidableEq G] (s : ObserveState U R G) : Prop :=
  ∀ g ∈ s.granting, s.grantAnswers.count g ≤ 1 ∧ (¬s.Granting g → s.grantAnswers.count g = 1)

/-- The request has come from an allowed observer. -/
def MayObserve (s : ObserveState U R G) (req : R) : Prop := req ∈ s.asked ∧ observer req ∈ s.allowedObservers

/-- A grant is only delivered to one who is on the list of allowed observers and has asked. -/
def Delivered (s : ObserveState U R G) : Prop := ∀ req, (req,.granted) ∈ s.answers → s.MayObserve observer req

section Careful

variable [DecidableEq U]

/-- No other request of the observer waits and the session is not closed; a request is only granted or taken by `clear`
after its handler has told it to wait, and not by both. -/
def CarefulObserve (s : ObserveState U R G) (a : ObserveAct U R G) (_ : ObserveState U R G) : Prop :=
  match a with
  | .observe req valid =>
    valid → observer req ∈ s.allowedObservers → s.findReq observer (observer req) = none ∧ s.clear ≠ .closed
  | .grant _ username valid =>
    valid → ∀ req ∈ s.findReq observer username, req ∉ s.telling ∧ s.clear ≠ .front req
  | .clear =>
    s.clear = .loop → ∀ req ∈ s.observeReqs.head?, req ∉ s.telling ∧ ∀ x ∈ s.share, x.2 ≠ (req,.found)
  | _ => True

/-- The grant finds no request, so only its handler answers it. -/
def CarefulGrant (s : ObserveState U R G) (a : ObserveAct U R G) (_ : ObserveState U R G) : Prop :=
  match a with
  | .grant _ username valid => valid → s.findReq observer username = none
  | _ => True

instance (s : ObserveState U R G) (a : ObserveAct U R G) (u : ObserveState U R G) :
    Decidable (s.CarefulObserve observer a u) := by
  cases a <;> unfold CarefulObserve <;> infer_instance

instance (s : ObserveState U R G) (a : ObserveAct U R G) (u : ObserveState U R G) :
    Decidable (s.CarefulGrant observer a u) := by
  cases a <;> unfold CarefulGrant <;> infer_instance

end Careful

/-- The books: every request that was accepted is waiting, taken or answered, and every one that came is still there or
deleted. -/
structure Inv (s : ObserveState U R G) : Prop where
  sound : s.broken = false
  asked : s.asked.Nodup
  accepted : s.accepted.Nodup
  subset : s.accepted ⊆ s.asked
  finals : ∀ req, s.observeReqs.count req + s.taken.count req + s.finals req = s.accepted.count req
  deleted : ∀ req, s.observeReqs.count req + s.taken.count req + s.answered.count req + s.deleted.count req =
    s.asked.count req
  telling : ∀ req ∈ s.telling, req ∈ s.observeReqs ∧ s.clear ≠ .front req ∧ ∀ g, s.share ≠ some (g,req,.found)
  found : ∀ g req, s.share = some (g,req,.found) → req ∈ s.observeReqs ∧ s.clear ≠ .front req
  front : ∀ req, s.clear = .front req → s.observeReqs.head? = some req
  closed : s.clear = .closed → s.observeReqs = []
  told : ∀ req, (req,.stillRemaining) ∈ s.answers → req ∈ s.accepted

variable {observer} {s u : ObserveState U R G} {req : R}

theorem inv_init : (init : ObserveState U R G).Inv where
  sound := rfl
  asked := .nil
  accepted := .nil
  subset := nofun
  finals _ := rfl
  deleted _ := rfl
  telling := nofun
  found := nofun
  front := nofun
  closed := nofun
  told := nofun

namespace Inv

theorem count_asked_le (h : s.Inv) (req : R) : s.asked.count req ≤ 1 := List.nodup_iff_count_le_one.mp h.asked req

/-- A request that is still there has not been deleted. -/
theorem not_mem_deleted (h : s.Inv) (hr : s.Pending req) : req ∉ s.deleted := by
  intro hdel
  have hasked := h.count_asked_le req
  have hbook := h.deleted req
  have hpos := List.count_pos_iff.mpr hdel
  obtain hr | hr | hr := hr
  · have := List.count_pos_iff.mpr hr
    omega
  · have := List.count_pos_iff.mpr hr
    omega
  · have := List.count_pos_iff.mpr hr
    omega

theorem onReq_eq (h : s.Inv) (hr : s.Pending req) : s.onReq u req = u := if_neg (h.not_mem_deleted hr)

theorem mem_asked (h : s.Inv) (hr : req ∈ s.observeReqs) : req ∈ s.asked := by
  have hbook := h.deleted req
  have hpos := List.count_pos_iff.mpr hr
  exact List.count_pos_iff.mp (by omega)

theorem mem_accepted (h : s.Inv) (hr : req ∈ s.observeReqs) : req ∈ s.accepted := by
  have hbook := h.finals req
  have hpos := List.count_pos_iff.mpr hr
  exact List.count_pos_iff.mp (by omega)

theorem not_front (h : s.Inv) (hr : req ∉ s.observeReqs) : s.clear ≠ .front req := by
  intro hfront
  exact hr (List.mem_of_mem_head? (h.front req hfront))

theorem observersAnswered (h : s.Inv) : s.ObserversAnswered where
  sound := h.sound
  once req hreq := by
    have hasked := h.count_asked_le req
    have haccepted := List.nodup_iff_count_le_one.mp h.accepted req
    have hf := h.finals req
    have hd := h.deleted req
    exact ⟨by omega,by omega⟩
  done req hreq hno := by
    have htold := h.told req hreq
    have haccepted := List.count_eq_one_of_mem h.accepted htold
    have hasked := List.count_eq_one_of_mem h.asked (h.subset htold)
    obtain ⟨hr,hno⟩ := not_or.mp hno
    obtain ⟨ht,ha⟩ := not_or.mp hno
    have hf := h.finals req
    have hd := h.deleted req
    rw [List.count_eq_zero_of_not_mem hr,List.count_eq_zero_of_not_mem ht] at hf hd
    rw [List.count_eq_zero_of_not_mem ha] at hd
    exact ⟨by omega,by omega⟩
  closed := h.closed

theorem enqueue (h : s.Inv) (hshare : s.share = none) (hnew : req ∉ s.asked) (hopen : s.clear ≠ .closed) :
    (s.enqueue req).Inv where
  sound := h.sound
  asked := List.nodup_append_comm.mpr (List.nodup_cons.mpr ⟨hnew,h.asked⟩)
  accepted := List.nodup_append_comm.mpr (List.nodup_cons.mpr ⟨fun hr => hnew (h.subset hr),h.accepted⟩)
  subset := List.append_subset.mpr
    ⟨fun x hx => List.mem_append_left _ (h.subset hx),List.subset_append_right _ _⟩
  finals x := by
    have := h.finals x
    simp only [ObserveState.enqueue,taken,ObserveState.finals,List.count_append] at this ⊢
    omega
  deleted x := by
    have := h.deleted x
    simp only [ObserveState.enqueue,taken,answered,List.count_append] at this ⊢
    omega
  telling x hx := by
    obtain hx | hx := List.mem_append.mp hx
    · obtain ⟨hr,hfront,hfound⟩ := h.telling x hx
      exact ⟨List.mem_append_left _ hr,hfront,hfound⟩
    · rw [List.mem_singleton.mp hx]
      exact ⟨List.mem_append_right _ (List.mem_singleton_self _),h.not_front fun hr => hnew (h.mem_asked hr),
        fun g hg => nomatch hshare.symm.trans hg⟩
  found g x hx := nomatch hshare.symm.trans hx
  front x hx := by
    show (s.observeReqs ++ [req]).head? = some x
    rw [List.head?_append,h.front x hx]
    rfl
  closed hx := absurd hx hopen
  told x hx := List.mem_append_left _ (h.told x hx)

theorem refuse (h : s.Inv) (hnew : req ∉ s.asked) : (s.refuse req).Inv where
  sound := h.sound
  asked := List.nodup_append_comm.mpr (List.nodup_cons.mpr ⟨hnew,h.asked⟩)
  accepted := h.accepted
  subset x hx := List.mem_append_left _ (h.subset hx)
  finals x := by
    have := h.finals x
    simpa [ObserveState.refuse,taken,ObserveState.finals] using this
  deleted x := by
    have := h.deleted x
    simp only [ObserveState.refuse,taken,answered,List.count_append] at this ⊢
    omega
  telling := h.telling
  found := h.found
  front := h.front
  closed := h.closed
  told x hx := h.told x (by simpa [ObserveState.refuse] using hx)

theorem tell (h : s.Inv) (hreq : req ∈ s.telling) :
    Inv (s.onReq { s with telling := s.telling.erase req, answers := s.answers ++ [(req,.stillRemaining)] } req) := by
  have hr := (h.telling req hreq).1
  rw [h.onReq_eq (.inl hr)]
  refine ⟨h.sound,h.asked,h.accepted,h.subset,fun x => ?_,h.deleted,
    fun x hx => h.telling x (List.mem_of_mem_erase hx),h.found,h.front,h.closed,fun x hx => ?_⟩
  · rw [← h.finals x]
    simp [taken,ObserveState.finals]
  · obtain hx | hx := List.mem_append.mp hx
    · exact h.told x hx
    · cases List.mem_singleton.mp hx
      exact h.mem_accepted hr

theorem grantFound {g : G} (h : s.Inv) (hshare : s.share = none) (hr : req ∈ s.observeReqs)
    (htell : req ∉ s.telling) (hfront : s.clear ≠ .front req) (granting : List G) :
    Inv { s with granting := granting, share := some (g,req,.found) } where
  sound := h.sound
  asked := h.asked
  accepted := h.accepted
  subset := h.subset
  finals x := by
    have := h.finals x
    rwa [taken,hshare] at this
  deleted x := by
    have := h.deleted x
    rwa [taken,answered,hshare] at this
  telling x hx := by
    obtain ⟨hx',hfront',-⟩ := h.telling x hx
    refine ⟨hx',hfront',?_⟩
    rintro g' ⟨⟩
    exact htell hx
  found g' x := by
    rintro ⟨⟩
    exact ⟨hr,hfront⟩
  front := h.front
  closed := h.closed
  told := h.told

theorem count_erase_add (hr : req ∈ s.observeReqs) (x : R) :
    (s.observeReqs.erase req).count x + [req].count x = s.observeReqs.count x := by
  rw [Nat.add_comm,← List.count_append]
  exact (List.perm_cons_erase hr).symm.count_eq x

theorem count_answer (req x : R) (a : ObserveAnswer) : [(req,a)].count (x,a) = [req].count x := by
  simp [List.count_singleton]

theorem count_granted_closing (req x : R) : [(req,ObserveAnswer.granted)].count (x,.closing) = 0 := by
  simp

theorem count_closing_granted (req x : R) : [(req,ObserveAnswer.closing)].count (x,.granted) = 0 := by
  simp

theorem grantErase {g : G} (h : s.Inv) (hshare : s.share = some (g,req,.found)) :
    Inv { s with observeReqs := s.observeReqs.erase req, share := some (g,req,.erased) } := by
  obtain ⟨hr,hfront⟩ := h.found g req hshare
  refine ⟨h.sound,h.asked,h.accepted,h.subset,fun x => ?_,fun x => ?_,fun x hx => ?_,nofun,fun x hx => ?_,
    fun hx => ?_,h.told⟩
  · have hbook := h.finals x
    have hcount := count_erase_add hr x
    simp only [taken,hshare,grantTaken,ObserveState.finals,List.nil_append,List.count_append] at hbook hcount ⊢
    omega
  · have hbook := h.deleted x
    have hcount := count_erase_add hr x
    simp only [taken,answered,hshare,grantTaken,grantAnswered,List.nil_append,List.count_append] at hbook hcount ⊢
    omega
  · obtain ⟨hx',hfront',hfound⟩ := h.telling x hx
    have hne : x ≠ req := by
      rintro rfl
      exact hfound g hshare
    exact ⟨(List.mem_erase_of_ne hne).mpr hx',hfront',nofun⟩
  · have hhead := h.front x hx
    have hne : x ≠ req := by
      rintro rfl
      exact hfront hx
    show (s.observeReqs.erase req).head? = some x
    obtain ⟨reqs,hreqs⟩ := List.head?_eq_some_iff.mp hhead
    rw [hreqs,List.erase_cons_tail (by simpa using hne)]
    rfl
  · show s.observeReqs.erase req = []
    rw [h.closed hx]
    rfl

theorem grantNext {g : G} {stage : GrantStage} (h : s.Inv) (hshare : s.share = some (g,req,stage)) :
    (s.grantNext g req stage).Inv := by
  cases stage with
  | found =>
    unfold ObserveState.grantNext
    rw [if_pos (h.found g req hshare).1]
    exact h.grantErase hshare
  | erased =>
    have htaken : req ∈ s.taken := by simp [taken,hshare,grantTaken]
    show (s.onReq _ req).Inv
    rw [h.onReq_eq (.inr (.inl htaken))]
    refine ⟨h.sound,h.asked,h.accepted,h.subset,fun x => ?_,fun x => ?_,fun x hx => ?_,nofun,h.front,h.closed,
      fun x hx => ?_⟩
    · have hbook := h.finals x
      simp only [taken,hshare,grantTaken,ObserveState.finals,List.count_append,count_answer,count_granted_closing,
        List.count_nil] at hbook ⊢
      omega
    · have hbook := h.deleted x
      simp only [taken,answered,hshare,grantTaken,grantAnswered,List.count_append,List.count_nil] at hbook ⊢
      omega
    · obtain ⟨hx',hfront',-⟩ := h.telling x hx
      exact ⟨hx',hfront',nofun⟩
    · exact h.told x (by simpa using hx)
  | answered =>
    have hanswered : req ∈ s.answered := by simp [answered,hshare,grantAnswered]
    show (s.onReq _ req).Inv
    rw [h.onReq_eq (.inr (.inr hanswered))]
    refine ⟨h.sound,h.asked,h.accepted,h.subset,fun x => ?_,fun x => ?_,fun x hx => ?_,nofun,h.front,h.closed,h.told⟩
    · have hbook := h.finals x
      rw [taken,hshare] at hbook
      exact hbook
    · have hbook := h.deleted x
      simp only [taken,answered,hshare,grantTaken,grantAnswered,List.count_append,List.count_nil] at hbook ⊢
      omega
    · obtain ⟨hx',hfront',-⟩ := h.telling x hx
      exact ⟨hx',hfront',nofun⟩
  | deleted =>
    refine ⟨h.sound,h.asked,h.accepted,h.subset,fun x => ?_,fun x => ?_,fun x hx => ?_,nofun,h.front,h.closed,h.told⟩
    · have hbook := h.finals x
      rw [taken,hshare] at hbook
      exact hbook
    · have hbook := h.deleted x
      rw [taken,answered,hshare] at hbook
      exact hbook
    · obtain ⟨hx',hfront',-⟩ := h.telling x hx
      exact ⟨hx',hfront',nofun⟩

theorem clearNext [DecidableEq U] (h : s.Inv) (hu : s.clearNext = some u)
    (hc : s.CarefulObserve observer .clear u) : u.Inv := by
  unfold ObserveState.clearNext at hu
  split at hu
  · next hclear =>
    cases hu
    refine ⟨h.sound,h.asked,h.accepted,h.subset,fun x => ?_,fun x => ?_,fun x hx => ?_,fun g x hx => ?_,nofun,nofun,
      h.told⟩
    · have hbook := h.finals x
      rw [taken,hclear] at hbook
      exact hbook
    · have hbook := h.deleted x
      rw [taken,answered,hclear] at hbook
      exact hbook
    · obtain ⟨hx',-,hfound⟩ := h.telling x hx
      exact ⟨hx',nofun,hfound⟩
    · exact ⟨(h.found g x hx).1,nofun⟩
  · next hclear =>
    split at hu
    · next hreqs =>
      cases hu
      refine ⟨h.sound,h.asked,h.accepted,h.subset,fun x => ?_,fun x => ?_,fun x hx => ?_,fun g x hx => ?_,nofun,
        fun _ => hreqs,h.told⟩
      · have hbook := h.finals x
        rw [taken,hclear] at hbook
        exact hbook
      · have hbook := h.deleted x
        rw [taken,answered,hclear] at hbook
        exact hbook
      · obtain ⟨hx',-,hfound⟩ := h.telling x hx
        exact ⟨hx',nofun,hfound⟩
      · exact ⟨(h.found g x hx).1,nofun⟩
    · next req reqs hreqs =>
      cases hu
      obtain ⟨htell,hgrant⟩ := hc hclear req (by rw [hreqs]; rfl)
      refine ⟨h.sound,h.asked,h.accepted,h.subset,fun x => ?_,fun x => ?_,fun x hx => ?_,fun g x hx => ?_,
        fun x hx => ?_,nofun,h.told⟩
      · have hbook := h.finals x
        rw [taken,hclear] at hbook
        exact hbook
      · have hbook := h.deleted x
        rw [taken,answered,hclear] at hbook
        exact hbook
      · obtain ⟨hx',-,hfound⟩ := h.telling x hx
        refine ⟨hx',?_,hfound⟩
        rintro ⟨⟩
        exact htell hx
      · refine ⟨(h.found g x hx).1,?_⟩
        rintro ⟨⟩
        exact hgrant _ hx rfl
      · cases hx
        show s.observeReqs.head? = some req
        rw [hreqs]
        rfl
  · next req hclear =>
    obtain ⟨reqs,hreqs⟩ := List.head?_eq_some_iff.mp (h.front req hclear)
    rw [hreqs] at hu
    cases hu
    -- who is about to be told, or found by a grant, is not the one that is popped
    have hne : ∀ x ∈ s.observeReqs, x ≠ req → x ∈ reqs := by
      intro x hx hne
      rw [hreqs] at hx
      exact List.mem_of_ne_of_mem hne hx
    refine ⟨h.sound,h.asked,h.accepted,h.subset,fun x => ?_,fun x => ?_,fun x hx => ?_,fun g x hx => ?_,nofun,nofun,
      h.told⟩
    · have hbook := h.finals x
      simp only [taken,hclear,clearTaken,hreqs,ObserveState.finals,List.count_append,List.count_nil] at hbook ⊢
      rw [← List.singleton_append,List.count_append] at hbook
      omega
    · have hbook := h.deleted x
      simp only [taken,answered,hclear,clearTaken,clearAnswered,hreqs,List.count_append,List.count_nil] at hbook ⊢
      rw [← List.singleton_append,List.count_append] at hbook
      omega
    · obtain ⟨hx',hfront,hfound⟩ := h.telling x hx
      refine ⟨hne x hx' ?_,nofun,hfound⟩
      rintro rfl
      exact hfront hclear
    · obtain ⟨hx',hfront⟩ := h.found g x hx
      refine ⟨hne x hx' ?_,nofun⟩
      rintro rfl
      exact hfront hclear
  · next req hclear =>
    have htaken : req ∈ s.taken := by simp [taken,hclear,clearTaken]
    rw [h.onReq_eq (.inr (.inl htaken))] at hu
    cases hu
    refine ⟨h.sound,h.asked,h.accepted,h.subset,fun x => ?_,fun x => ?_,fun x hx => ?_,fun g x hx => ?_,nofun,nofun,
      fun x hx => ?_⟩
    · have hbook := h.finals x
      simp only [taken,hclear,clearTaken,ObserveState.finals,List.count_append,count_answer,count_closing_granted,
        List.count_nil] at hbook ⊢
      omega
    · have hbook := h.deleted x
      simp only [taken,answered,hclear,clearTaken,clearAnswered,List.count_append,List.count_nil] at hbook ⊢
      omega
    · obtain ⟨hx',-,hfound⟩ := h.telling x hx
      exact ⟨hx',nofun,hfound⟩
    · exact ⟨(h.found g x hx).1,nofun⟩
    · exact h.told x (by simpa using hx)
  · next req hclear =>
    have hanswered : req ∈ s.answered := by simp [answered,hclear,clearAnswered]
    rw [h.onReq_eq (.inr (.inr hanswered))] at hu
    cases hu
    refine ⟨h.sound,h.asked,h.accepted,h.subset,fun x => ?_,fun x => ?_,fun x hx => ?_,fun g x hx => ?_,nofun,nofun,
      h.told⟩
    · have hbook := h.finals x
      rw [taken,hclear] at hbook
      exact hbook
    · have hbook := h.deleted x
      simp only [taken,answered,hclear,clearTaken,clearAnswered,List.count_append,List.count_nil] at hbook ⊢
      omega
    · obtain ⟨hx',-,hfound⟩ := h.telling x hx
      exact ⟨hx',nofun,hfound⟩
    · exact ⟨(h.found g x hx).1,nofun⟩
  · cases hu

theorem step [DecidableEq U] [DecidableEq G] {a : ObserveAct U R G} (h : s.Inv) (hu : s.step observer a = some u)
    (hc : s.CarefulObserve observer a u) : u.Inv := by
  unfold ObserveState.step at hu
  rw [if_neg (by simp [h.sound])] at hu
  cases a with
  | addObserver username =>
    dsimp only at hu
    split at hu
    · cases hu
    · split at hu
      · cases hu
        exact h
      · cases hu
        exact ⟨h.sound,h.asked,h.accepted,h.subset,h.finals,h.deleted,h.telling,h.found,h.front,h.closed,h.told⟩
  | observe req valid =>
    dsimp only at hu
    split at hu
    · cases hu
    · next hno =>
      cases hu
      rw [Bool.or_eq_true,decide_eq_true_eq,not_or,Option.not_isSome_iff_eq_none] at hno
      obtain ⟨hshare,hnew⟩ := hno
      unfold ObserveState.receive
      split
      · next hok =>
        obtain ⟨hvalid,hallowed⟩ := (Bool.and_eq_true _ _).mp hok
        obtain ⟨hfind,hopen⟩ := hc hvalid (of_decide_eq_true hallowed)
        rw [hfind,if_neg (by simp)]
        exact h.enqueue hshare hnew hopen
      · exact h.refuse hnew
  | tell req =>
    dsimp only at hu
    split at hu
    · next hreq =>
      cases hu
      exact h.tell hreq
    · cases hu
  | grant g username valid =>
    dsimp only at hu
    split at hu
    · cases hu
    · next hno =>
      rw [Bool.or_eq_true,not_or,Option.not_isSome_iff_eq_none] at hno
      have hshare := hno.1
      split at hu
      · next hvalid =>
        split at hu
        · next req hfind =>
          cases hu
          obtain ⟨htell,hfront⟩ := hc hvalid req hfind
          exact h.grantFound hshare (List.mem_of_find?_eq_some hfind) htell hfront _
        · cases hu
          exact ⟨h.sound,h.asked,h.accepted,h.subset,h.finals,h.deleted,h.telling,h.found,h.front,h.closed,h.told⟩
      · cases hu
        exact ⟨h.sound,h.asked,h.accepted,h.subset,h.finals,h.deleted,h.telling,h.found,h.front,h.closed,h.told⟩
  | grantNext =>
    dsimp only at hu
    split at hu
    · next g req stage hshare =>
      cases hu
      exact h.grantNext hshare
    · cases hu
  | reply g =>
    dsimp only at hu
    split at hu
    · cases hu
      exact ⟨h.sound,h.asked,h.accepted,h.subset,h.finals,h.deleted,h.telling,h.found,h.front,h.closed,h.told⟩
    · cases hu
  | clear => exact h.clearNext hu hc

end Inv

/-! ### The grants -/

/-- Every grant is answered by its handler, or going to be. -/
structure GrantInv [DecidableEq G] (s : ObserveState U R G) : Prop where
  share : s.share = none
  nodup : s.granting.Nodup
  answers : ∀ g, s.replying.count g + s.grantAnswers.count g = s.granting.count g

theorem onReq_cases (s u : ObserveState U R G) (req : R) : s.onReq u req = u ∨ s.onReq u req = { s with broken := true } := by
  unfold onReq
  split
  · exact .inr rfl
  · exact .inl rfl

namespace GrantInv

variable [DecidableEq G]

omit [DecidableEq R] in
theorem congr (h : s.GrantInv) (hshare : u.share = s.share) (hgranting : u.granting = s.granting)
    (hreplying : u.replying = s.replying) (hanswers : u.grantAnswers = s.grantAnswers) : u.GrantInv where
  share := hshare.trans h.share
  nodup := hgranting ▸ h.nodup
  answers g := by
    rw [hgranting,hreplying,hanswers]
    exact h.answers g

theorem onReq (h : s.GrantInv) (hu : u.GrantInv) : (s.onReq u req).GrantInv := by
  obtain e | e := onReq_cases s u req
  · rw [e]
    exact hu
  · rw [e]
    exact h.congr rfl rfl rfl rfl

omit [DecidableEq R] in
theorem receive [DecidableEq U] {valid : Bool} (h : s.GrantInv) : (s.receive observer req valid).GrantInv := by
  unfold ObserveState.receive
  split
  · split
    · exact h.congr rfl rfl rfl rfl
    · exact h.congr rfl rfl rfl rfl
  · exact h.congr rfl rfl rfl rfl

theorem clearNext (h : s.GrantInv) (hu : s.clearNext = some u) : u.GrantInv := by
  unfold ObserveState.clearNext at hu
  split at hu
  · cases hu
    exact h.congr rfl rfl rfl rfl
  · split at hu
    · cases hu
      exact h.congr rfl rfl rfl rfl
    · cases hu
      exact h.congr rfl rfl rfl rfl
  · split at hu
    · cases hu
      exact h.congr rfl rfl rfl rfl
    · cases hu
      exact h.congr rfl rfl rfl rfl
  · cases hu
    exact h.onReq (h.congr rfl rfl rfl rfl)
  · cases hu
    exact h.onReq (h.congr rfl rfl rfl rfl)
  · cases hu

theorem step [DecidableEq U] {a : ObserveAct U R G} (h : s.GrantInv) (hu : s.step observer a = some u)
    (hc : s.CarefulGrant observer a u) : u.GrantInv := by
  unfold ObserveState.step at hu
  split at hu
  · cases hu
  cases a with
  | addObserver username =>
    dsimp only at hu
    split at hu
    · cases hu
    · split at hu
      · cases hu
        exact h
      · cases hu
        exact h.congr rfl rfl rfl rfl
  | observe req valid =>
    dsimp only at hu
    split at hu
    · cases hu
    · cases hu
      exact h.receive
  | tell req =>
    dsimp only at hu
    split at hu
    · cases hu
      exact h.onReq (h.congr rfl rfl rfl rfl)
    · cases hu
  | grant g username valid =>
    dsimp only at hu
    split at hu
    · cases hu
    · next hno =>
      rw [Bool.or_eq_true,decide_eq_true_eq,not_or] at hno
      have hnodup : (s.granting ++ [g]).Nodup := List.nodup_append_comm.mpr (List.nodup_cons.mpr ⟨hno.2,h.nodup⟩)
      split at hu
      · next hvalid =>
        split at hu
        · next req hfind => exact nomatch (hc hvalid).symm.trans hfind
        · cases hu
          refine ⟨h.share,hnodup,fun g' => ?_⟩
          have := h.answers g'
          simp only [List.count_append]
          omega
      · cases hu
        refine ⟨h.share,hnodup,fun g' => ?_⟩
        have := h.answers g'
        simp only [List.count_append]
        omega
  | grantNext =>
    dsimp only at hu
    rw [h.share] at hu
    cases hu
  | reply g =>
    dsimp only at hu
    split at hu
    · next hg =>
      cases hu
      refine ⟨h.share,h.nodup,fun g' => ?_⟩
      have hbook := h.answers g'
      have hcount := (List.perm_cons_erase hg).count_eq g'
      rw [← List.singleton_append,List.count_append] at hcount
      simp only [List.count_append]
      omega
    · cases hu
  | clear => exact h.clearNext hu

omit [DecidableEq R] in
theorem grantsAnswered (h : s.GrantInv) : s.GrantsAnswered := by
  intro g hg
  have hbook := h.answers g
  have hone := List.count_eq_one_of_mem h.nodup hg
  refine ⟨by omega,fun hno => ?_⟩
  have hreply : s.replying.count g = 0 := List.count_eq_zero_of_not_mem fun hr => hno (.inl hr)
  omega

end GrantInv

/-! ### Who is granted -/

/-- The requests that are waiting, in the hands of a grant or granted. -/
def Held (s : ObserveState U R G) (req : R) : Prop :=
  req ∈ s.observeReqs ∨ (∃ g stage, s.share = some (g,req,stage)) ∨ (req,.granted) ∈ s.answers

/-- A step holds on to what may observe, and takes nothing else up. -/
def Admits (observer : R → U) (s u : ObserveState U R G) : Prop :=
  (∀ req, s.MayObserve observer req → u.MayObserve observer req) ∧
    ∀ req, u.Held req → s.Held req ∨ u.MayObserve observer req

theorem Admits.onReq (h : s.Admits observer u) : s.Admits observer (s.onReq u req) := by
  obtain e | e := onReq_cases s u req
  · rw [e]
    exact h
  · rw [e]
    exact ⟨fun _ hx => hx,fun _ hx => .inl hx⟩

omit [DecidableEq R] in
theorem admits_receive [DecidableEq U] {valid : Bool} : s.Admits observer (s.receive observer req valid) := by
  unfold receive
  split
  · next hok =>
    have hallowed := of_decide_eq_true ((Bool.and_eq_true _ _).mp hok).2
    split
    · exact ⟨fun x hx => ⟨List.mem_append_left _ hx.1,hx.2⟩,fun x hx => .inl hx⟩
    · refine ⟨fun x hx => ⟨List.mem_append_left _ hx.1,hx.2⟩,fun x hx => ?_⟩
      obtain hx | hx := hx
      · obtain hx | hx := List.mem_append.mp hx
        · exact .inl (.inl hx)
        · rw [List.mem_singleton.mp hx]
          exact .inr ⟨List.mem_append_right _ (List.mem_singleton_self _),hallowed⟩
      · exact .inl (.inr hx)
  · refine ⟨fun x hx => ⟨List.mem_append_left _ hx.1,hx.2⟩,fun x hx => .inl ?_⟩
    simpa [Held,refuse] using hx

theorem admits_grantNext {g : G} {stage : GrantStage} (hshare : s.share = some (g,req,stage)) :
    s.Admits observer (s.grantNext g req stage) := by
  have hheld : s.Held req := .inr (.inl ⟨g,stage,hshare⟩)
  cases stage with
  | found =>
    by_cases hr : req ∈ s.observeReqs
    · rw [grantNext,if_pos hr]
      refine ⟨fun _ hx => hx,fun x hx => .inl ?_⟩
      obtain hx | ⟨_,_,⟨⟩⟩ | hx := hx
      · exact .inl (List.mem_of_mem_erase hx)
      · exact hheld
      · exact .inr (.inr hx)
    · rw [grantNext,if_neg hr]
      exact ⟨fun _ hx => hx,fun _ hx => .inl hx⟩
  | erased =>
    show s.Admits observer (s.onReq _ req)
    refine Admits.onReq ⟨fun _ hx => hx,fun x hx => .inl ?_⟩
    obtain hx | ⟨_,_,⟨⟩⟩ | hx := hx
    · exact .inl hx
    · exact hheld
    · obtain hx | hx := List.mem_append.mp hx
      · exact .inr (.inr hx)
      · cases List.mem_singleton.mp hx
        exact hheld
  | answered =>
    show s.Admits observer (s.onReq _ req)
    refine Admits.onReq ⟨fun _ hx => hx,fun x hx => .inl ?_⟩
    obtain hx | ⟨_,_,⟨⟩⟩ | hx := hx
    · exact .inl hx
    · exact hheld
    · exact .inr (.inr hx)
  | deleted =>
    refine ⟨fun _ hx => hx,fun x hx => .inl ?_⟩
    obtain hx | ⟨_,_,⟨⟩⟩ | hx := hx
    · exact .inl hx
    · exact .inr (.inr hx)

theorem admits_clearNext (hu : s.clearNext = some u) : s.Admits observer u := by
  unfold clearNext at hu
  split at hu
  · cases hu
    exact ⟨fun _ hx => hx,fun _ hx => .inl hx⟩
  · split at hu
    · cases hu
      exact ⟨fun _ hx => hx,fun _ hx => .inl hx⟩
    · cases hu
      exact ⟨fun _ hx => hx,fun _ hx => .inl hx⟩
  · split at hu
    · cases hu
      exact ⟨fun _ hx => hx,fun _ hx => .inl hx⟩
    · next hreqs =>
      cases hu
      refine ⟨fun _ hx => hx,fun x hx => .inl ?_⟩
      obtain hx | hx := hx
      · exact .inl (hreqs ▸ List.mem_cons_of_mem _ hx)
      · exact .inr hx
  · cases hu
    refine Admits.onReq ⟨fun _ hx => hx,fun x hx => .inl ?_⟩
    simpa [Held] using hx
  · cases hu
    exact Admits.onReq ⟨fun _ hx => hx,fun _ hx => .inl hx⟩
  · cases hu

theorem admits_step [DecidableEq U] [DecidableEq G] {a : ObserveAct U R G} (hu : s.step observer a = some u) :
    s.Admits observer u := by
  unfold step at hu
  split at hu
  · cases hu
  cases a with
  | addObserver username =>
    dsimp only at hu
    split at hu
    · cases hu
    · split at hu
      · cases hu
        exact ⟨fun _ hx => hx,fun _ hx => .inl hx⟩
      · cases hu
        exact ⟨fun _ hx => ⟨hx.1,List.mem_append_left _ hx.2⟩,fun _ hx => .inl hx⟩
  | observe req valid =>
    dsimp only at hu
    split at hu
    · cases hu
    · cases hu
      exact admits_receive
  | tell req =>
    dsimp only at hu
    split at hu
    · cases hu
      refine Admits.onReq ⟨fun _ hx => hx,fun x hx => .inl ?_⟩
      simpa [Held] using hx
    · cases hu
  | grant g username valid =>
    dsimp only at hu
    split at hu
    · cases hu
    · split at hu
      · split at hu
        · next req hfind =>
          cases hu
          refine ⟨fun _ hx => hx,fun x hx => .inl ?_⟩
          obtain hx | ⟨_,_,⟨⟩⟩ | hx := hx
          · exact .inl hx
          · exact .inl (List.mem_of_find?_eq_some hfind)
          · exact .inr (.inr hx)
        · cases hu
          exact ⟨fun _ hx => hx,fun _ hx => .inl hx⟩
      · cases hu
        exact ⟨fun _ hx => hx,fun _ hx => .inl hx⟩
  | grantNext =>
    dsimp only at hu
    split at hu
    · next g req stage hshare =>
      cases hu
      exact admits_grantNext hshare
    · cases hu
  | reply g =>
    dsimp only at hu
    split at hu
    · cases hu
      exact ⟨fun _ hx => hx,fun _ hx => .inl hx⟩
    · cases hu
  | clear => exact admits_clearNext hu

section Main

variable [DecidableEq U] [DecidableEq G]

theorem delivered {tr : List (ObserveAct U R G × ObserveState U R G)}
    (hr : IsRun (fun s a u => s.step observer a = some u) init tr) : EveryState (Delivered observer) init tr := by
  have hheld : EveryState (fun s => ∀ req, s.Held req → s.MayObserve observer req) init tr := by
    refine hr.invariant (fun s a u h hu req hreq => ?_) ?_
    · obtain ⟨hkeep,hnew⟩ := admits_step hu
      exact (hnew req hreq).elim (fun hx => hkeep req (h req hx)) id
    · rintro req (hx | ⟨_,_,⟨⟩⟩ | hx)
      · cases hx
      · cases hx
  exact hheld.mono fun s h req hreq => h req (.inr (.inr hreq))

/-- The answers are right in runs in which no observer asks twice at a time, `clear` and a grant do not meet at a request
and a handler is done with it before they are. The handler of a grant answers it once more if it has been delivered. -/
theorem answered_of_careful (observer : R → U) (tr : List (ObserveAct U R G × ObserveState U R G))
    (hr : IsRun (fun s a u => s.step observer a = some u) init tr) :
    (EveryStep (CarefulObserve observer) init tr → EveryState ObserversAnswered init tr) ∧
    (EveryStep (CarefulGrant observer) init tr → EveryState GrantsAnswered init tr) ∧
    EveryState (Delivered observer) init tr := by
  refine ⟨fun hc => ?_,fun hc => ?_,delivered hr⟩
  · exact (hr.everyState (P := Inv) (fun _ _ _ h hu hcare => h.step hu hcare) inv_init hc).mono
      fun _ h => h.observersAnswered
  · exact (hr.everyState (P := GrantInv) (fun _ _ _ h hu hcare => h.step hu hcare) ⟨rfl,.nil,fun _ => rfl⟩ hc).mono
      fun _ h => h.grantsAnswered

end Main

/-- What the answers should be. -/
def Exact [DecidableEq G] (observer : R → U) (s : ObserveState U R G) : Prop :=
  s.ObserversAnswered ∧ s.GrantsAnswered ∧ s.Delivered observer

/-- An observer asks and waits, and the session is cleared. -/
def oneObserver : List (ObserveAct Unit Unit Unit × ObserveState Unit Unit Unit) :=
  runOf (step id) init
    [.addObserver (),.observe () true,.tell (),.clear,.clear,.clear,.clear,.clear,.clear,.grant () () true,.reply ()]

theorem answered_oneObserver : EveryState ObserversAnswered init oneObserver ∧ EveryState GrantsAnswered init oneObserver := by
  obtain ⟨hobserve,hgrant,-⟩ := answered_of_careful id oneObserver (isRun_runOf _ _ _)
  exact ⟨hobserve (by decide),hgrant (by decide)⟩

/-- An observer is granted what it has asked for. -/
def oneGrant : List (ObserveAct Unit Unit Unit × ObserveState Unit Unit Unit) :=
  runOf (step id) init
    [.addObserver (),.observe () true,.tell (),.grant () () true,.grantNext,.grantNext,.grantNext,.grantNext,.reply ()]

theorem oneGrant_not_exact :
    ¬∀ tr : List (ObserveAct Unit Unit Unit × ObserveState Unit Unit Unit),
      IsRun (fun s a u => s.step id a = some u) init tr → EveryState (Exact id) init tr := by
  intro h
  have hlast := (h oneGrant (isRun_runOf _ _ _)).last
  have hno : ¬(lastState init oneGrant).grantAnswers.count () ≤ 1 := by decide
  exact hno (hlast.2.1 () (by decide)).1

end ObserveState
end OnlDaemons.Crd

import OnlDaemons.Lib.Run
import Mathlib.Logic.Function.Basic
import Mathlib.Tactic.Common

/-!
# Up messages

`do_refresh` tells a node to reboot, or to boot the file system of a user, and waits for the up message of the node. The
thread that reads the message looks for a component with the host of the node and sets a flag of it. The flag is looked
at when the wait begins, and reset when it ends.

## Main definitions

- `UpState`, `UpState.step` — the components, their flags and waits, and the messages on their way to a component
- `UpState.Fresh` — every wait has returned whether a message has come since the request
- `UpState.Careful` — the steps that keep it so

## Main result

- `fresh_of_careful`
-/

namespace OnlDaemons.Crd
open OnlDaemons.Lib

/-- `arrived` is a record: the node has sent an up message since the request. `timedOut`: the time is over and the
mutex not taken again. -/
inductive UpPhase
  | idle
  | requested (arrived : Bool)
  | waiting (arrived : Bool)
  | timedOut (arrived : Bool)
deriving DecidableEq, Repr

namespace UpPhase

/-- Whether a message has come, from the request to the end of the wait. -/
def arrived : UpPhase → Option Bool
  | idle => none
  | requested a | waiting a | timedOut a => some a

def arrive : UpPhase → UpPhase
  | idle => idle
  | requested _ => requested true
  | waiting _ => waiting true
  | timedOut _ => timedOut true

end UpPhase

/-- `received` is `received_up_msg` and `found` the components that a handler has found and not told yet. `ended`
records the waits that have returned: what they returned, and whether a message had come. -/
structure UpState (C : Type) where
  received : C → Bool
  phase : C → UpPhase
  refreshing : List C
  active : List C
  found : List C
  ended : List (C × Bool × Bool)

/-- `list` stands for what changes the lists of the session manager, and `leave` for a refresh that fails between the
request and the wait, or does not wait. A dependent that cannot be contacted waits without a request; `request` is then
where it would be sent. -/
inductive UpAct (C : Type)
  | list (refreshing active : List C)
  | upMsg (hostname : String)
  | gotUpMsg (c : C)
  | request (c : C)
  | leave (c : C)
  | wait (c : C)
  | wake (c : C)
  | timeout (c : C)
  | giveUp (c : C)
deriving DecidableEq, Repr

namespace UpState

variable {C : Type} [DecidableEq C] (cp : C → String)

def init : UpState C where
  received _ := false
  phase _ := .idle
  refreshing := []
  active := []
  found := []
  ended := []

/-- The search of `session_manager::received_up_msg`. -/
def findComp (s : UpState C) (hostname : String) : Option C :=
  (s.refreshing.find? fun c => cp c = hostname).or (s.active.find? fun c => cp c = hostname)

def goto (s : UpState C) (c : C) (p : UpPhase) : UpState C :=
  { s with phase := Function.update s.phase c p }

/-- The end of `wait_for_up_msg`. -/
def finish (s : UpState C) (c : C) (result arrived : Bool) : UpState C where
  received := Function.update s.received c false
  phase := Function.update s.phase c .idle
  refreshing := s.refreshing
  active := s.active
  found := s.found
  ended := s.ended ++ [(c,result,arrived)]

/-- The loop of `wait_for_up_msg` without a time-out. -/
def look (s : UpState C) (c : C) (arrived : Bool) : UpState C :=
  if s.received c then s.finish c true arrived else s.goto c (.waiting arrived)

def step (s : UpState C) : UpAct C → Option (UpState C)
  | .list refreshing active => some { s with refreshing := refreshing, active := active }
  | .upMsg hostname =>
    some { s with
      phase := fun c => if cp c = hostname then (s.phase c).arrive else s.phase c
      found := s.found ++ (s.findComp cp hostname).toList }
  | .gotUpMsg c =>
    if c ∈ s.found then
      some { s with found := s.found.erase c, received := Function.update s.received c true }
    else none
  | .request c =>
    match s.phase c with
    | .idle => some (s.goto c (.requested false))
    | _ => none
  | .leave c =>
    match s.phase c with
    | .requested _ => some (s.goto c .idle)
    | _ => none
  | .wait c =>
    match s.phase c with
    | .requested arrived => some (s.look c arrived)
    | _ => none
  | .wake c =>
    match s.phase c with
    | .waiting arrived => some (s.look c arrived)
    | _ => none
  | .timeout c =>
    match s.phase c with
    | .waiting arrived => some (s.goto c (.timedOut arrived))
    | _ => none
  -- the time-out is what counts, even if a message has come in the meantime
  | .giveUp c =>
    match s.phase c with
    | .timedOut arrived => some (s.finish c false arrived)
    | _ => none

/-- A wait has returned true if and only if a message has come since its request. -/
def Fresh (s : UpState C) : Prop := ∀ x ∈ s.ended, x.2.1 = x.2.2

/-- No message is left for a component when it makes its request or gives up, and a message finds every component of
its node that waits or is going to. -/
def Careful (s : UpState C) (a : UpAct C) (_ : UpState C) : Prop :=
  match a with
  | .request c | .giveUp c => s.received c = false ∧ c ∉ s.found
  | .upMsg hostname => ∀ c, cp c = hostname → s.phase c ≠ .idle → s.findComp cp hostname = some c
  | _ => True

/-- A component that waits, or is going to, has a message for it exactly if one has come. -/
structure Inv (s : UpState C) : Prop where
  arrived : ∀ c a, (s.phase c).arrived = some a → (a = true ↔ s.received c = true ∨ c ∈ s.found)
  fresh : s.Fresh

variable {cp} {s u : UpState C} {c : C}

omit [DecidableEq C] in
theorem inv_init : (init : UpState C).Inv := ⟨nofun,nofun⟩

omit [DecidableEq C] in
theorem cp_of_findComp {hostname : String} (h : s.findComp cp hostname = some c) : cp c = hostname := by
  unfold findComp at h
  obtain h | ⟨_,h⟩ := Option.or_eq_some_iff.mp h
  · exact of_decide_eq_true (List.find?_some h :)
  · exact of_decide_eq_true (List.find?_some h :)

theorem arrived_arrive (p : UpPhase) : p.arrive.arrived = p.arrived.map fun _ => true := by
  cases p <;> rfl

theorem Inv.goto {p : UpPhase} (h : s.Inv)
    (hp : ∀ a, p.arrived = some a → (a = true ↔ s.received c = true ∨ c ∈ s.found)) : (s.goto c p).Inv where
  arrived c' a ha := by
    change (Function.update s.phase c p c').arrived = some a at ha
    rw [Function.update_apply] at ha
    split at ha
    · next e => exact e ▸ hp a ha
    · exact h.arrived c' a ha
  fresh := h.fresh

theorem Inv.finish {result arrived : Bool} (h : s.Inv) (hr : result = arrived) : (s.finish c result arrived).Inv where
  arrived c' a ha := by
    change (Function.update s.phase c .idle c').arrived = some a at ha
    show a = true ↔ Function.update s.received c false c' = true ∨ c' ∈ s.found
    rw [Function.update_apply] at ha ⊢
    split at ha
    · cases ha
    · next hne =>
      rw [if_neg hne]
      exact h.arrived c' a ha
  fresh x hx := by
    obtain hx | hx := List.mem_append.mp hx
    · exact h.fresh x hx
    · rw [List.mem_singleton.mp hx]
      exact hr

theorem Inv.look {a : Bool} (h : s.Inv) (ha : (s.phase c).arrived = some a) : (s.look c a).Inv := by
  have hiff := h.arrived c a ha
  unfold UpState.look
  split
  · next hrec => exact h.finish (hiff.mpr (.inl hrec)).symm
  · refine h.goto ?_
    rintro _ ⟨⟩
    exact hiff

theorem Inv.step {a : UpAct C} (h : s.Inv) (hu : s.step cp a = some u) (hc : s.Careful cp a u) : u.Inv := by
  cases a with
  | list refreshing active =>
    cases hu
    exact ⟨h.arrived,h.fresh⟩
  | upMsg hostname =>
    cases hu
    refine ⟨fun c a ha => ?_,h.fresh⟩
    show a = true ↔ s.received c = true ∨ c ∈ s.found ++ (s.findComp cp hostname).toList
    change (if cp c = hostname then (s.phase c).arrive else s.phase c).arrived = some a at ha
    rw [List.mem_append,Option.mem_toList]
    split at ha
    · next hcp =>
      rw [arrived_arrive] at ha
      obtain ⟨a',ha',rfl⟩ := Option.map_eq_some_iff.mp ha
      have hbusy : s.phase c ≠ .idle := by
        intro hidle
        rw [hidle] at ha'
        cases ha'
      exact iff_of_true rfl (.inr (.inr (hc c hcp hbusy)))
    · next hcp =>
      rw [h.arrived c a ha]
      exact (or_congr_right (or_iff_left fun hfind => hcp (cp_of_findComp hfind))).symm
  | gotUpMsg c =>
    simp only [UpState.step] at hu
    split at hu
    · next hfound =>
      cases hu
      refine ⟨fun c' a ha => ?_,h.fresh⟩
      show a = true ↔ Function.update s.received c true c' = true ∨ c' ∈ s.found.erase c
      rw [h.arrived c' a ha,Function.update_apply]
      split
      · next e =>
        subst e
        exact iff_of_true (.inr hfound) (.inl rfl)
      · next hne => rw [List.mem_erase_of_ne hne]
    · cases hu
  | request c =>
    simp only [UpState.step] at hu
    split at hu
    · cases hu
      refine h.goto ?_
      rintro _ ⟨⟩
      refine iff_of_false nofun ?_
      rintro (hrec | hfound)
      · rw [hc.1] at hrec
        cases hrec
      · exact hc.2 hfound
    · cases hu
  | leave c =>
    simp only [UpState.step] at hu
    split at hu
    · cases hu
      exact h.goto nofun
    · cases hu
  | wait c =>
    simp only [UpState.step] at hu
    split at hu
    · next hp =>
      cases hu
      exact h.look (by rw [hp]; rfl)
    · cases hu
  | wake c =>
    simp only [UpState.step] at hu
    split at hu
    · next hp =>
      cases hu
      exact h.look (by rw [hp]; rfl)
    · cases hu
  | timeout c =>
    simp only [UpState.step] at hu
    split at hu
    · next a hp =>
      cases hu
      refine h.goto ?_
      rintro _ ⟨⟩
      exact h.arrived c a (by rw [hp]; rfl)
    · cases hu
  | giveUp c =>
    simp only [UpState.step] at hu
    split at hu
    · next a hp =>
      cases hu
      refine h.finish ?_
      have hiff := h.arrived c a (by rw [hp]; rfl)
      cases a with
      | false => rfl
      | true =>
        obtain hrec | hfound := hiff.mp rfl
        · rw [hc.1] at hrec
          cases hrec
        · exact absurd hfound hc.2
    · cases hu

/-- The waits are right in runs in which no message is left over and none goes to another component. -/
theorem fresh_of_careful (cp : C → String) (tr : List (UpAct C × UpState C))
    (hr : IsRun (fun s a u => s.step cp a = some u) init tr) (hc : EveryStep (Careful cp) init tr) :
    EveryState Fresh init tr :=
  (hr.everyState (P := Inv) (fun _ _ _ h hu hcare => h.step hu hcare) inv_init hc).mono fun _ h => h.fresh

/-- A refresh during which the up message comes. -/
def oneRefresh : List (UpAct Unit × UpState Unit) :=
  runOf (step fun _ => "onl1") init
    [.list [()] [],.request (),.upMsg "onl1",.gotUpMsg (),.wait ()]

theorem fresh_oneRefresh : EveryState Fresh init oneRefresh :=
  fresh_of_careful (fun _ => "onl1") oneRefresh (isRun_runOf _ _ _)
    ⟨trivial,⟨rfl,nofun⟩,fun _ _ _ => rfl,trivial,trivial,trivial⟩

/-- The node comes up once more before it is told to reboot. -/
def leftOver : List (UpAct Unit × UpState Unit) :=
  runOf (step fun _ => "onl1") init
    [.list [()] [],.upMsg "onl1",.gotUpMsg (),.request (),.wait ()]

theorem leftOver_not_fresh :
    ¬∀ tr : List (UpAct Unit × UpState Unit), IsRun (fun s a u => s.step (fun _ => "onl1") a = some u) init tr →
      EveryState Fresh init tr := by
  intro h
  have hlast := (h leftOver (isRun_runOf _ _ _)).last
  have hno : ¬∀ x ∈ (lastState init leftOver).ended, x.2.1 = x.2.2 := by decide
  exact hno hlast

end UpState
end OnlDaemons.Crd

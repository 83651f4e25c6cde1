import Mathlib.Data.List.Basic

/-!
# Runs of labelled transition systems

A run is the list of its labels, each with the state the step led to. The rules below turn
what one step does into what holds in every state of a run, with or without a condition on
the steps taken.

## Main definitions

- `IsRun step s tr` — `tr` is a run of `step` from `s`
- `EveryState P s tr` — `P` holds in `s` and in every state of `tr`
- `EveryStep C s tr` — `C` holds of every step, of its first state, label and last state
- `lastState s tr` — the state the run ends in
-/

namespace OnlDaemons.Lib

variable {σ ι : Type*}

/-- A run from `s`: each label takes the state before it to the state beside it. -/
def IsRun (step : σ → ι → σ → Prop) : σ → List (ι × σ) → Prop
  | _, [] => True
  | s, (a, t) :: tr => step s a t ∧ IsRun step t tr

/-- Every state the run visits, its first one included. -/
def EveryState (P : σ → Prop) : σ → List (ι × σ) → Prop
  | s, [] => P s
  | s, (_, t) :: tr => P s ∧ EveryState P t tr

/-- Every step of the run. -/
def EveryStep (C : σ → ι → σ → Prop) : σ → List (ι × σ) → Prop
  | _, [] => True
  | s, (a, t) :: tr => C s a t ∧ EveryStep C t tr

instance EveryStep.decidable {C : σ → ι → σ → Prop} [∀ s a t, Decidable (C s a t)] :
    (s : σ) → (tr : List (ι × σ)) → Decidable (EveryStep C s tr)
  | _, [] => .isTrue trivial
  | s, (a, t) :: tr =>
    haveI := EveryStep.decidable (C := C) t tr
    inferInstanceAs (Decidable (C s a t ∧ EveryStep C t tr))

/-- The state a run from `s` ends in. -/
def lastState : σ → List (ι × σ) → σ
  | s, [] => s
  | _, (_, t) :: tr => lastState t tr

/-- The run of `exec` with a list of labels, as far as it goes. -/
def runOf (exec : σ → ι → Option σ) : σ → List ι → List (ι × σ)
  | _, [] => []
  | s, a :: as =>
    match exec s a with
    | none => []
    | some t => (a, t) :: runOf exec t as

theorem isRun_runOf (exec : σ → ι → Option σ) (s : σ) (as : List ι) :
    IsRun (fun s a t => exec s a = some t) s (runOf exec s as) := by
  induction as generalizing s with
  | nil => trivial
  | cons a as ih =>
    unfold runOf
    split
    · trivial
    · next t h => exact ⟨h, ih t⟩

theorem EveryState.head {P : σ → Prop} {s : σ} {tr : List (ι × σ)}
    (h : EveryState P s tr) : P s := by
  cases tr with
  | nil => exact h
  | cons _ _ => exact h.1

theorem EveryState.mono {P Q : σ → Prop} (hpq : ∀ s, P s → Q s) {s : σ} {tr : List (ι × σ)}
    (h : EveryState P s tr) : EveryState Q s tr := by
  induction tr generalizing s with
  | nil => exact hpq _ h
  | cons x tr ih => exact ⟨hpq _ h.1, ih h.2⟩

theorem EveryState.last {P : σ → Prop} {s : σ} {tr : List (ι × σ)}
    (h : EveryState P s tr) : P (lastState s tr) := by
  induction tr generalizing s with
  | nil => exact h
  | cons x tr ih => exact ih h.2

/-- Invariant rule for runs whose steps all meet a condition. -/
theorem IsRun.everyState {step : σ → ι → σ → Prop} {C : σ → ι → σ → Prop} {P : σ → Prop}
    (hstep : ∀ s a t, P s → step s a t → C s a t → P t)
    {s : σ} {tr : List (ι × σ)} (hr : IsRun step s tr) (hs : P s)
    (hc : EveryStep C s tr) : EveryState P s tr := by
  induction tr generalizing s with
  | nil => exact hs
  | cons x tr ih => exact ⟨hs, ih hr.2 (hstep _ _ _ hs hr.1 hc.1) hc.2⟩

/-- What an invariant says of each step holds of every step of such a run. -/
theorem IsRun.everyStep {step : σ → ι → σ → Prop} {C D : σ → ι → σ → Prop} {P : σ → Prop}
    (hstep : ∀ s a t, P s → step s a t → C s a t → P t)
    (hgood : ∀ s a t, P s → step s a t → C s a t → D s a t)
    {s : σ} {tr : List (ι × σ)} (hr : IsRun step s tr) (hs : P s)
    (hc : EveryStep C s tr) : EveryStep D s tr := by
  induction tr generalizing s with
  | nil => trivial
  | cons x tr ih =>
    exact ⟨hgood _ _ _ hs hr.1 hc.1, ih hr.2 (hstep _ _ _ hs hr.1 hc.1) hc.2⟩

/-- Two conditions that agree on the steps out of invariant states agree on runs. -/
theorem IsRun.everyStep_congr {step : σ → ι → σ → Prop} {C D : σ → ι → σ → Prop} {P : σ → Prop}
    (hstep : ∀ s a t, P s → step s a t → P t)
    (hiff : ∀ s a t, P s → step s a t → (C s a t ↔ D s a t))
    {s : σ} {tr : List (ι × σ)} (hr : IsRun step s tr) (hs : P s) :
    EveryStep C s tr ↔ EveryStep D s tr := by
  have hkeep : ∀ E : σ → ι → σ → Prop, ∀ s a t, P s → step s a t → E s a t → P t :=
    fun _ s a t h ht _ => hstep s a t h ht
  exact ⟨hr.everyStep (hkeep C) (fun s a t h ht hc => (hiff s a t h ht).mp hc) hs,
    hr.everyStep (hkeep D) (fun s a t h ht hd => (hiff s a t h ht).mpr hd) hs⟩

/-- If a step out of a good state is good exactly when it meets the condition, then the runs
whose states are all good are exactly the runs whose steps all meet the condition. -/
theorem IsRun.everyState_iff {step : σ → ι → σ → Prop} {C : σ → ι → σ → Prop} {P Q : σ → Prop}
    (hkeep : ∀ s a t, P s → step s a t → C s a t → P t)
    (hbreak : ∀ s a t, P s → step s a t → Q t → C s a t)
    (hpq : ∀ s, P s → Q s) {s : σ} {tr : List (ι × σ)}
    (hr : IsRun step s tr) (hs : P s) : EveryState Q s tr ↔ EveryStep C s tr := by
  constructor
  · intro h
    induction tr generalizing s with
    | nil => trivial
    | cons x tr ih =>
      have hc := hbreak _ _ _ hs hr.1 h.2.head
      exact ⟨hc, ih hr.2 (hkeep _ _ _ hs hr.1 hc) h.2⟩
  · intro h
    exact (hr.everyState hkeep hs h).mono hpq

/-- The invariant rule for an invariant of every step. -/
theorem IsRun.invariant {step : σ → ι → σ → Prop} {P : σ → Prop}
    (hstep : ∀ s a t, P s → step s a t → P t)
    {s : σ} {tr : List (ι × σ)} (hr : IsRun step s tr) (hs : P s) : EveryState P s tr := by
  induction tr generalizing s with
  | nil => exact hs
  | cons x tr ih => exact ⟨hs, ih hr.2 (hstep _ _ _ hs hr.1)⟩

theorem IsRun.last_of {step : σ → ι → σ → Prop} {P : σ → Prop}
    (hstep : ∀ s a t, P s → step s a t → P t)
    {s : σ} {tr : List (ι × σ)} (hr : IsRun step s tr) (hs : P s) : P (lastState s tr) :=
  (hr.invariant hstep hs).last

/-- A run goes on where another one ends. -/
theorem IsRun.append {step : σ → ι → σ → Prop} {s : σ} {pre post : List (ι × σ)}
    (h : IsRun step s pre) (h' : IsRun step (lastState s pre) post) : IsRun step s (pre ++ post) := by
  induction pre generalizing s with
  | nil => exact h'
  | cons x pre ih => exact ⟨h.1, ih h.2 h'⟩

@[simp] theorem lastState_append (s : σ) (pre post : List (ι × σ)) :
    lastState s (pre ++ post) = lastState (lastState s pre) post := by
  induction pre generalizing s with
  | nil => rfl
  | cons x pre ih => exact ih x.2

/-- What is left of a run after its first steps is a run from where they end. -/
theorem IsRun.of_append {step : σ → ι → σ → Prop} {s : σ} {pre post : List (ι × σ)}
    (hr : IsRun step s (pre ++ post)) : IsRun step (lastState s pre) post := by
  induction pre generalizing s with
  | nil => exact hr
  | cons x pre ih => exact ih hr.2

theorem EveryStep.of_append {C : σ → ι → σ → Prop} {s : σ} {pre post : List (ι × σ)}
    (h : EveryStep C s (pre ++ post)) : EveryStep C (lastState s pre) post := by
  induction pre generalizing s with
  | nil => exact h
  | cons x pre ih => exact ih h.2

theorem EveryState.of_append {P : σ → Prop} {s : σ} {pre post : List (ι × σ)}
    (h : EveryState P s (pre ++ post)) : EveryState P (lastState s pre) post := by
  induction pre generalizing s with
  | nil => exact h
  | cons x pre ih => exact ih h.2

/-- The first steps of a run are a run. -/
theorem IsRun.of_prefix {step : σ → ι → σ → Prop} {s : σ} {pre post : List (ι × σ)}
    (hr : IsRun step s (pre ++ post)) : IsRun step s pre := by
  induction pre generalizing s with
  | nil => trivial
  | cons x pre ih => exact ⟨hr.1, ih hr.2⟩

theorem EveryStep.of_prefix {C : σ → ι → σ → Prop} {s : σ} {pre post : List (ι × σ)}
    (h : EveryStep C s (pre ++ post)) : EveryStep C s pre := by
  induction pre generalizing s with
  | nil => trivial
  | cons x pre ih => exact ⟨h.1, ih h.2⟩

/-- A step that misses the condition leads to a bad state, and no step leads out of one: a run
ends in a good state if all its steps meet the condition and in a bad one if not. -/
theorem IsRun.last_good_or_bad {step : σ → ι → σ → Prop} {C : σ → ι → σ → Prop}
    {P G B : σ → Prop} (hstep : ∀ s a t, P s → step s a t → P t)
    (hgood : ∀ s a t, P s → G s → step s a t → C s a t → G t)
    (hspoil : ∀ s a t, P s → step s a t → ¬C s a t → B t)
    (hbad : ∀ s a t, P s → B s → step s a t → B t)
    {s : σ} {tr : List (ι × σ)} (hr : IsRun step s tr) (hs : P s) (hg : G s) :
    (EveryStep C s tr ∧ G (lastState s tr)) ∨ (¬EveryStep C s tr ∧ B (lastState s tr)) := by
  induction tr generalizing s with
  | nil => exact .inl ⟨trivial, hg⟩
  | cons x tr ih =>
    have hx := hstep _ _ _ hs hr.1
    by_cases hc : C s x.1 x.2
    · obtain ⟨he, hl⟩ | ⟨he, hl⟩ := ih hr.2 hx (hgood _ _ _ hs hg hr.1 hc)
      · exact .inl ⟨⟨hc, he⟩, hl⟩
      · exact .inr ⟨fun h => he h.2, hl⟩
    · have hlast := hr.2.last_of (P := fun s => P s ∧ B s)
        (fun s a t h ht => ⟨hstep s a t h.1 ht, hbad s a t h.1 h.2 ht⟩)
        ⟨hx, hspoil _ _ _ hs hr.1 hc⟩
      exact .inr ⟨fun h => hc h.1, hlast.2⟩

/-- A run seen through `f` is a run of another system, when each step is one of its steps or is not seen at all. -/
theorem IsRun.exists_of_stutter {τ κ : Type*} {step : σ → ι → σ → Prop} {step' : τ → κ → τ → Prop} (f : σ → τ)
    (hstep : ∀ s a t, step s a t → f t = f s ∨ ∃ b, step' (f s) b (f t)) {s : σ} {tr : List (ι × σ)}
    (hr : IsRun step s tr) :
    ∃ tr', IsRun step' (f s) tr' ∧ ∀ P : τ → Prop, EveryState P (f s) tr' ↔ EveryState (fun t => P (f t)) s tr := by
  induction tr generalizing s with
  | nil => exact ⟨[], trivial, fun _ => Iff.rfl⟩
  | cons x tr ih =>
    obtain ⟨tr', hr', hvisits⟩ := ih hr.2
    have hrest (P : τ → Prop) :
        EveryState (fun t => P (f t)) s (x :: tr) ↔ P (f s) ∧ EveryState P (f x.2) tr' := by
      rw [hvisits P]
      exact Iff.rfl
    obtain hsame | ⟨b, hb⟩ := hstep _ _ _ hr.1
    · -- what is not seen leaves the other system where it is
      rw [hsame] at hr' hrest
      refine ⟨tr', hr', fun P => ?_⟩
      rw [hrest P]
      exact ⟨fun h => ⟨h.head, h⟩, And.right⟩
    · refine ⟨(b, f x.2) :: tr', ⟨hb, hr'⟩, fun P => ?_⟩
      rw [hrest P]
      exact Iff.rfl

end OnlDaemons.Lib

import OnlDaemons.Lib.Run
import Mathlib.Logic.Function.Basic
import Mathlib.Tactic.Common

/-!
# Control messages to plugins

Each of the five plugins has a lock and a message pointer. The thread that handles a message takes
the lock, stores the message and writes it to the plugin; the thread that handles the plugin's
response reads the pointer, releases the lock, answers and deletes the message, and only then clears
the pointer.

## Main definitions

- `MsgPlace` — how far a message has come
- `PluginControl`, `PluginControl.step` — the lock and the pointer of one plugin
- `PluginControl.Paired` — the lock is held for one message, which the pointer is to

## Main result

- `paired_iff_orderly` — all messages are paired with their responses throughout a run iff no send
  fails with the lock, no response is thrown away and no pointer to a later message is cleared
-/

namespace OnlDaemons.Npr

open OnlDaemons.Lib

/-- `send_msg_to_plugin` takes a message from `blocked` to `sent`, and `pass_result_to_rli` from
`replied` to `ended`. -/
inductive MsgPlace (M : Type) where
  | idle
  /-- in `pthread_mutex_lock` -/
  | blocked
  | locked
  /-- the pointer is to the message -/
  | stored
  /-- on its way to the plugin, or there -/
  | sent
  /-- the response is on its way back -/
  | replied
  /-- `orig_msg` is read -/
  | taken (orig : Option M)
  /-- the lock is released -/
  | answering (orig : Option M)
  /-- `orig_msg` is answered and deleted -/
  | clearing
  | ended
  /-- an exception was thrown in `send_msg_to_plugin`; `handle` answers with its text -/
  | failed
deriving DecidableEq, Repr

namespace MsgPlace

variable {M : Type}

/-- The message is stored, and its response has not released the lock. -/
def Waiting : MsgPlace M → Prop
  | stored | sent | replied | taken _ => True
  | _ => False

/-- The message has the lock. -/
def Outstanding (p : MsgPlace M) : Prop := p = .locked ∨ p.Waiting

end MsgPlace

/-- `pluginN_control_lock` and `pluginN_msg`, with the messages to the plugin. `answers` has every
message that was answered and deleted with the message whose response it got, and `lost` the
messages whose response was thrown away. -/
structure PluginControl (M : Type) where
  lock : Bool := false
  msg : Option M := none
  place : M → MsgPlace M := fun _ => .idle
  answers : List (M × M) := []
  lost : List M := []

/-- The exceptions of a step are those that the called functions declare, and a failing lock or
allocation. -/
inductive ControlAct (M : Type) where
  | handle (m : M)
  | lock (m : M) (failed : Bool)
  | store (m : M)
  | write (m : M) (failed : Bool)
  | reply (m : M)
  | take (m : M) (failed : Bool)
  | unlock (m : M)
  | answer (m : M)
  | clear (m : M)
deriving DecidableEq, Repr

namespace PluginControl

variable {M : Type} [DecidableEq M]

def move (s : PluginControl M) (m : M) (p : MsgPlace M) : PluginControl M :=
  { s with place := Function.update s.place m p }

def step (s : PluginControl M) : ControlAct M → Option (PluginControl M)
  | .handle m => if s.place m = .idle then some (s.move m .blocked) else none
  | .lock m failed =>
    if s.place m = .blocked then
      if failed then some (s.move m .failed)
      else if s.lock then none
      else some { s.move m .locked with lock := true }
    else none
  | .store m =>
    if s.place m = .locked then some { s.move m .stored with msg := some m } else none
  | .write m failed =>
    if s.place m = .stored then some (s.move m (if failed then .failed else .sent)) else none
  | .reply m => if s.place m = .sent then some (s.move m .replied) else none
  | .take m failed =>
    if s.place m = .replied then
      if failed then some { s.move m .ended with lost := s.lost ++ [m] }
      else some (s.move m (.taken s.msg))
    else none
  | .unlock m =>
    match s.place m with
    | .taken orig => some { s.move m (.answering orig) with lock := false }
    | _ => none
  | .answer m =>
    match s.place m with
    -- "system error"
    | .answering none => some { s.move m .ended with lost := s.lost ++ [m] }
    | .answering (some orig) =>
      some { s.move m .clearing with answers := s.answers ++ [(orig,m)] }
    | _ => none
  | .clear m =>
    if s.place m = .clearing then some { s.move m .ended with msg := none } else none

/-- The lock is held for exactly one message, to which the pointer is as soon as it is stored; every
response goes to its own message, and no message is answered twice, or failed and answered. -/
structure Paired (s : PluginControl M) : Prop where
  lock : s.lock = true ↔ ∃ m, (s.place m).Outstanding
  unique : ∀ m m', (s.place m).Outstanding → (s.place m').Outstanding → m = m'
  msg : ∀ m, (s.place m).Waiting → s.msg = some m
  own : ∀ p ∈ s.answers, p.1 = p.2
  once : (s.answers.map Prod.fst).Nodup
  failed : ∀ m ∈ s.answers.map Prod.fst, s.place m ≠ .failed
  lost : s.lost = []

/-- The send does not fail once it has the lock, the response is not thrown away, and nobody has
stored another message since the lock was released. -/
def Orderly (s : PluginControl M) : ControlAct M → Prop
  | .write _ failed => failed = false
  | .take _ failed => failed = false
  | .clear _ => ∀ m, ¬(s.place m).Waiting
  | _ => True

/-! ### The invariant -/

structure Inv (s : PluginControl M) : Prop extends Paired s where
  orig : ∀ m orig, s.place m = .taken orig ∨ s.place m = .answering orig → orig = some m
  answered : ∀ m ∈ s.answers.map Prod.snd, s.place m = .clearing ∨ s.place m = .ended

omit [DecidableEq M] in
theorem inv_new : ({} : PluginControl M).Inv where
  lock := ⟨nofun,fun ⟨_,h⟩ => by rcases h with h | h <;> cases h⟩
  unique _ _ h := by rcases h with h | h <;> cases h
  msg _ h := by cases h
  own _ h := absurd h List.not_mem_nil
  once := .nil
  failed _ h := absurd h List.not_mem_nil
  lost := rfl
  orig _ _ h := by rcases h with h | h <;> cases h
  answered _ h := absurd h List.not_mem_nil

variable {s t : PluginControl M} {m m' : M} {p : MsgPlace M}

@[simp] theorem move_self : (s.move m p).place m = p := Function.update_self ..

theorem move_other (h : m' ≠ m) : (s.move m p).place m' = s.place m' := Function.update_of_ne h ..

omit [DecidableEq M] in
theorem Inv.not_answered (h : s.Inv) (hm : s.place m ≠ .clearing ∧ s.place m ≠ .ended) :
    m ∉ s.answers.map Prod.fst := by
  intro hin
  obtain ⟨q,hq,rfl⟩ := List.mem_map.mp hin
  have hsnd := h.answered q.1 (List.mem_map.mpr ⟨q,hq,(h.own q hq).symm⟩)
  exact hsnd.elim hm.1 hm.2

/-- A message goes on between the lock and its release, or outside. -/
theorem Inv.move (h : s.Inv) (hplace : t.place = Function.update s.place m p)
    (hlock : t.lock = s.lock) (hans : t.answers = s.answers) (hlost : t.lost = s.lost)
    (hsame : p.Outstanding ↔ (s.place m).Outstanding)
    (hmsg : ∀ m', m' ≠ m → (s.place m').Waiting → t.msg = some m')
    (hown : p.Waiting → t.msg = some m)
    (horig : ∀ orig, p = .taken orig ∨ p = .answering orig → orig = some m)
    (hdone : m ∈ s.answers.map Prod.snd → p = .clearing ∨ p = .ended)
    (hfail : p = .failed → m ∉ s.answers.map Prod.fst) : t.Inv := by
  have hself : t.place m = p := by rw [hplace,Function.update_self]
  have hother : ∀ m', m' ≠ m → t.place m' = s.place m' := by
    intro m' hm
    rw [hplace,Function.update_of_ne hm]
  have hout : ∀ m', (t.place m').Outstanding ↔ (s.place m').Outstanding := by
    intro m'
    by_cases hm : m' = m
    · rw [hm,hself]
      exact hsame
    · rw [hother m' hm]
  refine ⟨⟨?_,?_,?_,?_,?_,?_,?_⟩,?_,?_⟩
  · rw [hlock,h.lock]
    exact exists_congr fun m' => (hout m').symm
  · exact fun m' m'' h' h'' => h.unique m' m'' ((hout m').mp h') ((hout m'').mp h'')
  · intro m' hw
    by_cases hm : m' = m
    · rw [hm,hself] at hw
      rw [hm]
      exact hown hw
    · rw [hother m' hm] at hw
      exact hmsg m' hm hw
  · rw [hans]
    exact h.own
  · rw [hans]
    exact h.once
  · intro m' hm' hp
    rw [hans] at hm'
    by_cases hm : m' = m
    · rw [hm,hself] at hp
      rw [hm] at hm'
      exact hfail hp hm'
    · rw [hother m' hm] at hp
      exact h.failed m' hm' hp
  · rw [hlost]
    exact h.lost
  · intro m' orig hp
    by_cases hm : m' = m
    · rw [hm,hself] at hp
      rw [hm]
      exact horig orig hp
    · rw [hother m' hm] at hp
      exact h.orig m' orig hp
  · intro m' hm'
    rw [hans] at hm'
    by_cases hm : m' = m
    · rw [hm,hself]
      exact hdone (hm ▸ hm')
    · rw [hother m' hm]
      exact h.answered m' hm'

omit [DecidableEq M] in
theorem Inv.not_done (h : s.Inv) (hm : s.place m ≠ .clearing ∧ s.place m ≠ .ended) {q : Prop} :
    m ∈ s.answers.map Prod.snd → q :=
  fun hin => ((h.answered m hin).elim hm.1 hm.2).elim

/-- The thread that gets the lock is alone with it. -/
theorem Inv.locked (h : s.Inv) (hm : s.place m = .blocked) (hfree : s.lock = false) :
    PluginControl.Inv { s.move m .locked with lock := true } := by
  have hnone : ∀ m', ¬(s.place m').Outstanding := by
    intro m' hout
    cases hfree.symm.trans (h.lock.mpr ⟨m',hout⟩)
  have hnotdone : s.place m ≠ .clearing ∧ s.place m ≠ .ended := by
    rw [hm]
    exact ⟨nofun,nofun⟩
  refine ⟨⟨⟨fun _ => ⟨m,?_⟩,fun _ => rfl⟩,?_,?_,h.own,h.once,?_,h.lost⟩,?_,?_⟩
  · dsimp only
    rw [move_self]
    exact .inl rfl
  · have honly : ∀ m', ((s.move m .locked).place m').Outstanding → m' = m := by
      intro m' hout
      by_contra hne
      rw [move_other hne] at hout
      exact hnone m' hout
    exact fun m' m'' h' h'' => (honly m' h').trans (honly m'' h'').symm
  · intro m' hw
    by_cases hne : m' = m
    · subst hne
      dsimp only at hw
      rw [move_self] at hw
      cases hw
    · dsimp only at hw
      rw [move_other hne] at hw
      exact absurd (.inr hw) (hnone m')
  · intro m' hin
    by_cases hne : m' = m
    · exact absurd (hne ▸ hin) (h.not_answered hnotdone)
    · dsimp only
      rw [move_other hne]
      exact h.failed m' hin
  · intro m' orig hp
    by_cases hne : m' = m
    · subst hne
      dsimp only at hp
      rw [move_self] at hp
      rcases hp with hp | hp <;> cases hp
    · dsimp only at hp
      rw [move_other hne] at hp
      exact h.orig m' orig hp
  · intro m' hin
    by_cases hne : m' = m
    · exact h.not_done hnotdone (hne ▸ hin)
    · dsimp only
      rw [move_other hne]
      exact h.answered m' hin

/-- The lock is released, and no other message has it. -/
theorem Inv.unlocked (h : s.Inv) {orig : Option M} (hm : s.place m = .taken orig) :
    PluginControl.Inv { s.move m (.answering orig) with lock := false } := by
  have hout : (s.place m).Outstanding := by
    rw [hm]
    exact .inr trivial
  have hnotdone : s.place m ≠ .clearing ∧ s.place m ≠ .ended := by
    rw [hm]
    exact ⟨nofun,nofun⟩
  have hnone : ∀ m', ¬((s.move m (.answering orig)).place m').Outstanding := by
    intro m' h'
    by_cases hne : m' = m
    · subst hne
      rw [move_self] at h'
      rcases h' with h' | h' <;> cases h'
    · rw [move_other hne] at h'
      exact hne (h.unique m' m h' hout)
  refine ⟨⟨⟨nofun,fun ⟨m',h'⟩ => absurd h' (hnone m')⟩,fun m' m'' h' => absurd h' (hnone m'),
    fun m' hw => absurd (.inr hw) (hnone m'),h.own,h.once,?_,h.lost⟩,?_,?_⟩
  · intro m' hin
    by_cases hne : m' = m
    · exact absurd (hne ▸ hin) (h.not_answered hnotdone)
    · dsimp only
      rw [move_other hne]
      exact h.failed m' hin
  · intro m' orig' hp
    by_cases hne : m' = m
    · subst hne
      dsimp only at hp
      rw [move_self] at hp
      rcases hp with hp | hp
      · cases hp
      · cases hp
        exact h.orig m' orig (.inl hm)
    · dsimp only at hp
      rw [move_other hne] at hp
      exact h.orig m' orig' hp
  · intro m' hin
    by_cases hne : m' = m
    · exact h.not_done hnotdone (hne ▸ hin)
    · dsimp only
      rw [move_other hne]
      exact h.answered m' hin

/-- The message that is answered is the one whose response it is. -/
theorem Inv.answer (h : s.Inv) {orig : M} (hm : s.place m = .answering (some orig)) :
    PluginControl.Inv { s.move m .clearing with answers := s.answers ++ [(orig,m)] } := by
  have heq : orig = m := Option.some.inj (h.orig m _ (.inr hm))
  subst heq
  have hnot := h.not_answered (m := orig) (by rw [hm]; exact ⟨nofun,nofun⟩)
  have hmoved : (s.move orig .clearing).Inv := by
    refine h.move rfl rfl rfl rfl ?_ (fun m' _ => h.msg m') nofun (fun o ho => ?_) (fun _ => .inl rfl)
      nofun
    · rw [hm]
      simp [MsgPlace.Outstanding,MsgPlace.Waiting]
    · rcases ho with ho | ho <;> cases ho
  refine { hmoved with own := ?_, once := ?_, failed := ?_, answered := ?_ }
  · intro q hq
    rcases List.mem_append.mp hq with hq | hq
    · exact h.own q hq
    · rw [List.mem_singleton.mp hq]
  · rw [List.map_append]
    exact List.nodup_append.mpr ⟨h.once,by simp,fun a ha b hb he => by
      rw [he,List.mem_singleton.mp hb] at ha
      exact hnot ha⟩
  · intro m' hin
    rw [List.map_append] at hin
    rcases List.mem_append.mp hin with hin | hin
    · exact hmoved.failed m' hin
    · rw [List.mem_singleton.mp hin]
      simp
  · intro m' hin
    rw [List.map_append] at hin
    rcases List.mem_append.mp hin with hin | hin
    · exact hmoved.answered m' hin
    · rw [List.mem_singleton.mp hin]
      simp

theorem Inv.step {a : ControlAct M} (h : s.Inv) (hs : s.step a = some t) (ho : s.Orderly a) :
    t.Inv := by
  cases a with
  | handle m =>
    simp only [PluginControl.step] at hs
    split at hs
    · next hm =>
      cases hs
      refine h.move rfl rfl rfl rfl ?_ (fun m' _ => h.msg m') nofun (fun o ho => ?_)
        (h.not_done (by rw [hm]; exact ⟨nofun,nofun⟩)) nofun
      · rw [hm]
        simp [MsgPlace.Outstanding,MsgPlace.Waiting]
      · rcases ho with ho | ho <;> cases ho
    · cases hs
  | lock m failed =>
    simp only [PluginControl.step] at hs
    split at hs
    · next hm =>
      split at hs
      · cases hs
        refine h.move rfl rfl rfl rfl ?_ (fun m' _ => h.msg m') nofun (fun o ho => ?_)
          (h.not_done (by rw [hm]; exact ⟨nofun,nofun⟩))
          fun _ => h.not_answered (by rw [hm]; exact ⟨nofun,nofun⟩)
        · rw [hm]
          simp [MsgPlace.Outstanding,MsgPlace.Waiting]
        · rcases ho with ho | ho <;> cases ho
      · split at hs
        · cases hs
        · next hfree =>
          cases hs
          exact h.locked hm (by simpa using hfree)
    · cases hs
  | store m =>
    simp only [PluginControl.step] at hs
    split at hs
    · next hm =>
      cases hs
      refine h.move rfl rfl rfl rfl ?_ (fun m' hne hw => ?_) (fun _ => rfl) (fun o ho => ?_)
        (h.not_done (by rw [hm]; exact ⟨nofun,nofun⟩)) nofun
      · rw [hm]
        simp [MsgPlace.Outstanding,MsgPlace.Waiting]
      · exact absurd (h.unique m' m (.inr hw) (.inl hm)) hne
      · rcases ho with ho | ho <;> cases ho
    · cases hs
  | write m failed =>
    cases ho
    simp only [PluginControl.step] at hs
    split at hs
    · next hm =>
      cases hs
      have hw : (s.place m).Waiting := by
        rw [hm]
        trivial
      refine h.move rfl rfl rfl rfl ?_ (fun m' _ => h.msg m') (fun _ => h.msg m hw) (fun o ho => ?_)
        (h.not_done (by rw [hm]; exact ⟨nofun,nofun⟩)) nofun
      · rw [hm]
        simp [MsgPlace.Outstanding,MsgPlace.Waiting]
      · rcases ho with ho | ho <;> cases ho
    · cases hs
  | reply m =>
    simp only [PluginControl.step] at hs
    split at hs
    · next hm =>
      cases hs
      have hw : (s.place m).Waiting := by
        rw [hm]
        trivial
      refine h.move rfl rfl rfl rfl ?_ (fun m' _ => h.msg m') (fun _ => h.msg m hw) (fun o ho => ?_)
        (h.not_done (by rw [hm]; exact ⟨nofun,nofun⟩)) nofun
      · rw [hm]
        simp [MsgPlace.Outstanding,MsgPlace.Waiting]
      · rcases ho with ho | ho <;> cases ho
    · cases hs
  | take m failed =>
    cases ho
    simp only [PluginControl.step] at hs
    split at hs
    · next hm =>
      cases hs
      have hw : (s.place m).Waiting := by
        rw [hm]
        trivial
      refine h.move rfl rfl rfl rfl ?_ (fun m' _ => h.msg m') (fun _ => h.msg m hw) (fun o ho => ?_)
        (h.not_done (by rw [hm]; exact ⟨nofun,nofun⟩)) nofun
      · rw [hm]
        simp [MsgPlace.Outstanding,MsgPlace.Waiting]
      · rcases ho with ho | ho
        · cases ho
          exact h.msg m hw
        · cases ho
    · cases hs
  | unlock m =>
    simp only [PluginControl.step] at hs
    split at hs
    · next orig hm =>
      cases hs
      exact h.unlocked hm
    · cases hs
  | answer m =>
    simp only [PluginControl.step] at hs
    split at hs
    · next hm => cases h.orig m none (.inr hm)
    · next orig hm =>
      cases hs
      exact h.answer hm
    · cases hs
  | clear m =>
    simp only [PluginControl.step] at hs
    split at hs
    · next hm =>
      cases hs
      refine h.move rfl rfl rfl rfl ?_ (fun m' _ hw => absurd hw (ho m')) nofun (fun o ho => ?_)
        (fun _ => .inr rfl) nofun
      · rw [hm]
        simp [MsgPlace.Outstanding,MsgPlace.Waiting]
      · rcases ho with ho | ho <;> cases ho
    · cases hs

/-- A step that is not orderly takes the pairing away. -/
theorem orderly_of_paired {a : ControlAct M} (h : s.Inv) (hs : s.step a = some t) (ht : t.Paired) :
    s.Orderly a := by
  cases a with
  | write m failed =>
    cases failed with
    | false => rfl
    | true =>
      simp only [PluginControl.step] at hs
      split at hs
      · next hm =>
        cases hs
        have hout : (s.place m).Outstanding := by
          rw [hm]
          exact .inr trivial
        obtain ⟨m',hm'⟩ := ht.lock.mp (h.lock.mpr ⟨m,hout⟩)
        by_cases hne : m' = m
        · subst hne
          simp [MsgPlace.Outstanding,MsgPlace.Waiting] at hm'
        · rw [move_other hne] at hm'
          exact absurd (h.unique m' m hm' hout) hne
      · cases hs
  | take m failed =>
    cases failed with
    | false => rfl
    | true =>
      simp only [PluginControl.step] at hs
      split at hs
      · cases hs
        have hlost := ht.lost
        simp at hlost
      · cases hs
  | clear m =>
    simp only [PluginControl.step] at hs
    split at hs
    · next hm =>
      cases hs
      intro m' hw
      have hne : m' ≠ m := by
        rintro rfl
        rw [hm] at hw
        cases hw
      cases ht.msg m' (by dsimp only; rwa [move_other hne])
    · cases hs
  | handle m => trivial
  | lock m failed => trivial
  | store m => trivial
  | reply m => trivial
  | unlock m => trivial
  | answer m => trivial

/-! ### The five plugins -/

/-- A message names its plugin; one that names none gets the exception "invalid plugin" before any
lock is taken. -/
def exec (s : Fin 5 → PluginControl M) (a : ℕ × ControlAct M) : Option (Fin 5 → PluginControl M) :=
  if h : a.1 < 5 then ((s ⟨a.1,h⟩).step a.2).map (Function.update s ⟨a.1,h⟩)
  else
    match a.2 with
    | .handle _ => some s
    | _ => none

def PluginStep (s : Fin 5 → PluginControl M) (a : ℕ × ControlAct M) (t : Fin 5 → PluginControl M) :
    Prop := exec s a = some t

def AllPaired (s : Fin 5 → PluginControl M) : Prop := ∀ plugin, (s plugin).Paired

def StepOrderly (s : Fin 5 → PluginControl M) (a : ℕ × ControlAct M) (_ : Fin 5 → PluginControl M) :
    Prop :=
  ∀ h : a.1 < 5, (s ⟨a.1,h⟩).Orderly a.2

theorem paired_iff_orderly {tr : List ((ℕ × ControlAct M) × (Fin 5 → PluginControl M))}
    (hr : IsRun PluginStep (fun _ => {}) tr) :
    EveryState AllPaired (fun _ => {}) tr ↔ EveryStep StepOrderly (fun _ => {}) tr := by
  refine hr.everyState_iff (P := fun s => ∀ plugin, (s plugin).Inv) ?_ ?_
    (fun s h plugin => (h plugin).toPaired) fun _ => inv_new
  · intro s a t h hs ho
    unfold PluginStep exec at hs
    split at hs
    · next hlt =>
      obtain ⟨c,hc,rfl⟩ := Option.map_eq_some_iff.mp hs
      intro plugin
      by_cases hp : plugin = ⟨a.1,hlt⟩
      · subst hp
        rw [Function.update_self]
        exact (h _).step hc (ho hlt)
      · rw [Function.update_of_ne hp]
        exact h plugin
    · split at hs
      · cases hs
        exact h
      · cases hs
  · intro s a t h hs ht hlt
    unfold PluginStep exec at hs
    rw [dif_pos hlt] at hs
    obtain ⟨c,hc,rfl⟩ := Option.map_eq_some_iff.mp hs
    refine orderly_of_paired (h _) hc ?_
    simpa using ht ⟨a.1,hlt⟩

/-- A message is sent to plugin 2 and answered. -/
def oneMessage : List (ℕ × ControlAct Unit) :=
  [(2,.handle ()),(2,.lock () false),(2,.store ()),(2,.write () false),(2,.reply ()),
    (2,.take () false),(2,.unlock ()),(2,.answer ()),(2,.clear ())]

theorem oneMessage_paired :
    (lastState (fun _ => {}) (runOf exec (fun _ => {}) oneMessage) 2).answers = [((),())] ∧
      EveryState AllPaired (fun _ => {}) (runOf exec (fun _ => {}) oneMessage) := by
  refine ⟨by decide +kernel,(paired_iff_orderly (isRun_runOf exec _ oneMessage)).mpr ?_⟩
  exact And.intro (fun _ => trivial) <| And.intro (fun _ => trivial) <|
    And.intro (fun _ => trivial) <| And.intro (fun _ => rfl) <| And.intro (fun _ => trivial) <|
    And.intro (fun _ => rfl) <| And.intro (fun _ => trivial) <| And.intro (fun _ => trivial) <|
    And.intro (fun _ _ hw => by cases hw) trivial

/-- The second message is stored when the lock of the first is released; then the thread of the first
clears the pointer, and the response to the second is thrown away. -/
def twoMessages : List (ℕ × ControlAct ℕ) :=
  [(2,.handle 7),(2,.lock 7 false),(2,.store 7),(2,.write 7 false),(2,.reply 7),(2,.take 7 false),
    (2,.unlock 7),(2,.answer 7),(2,.handle 8),(2,.lock 8 false),(2,.store 8),(2,.write 8 false),
    (2,.clear 7),(2,.reply 8),(2,.take 8 false),(2,.unlock 8),(2,.answer 8)]

theorem second_message_lost :
    ¬∀ tr : List ((ℕ × ControlAct ℕ) × (Fin 5 → PluginControl ℕ)),
      IsRun PluginStep (fun _ => {}) tr → EveryState AllPaired (fun _ => {}) tr := by
  intro h
  have hlost := ((h _ (isRun_runOf exec _ twoMessages)).last 2).lost
  revert hlost
  decide +kernel

end PluginControl

end OnlDaemons.Npr

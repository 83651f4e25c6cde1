import Mathlib.Data.List.Basic

/-!
# Programs with one lock

A program takes and gives back one lock and asks its environment for values. A run of it fixes
every answer. The rules below go through a program once and find the answers after which the lock
is not given back, or is taken twice: `Exact bad` says that these are exactly the bad ones.

## Main definitions

- `LockProg` — programs, and `LockProg.Run`, their runs with the events of each
- `Disciplined held tr` — the lock is taken only when it is free, given back only when it is held
  and free at the end
- `LockProg.Exact`, `LockProg.Broken` — the discipline of all runs, read off the program

## Main results

- `LockProg.Exact.run_iff` — a run is disciplined iff none of its answers is bad
-/

namespace OnlDaemons.Lib

/-- Programs that return an `α`. The answers to the question `q` are the values of `Ans q`;
`stop` ends the process, so that nothing is returned. -/
inductive LockProg {ι : Type} (Ans : ι → Type) (α : Type) : Type where
  | ret (a : α)
  | lock (k : Bool → LockProg Ans α)
  | unlock (k : LockProg Ans α)
  | ask (q : ι) (k : Ans q → LockProg Ans α)
  | stop

/-- The lock is taken, or refused, or given back, or a question is answered. -/
inductive LockEvent {ι : Type} (Ans : ι → Type) where
  | got
  | refused
  | released
  | answer (q : ι) (a : Ans q)

/-- From the lock held or not, a run that takes it only when free, gives it back only when held
and ends with it free. -/
def Disciplined {ι : Type} {Ans : ι → Type} : Bool → List (LockEvent Ans) → Prop
  | held, [] => held = false
  | held, .got :: tr => held = false ∧ Disciplined true tr
  | held, .refused :: tr => held = false ∧ Disciplined false tr
  | held, .released :: tr => held = true ∧ Disciplined false tr
  | held, .answer _ _ :: tr => Disciplined held tr

namespace LockProg

variable {ι α β γ : Type} {Ans : ι → Type} {bad : ∀ q, Ans q → Prop} {held : Bool}

def bind : LockProg Ans α → (α → LockProg Ans β) → LockProg Ans β
  | ret a, f => f a
  | lock k, f => lock fun b => (k b).bind f
  | unlock k, f => unlock (k.bind f)
  | ask q k, f => ask q fun b => (k b).bind f
  | stop, _ => stop

/-- A loop over a list. Its body goes on with what it is given, or leaves the loop. -/
def forEach (body : β → γ → (γ → LockProg Ans α) → LockProg Ans α) :
    List β → γ → (γ → LockProg Ans α) → LockProg Ans α
  | [], s, k => k s
  | b :: l, s, k => body b s fun s => forEach body l s k

inductive Run : LockProg Ans α → List (LockEvent Ans) → α → Prop
  | ret {a : α} : Run (ret a) [] a
  | got {k : Bool → LockProg Ans α} {tr : List (LockEvent Ans)} {a : α}
    (h : Run (k true) tr a) : Run (lock k) (.got :: tr) a
  | refused {k : Bool → LockProg Ans α} {tr : List (LockEvent Ans)} {a : α}
    (h : Run (k false) tr a) : Run (lock k) (.refused :: tr) a
  | released {k : LockProg Ans α} {tr : List (LockEvent Ans)} {a : α} (h : Run k tr a) :
    Run (unlock k) (.released :: tr) a
  | answer {q : ι} {k : Ans q → LockProg Ans α} {tr : List (LockEvent Ans)} {a : α}
    (b : Ans q) (h : Run (k b) tr a) : Run (ask q k) (.answer q b :: tr) a

/-- No run is disciplined. -/
def Broken : Bool → LockProg Ans α → Prop
  | held, ret _ => held = true
  | held, lock k => held = true ∨ Broken true (k true) ∧ Broken false (k false)
  | held, unlock k => held = false ∨ Broken false k
  | held, ask _ k => ∀ b, Broken held (k b)
  | _, stop => True

/-- Exactly the runs without a bad answer are disciplined. Bad answers come while the lock is
held. -/
def Exact (bad : ∀ q, Ans q → Prop) : Bool → LockProg Ans α → Prop
  | held, ret _ => held = false
  | held, lock k => held = false ∧ Exact bad true (k true) ∧ Exact bad false (k false)
  | held, unlock k => held = true ∧ Exact bad false k
  | held, ask q k => ∀ b, (bad q b → held = true ∧ Broken true (k b)) ∧
      (¬ bad q b → Exact bad held (k b))
  | _, stop => True

theorem Broken.run {p : LockProg Ans α} (hp : p.Broken held) {tr : List (LockEvent Ans)} {a : α}
    (hr : p.Run tr a) : ¬ Disciplined held tr := by
  induction hr generalizing held with
  | ret =>
    intro hd
    exact absurd (hp.symm.trans hd) (by decide)
  | got h ih =>
    rintro ⟨hf,hd⟩
    rcases hp with ht | hp
    · exact absurd (ht.symm.trans hf) (by decide)
    · exact ih hp.1 hd
  | refused h ih =>
    rintro ⟨hf,hd⟩
    rcases hp with ht | hp
    · exact absurd (ht.symm.trans hf) (by decide)
    · exact ih hp.2 hd
  | released h ih =>
    rintro ⟨ht,hd⟩
    rcases hp with hf | hp
    · exact absurd (ht.symm.trans hf) (by decide)
    · exact ih hp hd
  | answer b h ih => exact ih (hp b)

/-- A run is disciplined if and only if none of its answers is bad. -/
theorem Exact.run_iff {p : LockProg Ans α} (hp : p.Exact bad held) {tr : List (LockEvent Ans)}
    {a : α} (hr : p.Run tr a) : Disciplined held tr ↔ ∀ q b, .answer q b ∈ tr → ¬ bad q b := by
  induction hr generalizing held with
  | ret => exact ⟨fun _ _ _ h => absurd h List.not_mem_nil,fun _ => hp⟩
  | got h ih =>
    obtain ⟨hf,ht,_⟩ := hp
    simp only [Disciplined,hf,true_and,ih ht,List.mem_cons,reduceCtorEq,false_or]
  | refused h ih =>
    obtain ⟨hf,_,ht⟩ := hp
    simp only [Disciplined,hf,true_and,ih ht,List.mem_cons,reduceCtorEq,false_or]
  | released h ih =>
    simp only [Disciplined,hp.1,true_and,ih hp.2,List.mem_cons,reduceCtorEq,false_or]
  | @answer q k tr a b h ih =>
    by_cases hb : bad q b
    · refine ⟨fun hd => ?_,fun hno => absurd hb (hno q b List.mem_cons_self)⟩
      obtain ⟨ht,hbr⟩ := (hp b).1 hb
      subst ht
      exact absurd (show Disciplined true tr from hd) (hbr.run h)
    · simp only [Disciplined,ih ((hp b).2 hb),List.mem_cons]
      refine ⟨fun hno q' b' hm => ?_,fun hno q' b' hm => hno q' b' (.inr hm)⟩
      rcases hm with he | hm
      · cases he
        exact hb
      · exact hno q' b' hm

/-! ### Rules -/

theorem Broken.bind {p : LockProg Ans α} {f : α → LockProg Ans β} (hp : p.Broken held)
    (hf : ∀ a, (f a).Broken true) : (p.bind f).Broken held := by
  induction p generalizing held with
  | ret a =>
    rw [show held = true from hp]
    exact hf a
  | lock k ih => exact hp.imp_right fun h => ⟨ih true h.1,ih false h.2⟩
  | unlock k ih => exact hp.imp_right ih
  | ask q k ih => exact fun b => ih b (hp b)
  | stop => trivial

/-- A program that takes the lock and gives it back cannot be run with the lock held. -/
theorem Exact.broken {p : LockProg Ans α} (hp : p.Exact bad false) : p.Broken true := by
  induction p with
  | ret a => rfl
  | lock k ih => exact .inl rfl
  | unlock k ih => exact absurd hp.1 (by decide)
  | ask q k ih =>
    intro b
    by_cases hb : bad q b
    · exact absurd ((hp b).1 hb).1 (by decide)
    · exact ih b ((hp b).2 hb)
  | stop => trivial

theorem Exact.bind {p : LockProg Ans α} {f : α → LockProg Ans β} (hp : p.Exact bad held)
    (hf : ∀ a, (f a).Exact bad false) : (p.bind f).Exact bad held := by
  induction p generalizing held with
  | ret a =>
    rw [show held = false from hp]
    exact hf a
  | lock k ih => exact ⟨hp.1,ih true hp.2.1,ih false hp.2.2⟩
  | unlock k ih => exact ⟨hp.1,ih hp.2⟩
  | ask q k ih =>
    refine fun b => ⟨fun h => ?_,fun h => ih b ((hp b).2 h)⟩
    exact ⟨((hp b).1 h).1,((hp b).1 h).2.bind fun a => (hf a).broken⟩
  | stop => trivial

/-- A question without a bad answer. -/
theorem Exact.ask {q : ι} {k : Ans q → LockProg Ans α} (hq : ∀ b, ¬ bad q b)
    (hk : ∀ b, (k b).Exact bad held) : (LockProg.ask q k).Exact bad held :=
  fun b => ⟨fun hb => absurd hb (hq b),fun _ => hk b⟩

theorem Exact.forEach {body : β → γ → (γ → LockProg Ans α) → LockProg Ans α}
    (hbody : ∀ b s k, (∀ s, (k s).Exact bad held) → (body b s k).Exact bad held) (l : List β)
    {k : γ → LockProg Ans α} (hk : ∀ s, (k s).Exact bad held) (s : γ) :
    (LockProg.forEach body l s k).Exact bad held := by
  induction l generalizing s with
  | nil => exact hk s
  | cons b l ih => exact hbody b s _ ih

end LockProg

end OnlDaemons.Lib

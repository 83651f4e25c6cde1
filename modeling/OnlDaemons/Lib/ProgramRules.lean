import OnlDaemons.Lib.LockProgram

/-!
# Programs in a known environment

Where the environment is known, its answers agree with it. What every run then satisfies is read
off the program: what holds whenever a question is asked, and what holds of the value that is
returned. An environment that answers every question in one way gives one run.

## Main definitions

- `LockProg.Meets agree pre post` — the questions meet `pre` and the value meets `post`
- `LockProg.eval` — the run with given answers

## Main results

- `LockProg.Meets.run` — what the rules show holds of every run
- `LockProg.run_of_eval`
-/

namespace OnlDaemons.Lib

namespace LockProg

variable {ι α β γ : Type} {Ans : ι → Type} {agree : ∀ q, Ans q → Prop} {pre : ι → Prop}
  {post : α → Prop}

/-- As long as the answers agree, every question that is asked meets `pre` and the value that is
returned meets `post`. -/
def Meets (agree : ∀ q, Ans q → Prop) (pre : ι → Prop) (post : α → Prop) : LockProg Ans α → Prop
  | ret a => post a
  | lock k => Meets agree pre post (k true) ∧ Meets agree pre post (k false)
  | unlock k => Meets agree pre post k
  | ask q k => pre q ∧ ∀ b, agree q b → Meets agree pre post (k b)
  | stop => True

theorem Meets.run {p : LockProg Ans α} (hp : p.Meets agree pre post) {tr : List (LockEvent Ans)}
    {a : α} (hr : p.Run tr a) (hagree : ∀ q b, .answer q b ∈ tr → agree q b) :
    post a ∧ ∀ q b, .answer q b ∈ tr → pre q := by
  induction hr with
  | ret => exact ⟨hp,fun _ _ hm => absurd hm List.not_mem_nil⟩
  | got h ih =>
    obtain ⟨hpost,hpre⟩ := ih hp.1 fun q b hm => hagree q b (.tail _ hm)
    exact ⟨hpost,fun q b hm => hpre q b (by simpa using hm)⟩
  | refused h ih =>
    obtain ⟨hpost,hpre⟩ := ih hp.2 fun q b hm => hagree q b (.tail _ hm)
    exact ⟨hpost,fun q b hm => hpre q b (by simpa using hm)⟩
  | released h ih =>
    obtain ⟨hpost,hpre⟩ := ih hp fun q b hm => hagree q b (.tail _ hm)
    exact ⟨hpost,fun q b hm => hpre q b (by simpa using hm)⟩
  | @answer q k tr a b h ih =>
    obtain ⟨hq,hk⟩ := hp
    obtain ⟨hpost,hpre⟩ := ih (hk b (hagree q b List.mem_cons_self)) fun q b hm =>
      hagree q b (.tail _ hm)
    refine ⟨hpost,fun q' b' hm => ?_⟩
    rcases List.mem_cons.1 hm with he | hm
    · cases he
      exact hq
    · exact hpre q' b' hm

theorem Meets.ask {q : ι} {k : Ans q → LockProg Ans α} (hq : pre q)
    (hk : ∀ b, agree q b → (k b).Meets agree pre post) :
    (LockProg.ask q k).Meets agree pre post :=
  ⟨hq,hk⟩

theorem Meets.bind {p : LockProg Ans α} {f : α → LockProg Ans β} {mid : α → Prop} {post : β → Prop}
    (hp : p.Meets agree pre mid) (hf : ∀ a, mid a → (f a).Meets agree pre post) :
    (p.bind f).Meets agree pre post := by
  induction p with
  | ret a => exact hf a hp
  | lock k ih => exact ⟨ih true hp.1,ih false hp.2⟩
  | unlock k ih => exact ih hp
  | ask q k ih => exact ⟨hp.1,fun b hb => ih b (hp.2 b hb)⟩
  | stop => trivial

theorem Meets.forEach {body : β → γ → (γ → LockProg Ans α) → LockProg Ans α} {l : List β}
    (inv : List β → γ → Prop) {k : γ → LockProg Ans α}
    (hbody : ∀ done b rest s k, l = done ++ b :: rest → inv done s →
      (∀ s, inv (done ++ [b]) s → (k s).Meets agree pre post) →
      (body b s k).Meets agree pre post)
    (hk : ∀ s, inv l s → (k s).Meets agree pre post) {s : γ} (hs : inv [] s) :
    (LockProg.forEach body l s k).Meets agree pre post := by
  suffices h : ∀ rest done s, l = done ++ rest → inv done s →
      (LockProg.forEach body rest s k).Meets agree pre post from h l [] s rfl hs
  intro rest
  induction rest with
  | nil =>
    intro done s hl hinv
    rw [List.append_nil] at hl
    exact hk s (hl ▸ hinv)
  | cons b rest ih =>
    intro done s hl hinv
    refine hbody done b rest s _ hl hinv fun s' hs' => ih (done ++ [b]) s' ?_ hs'
    rw [hl,List.append_assoc,List.singleton_append]

/-- A loop whose rounds leave nothing to know. -/
theorem Meets.forEach_true {body : β → γ → (γ → LockProg Ans α) → LockProg Ans α} {l : List β}
    {k : γ → LockProg Ans α}
    (hbody : ∀ b s k, (∀ s, (k s).Meets agree pre post) → (body b s k).Meets agree pre post)
    (hk : ∀ s, (k s).Meets agree pre post) (s : γ) :
    (LockProg.forEach body l s k).Meets agree pre post :=
  .forEach (fun _ _ => True) (fun _ b _ s k _ _ h => hbody b s k fun s => h s trivial)
    (fun s _ => hk s) trivial

/-! ### The run with given answers -/

/-- The lock is free, and each question is answered by `env`. A program that stops has no run. -/
def eval (env : ∀ q, Ans q) : LockProg Ans α → Option (List (LockEvent Ans) × α)
  | ret a => some ([],a)
  | lock k => (eval env (k true)).map fun r => (.got :: r.1,r.2)
  | unlock k => (eval env k).map fun r => (.released :: r.1,r.2)
  | ask q k => (eval env (k (env q))).map fun r => (.answer q (env q) :: r.1,r.2)
  | stop => none

theorem run_of_eval {env : ∀ q, Ans q} {p : LockProg Ans α} {tr : List (LockEvent Ans)} {a : α}
    (h : p.eval env = some (tr,a)) :
    p.Run tr a ∧ ∀ q b, .answer q b ∈ tr → b = env q := by
  induction p generalizing tr with
  | ret a =>
    cases h
    exact ⟨.ret,fun _ _ hm => absurd hm List.not_mem_nil⟩
  | lock k ih =>
    obtain ⟨⟨tr',a'⟩,hr,he⟩ := Option.map_eq_some_iff.1 h
    cases he
    obtain ⟨hrun,henv⟩ := ih true hr
    exact ⟨.got hrun,fun q b hm => henv q b (by simpa using hm)⟩
  | unlock k ih =>
    obtain ⟨⟨tr',a'⟩,hr,he⟩ := Option.map_eq_some_iff.1 h
    cases he
    obtain ⟨hrun,henv⟩ := ih hr
    exact ⟨.released hrun,fun q b hm => henv q b (by simpa using hm)⟩
  | ask q k ih =>
    obtain ⟨⟨tr',a'⟩,hr,he⟩ := Option.map_eq_some_iff.1 h
    cases he
    obtain ⟨hrun,henv⟩ := ih (env q) hr
    refine ⟨.answer (env q) hrun,fun q' b hm => ?_⟩
    rcases List.mem_cons.1 hm with he | hm
    · cases he
      rfl
    · exact henv q' b hm
  | stop => cases h

end LockProg

end OnlDaemons.Lib

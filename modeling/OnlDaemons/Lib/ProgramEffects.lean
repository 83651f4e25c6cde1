import OnlDaemons.Lib.ProgramRules

/-!
# Programs whose questions change a state

A question may change the state of the environment as it is answered. The runs of a program then go
from one state to another.

## Main definitions

- `LockProg.Exec R` — the runs with states, where `R s q b t` says that the answer `b` to `q` takes
  the state `s` to `t`
- `LockProg.LeadsTo pre tail` — every way through the program asks only questions that meet `pre` until
  it ends or comes to a program of `tail`

## Main results

- `LockProg.Exec.run` — without the states, they are the runs
- `LockProg.Exec.keeps` — what every question that is asked keeps, a run keeps
- `LockProg.Exec.split` — a run of a program that leads to `tail` ends with a run of one of its programs
-/

namespace OnlDaemons.Lib

namespace LockProg

variable {ι α β γ σ : Type} {Ans : ι → Type} {R : σ → ∀ q, Ans q → σ → Prop} {pre : ι → Prop}
  {post : α → Prop} {p : LockProg Ans α} {s t : σ} {tr : List (LockEvent Ans)} {a : α}

inductive Exec (R : σ → ∀ q, Ans q → σ → Prop) :
    LockProg Ans α → σ → List (LockEvent Ans) → α → σ → Prop
  | ret {a : α} {s : σ} : Exec R (ret a) s [] a s
  | got {k : Bool → LockProg Ans α} {s t : σ} {tr : List (LockEvent Ans)} {a : α}
    (h : Exec R (k true) s tr a t) : Exec R (lock k) s (.got :: tr) a t
  | refused {k : Bool → LockProg Ans α} {s t : σ} {tr : List (LockEvent Ans)} {a : α}
    (h : Exec R (k false) s tr a t) : Exec R (lock k) s (.refused :: tr) a t
  | released {k : LockProg Ans α} {s t : σ} {tr : List (LockEvent Ans)} {a : α}
    (h : Exec R k s tr a t) : Exec R (unlock k) s (.released :: tr) a t
  | answer {q : ι} {k : Ans q → LockProg Ans α} {s u t : σ} {tr : List (LockEvent Ans)} {a : α}
    {b : Ans q} (hR : R s q b u) (h : Exec R (k b) u tr a t) :
    Exec R (ask q k) s (.answer q b :: tr) a t

theorem Exec.run (h : Exec R p s tr a t) : p.Run tr a := by
  induction h with
  | ret => exact .ret
  | got h ih => exact .got ih
  | refused h ih => exact .refused ih
  | released h ih => exact .released ih
  | answer hR h ih => exact .answer _ ih

theorem Exec.keeps {P : σ → Prop} (hp : p.Meets (fun _ _ => True) pre post)
    (hkeep : ∀ s q b t, pre q → P s → R s q b t → P t) (h : Exec R p s tr a t) (hs : P s) :
    P t := by
  induction h with
  | ret => exact hs
  | got h ih => exact ih hp.1 hs
  | refused h ih => exact ih hp.2 hs
  | released h ih => exact ih hp hs
  | answer hR h ih => exact ih (hp.2 _ trivial) (hkeep _ _ _ _ hp.1 hs hR)

inductive LeadsTo (pre : ι → Prop) (tail : LockProg Ans α → Prop) : LockProg Ans α → Prop
  | tail {p : LockProg Ans α} (h : tail p) : LeadsTo pre tail p
  | ret {a : α} : LeadsTo pre tail (ret a)
  | lock {k : Bool → LockProg Ans α} (ht : LeadsTo pre tail (k true)) (hf : LeadsTo pre tail (k false)) :
    LeadsTo pre tail (lock k)
  | unlock {k : LockProg Ans α} (h : LeadsTo pre tail k) : LeadsTo pre tail (unlock k)
  | ask {q : ι} {k : Ans q → LockProg Ans α} (hq : pre q) (h : ∀ b, LeadsTo pre tail (k b)) :
    LeadsTo pre tail (ask q k)
  | stop : LeadsTo pre tail stop

variable {tail : LockProg Ans α → Prop}

theorem LeadsTo.forEach {body : β → γ → (γ → LockProg Ans α) → LockProg Ans α}
    (hbody : ∀ b s k, (∀ s, LeadsTo pre tail (k s)) → LeadsTo pre tail (body b s k)) (l : List β)
    {k : γ → LockProg Ans α} (hk : ∀ s, LeadsTo pre tail (k s)) (s : γ) :
    LeadsTo pre tail (LockProg.forEach body l s k) := by
  induction l generalizing s with
  | nil => exact hk s
  | cons b l ih => exact hbody b s _ ih

theorem Exec.split {K : σ → σ → Prop} (hrefl : ∀ s, K s s) (htrans : ∀ s t u, K s t → K t u → K s u)
    (hp : p.LeadsTo pre tail) (hkeep : ∀ s q b t, pre q → R s q b t → K s t) (h : Exec R p s tr a t) :
    K s t ∨ ∃ p' u tr₁ tr₂, tail p' ∧ K s u ∧ tr = tr₁ ++ tr₂ ∧ Exec R p' u tr₂ a t := by
  induction hp generalizing s tr with
  | tail hp => exact .inr ⟨_,s,[],tr,hp,hrefl s,rfl,h⟩
  | ret =>
    cases h
    exact .inl (hrefl _)
  | lock ht hf iht ihf =>
    cases h with
    | got h =>
      obtain hk | ⟨p',u,tr₁,tr₂,hp',hk,rfl,h'⟩ := iht h
      · exact .inl hk
      · exact .inr ⟨p',u,.got :: tr₁,tr₂,hp',hk,rfl,h'⟩
    | refused h =>
      obtain hk | ⟨p',u,tr₁,tr₂,hp',hk,rfl,h'⟩ := ihf h
      · exact .inl hk
      · exact .inr ⟨p',u,.refused :: tr₁,tr₂,hp',hk,rfl,h'⟩
  | unlock hp ih =>
    cases h with
    | released h =>
      obtain hk | ⟨p',u,tr₁,tr₂,hp',hk,rfl,h'⟩ := ih h
      · exact .inl hk
      · exact .inr ⟨p',u,.released :: tr₁,tr₂,hp',hk,rfl,h'⟩
  | ask hq hp ih =>
    cases h with
    | @answer _ _ _ v _ _ _ b hR h =>
      have hv := hkeep _ _ _ _ hq hR
      obtain hk | ⟨p',u,tr₁,tr₂,hp',hk,rfl,h'⟩ := ih b h
      · exact .inl (htrans _ _ _ hv hk)
      · exact .inr ⟨p',u,.answer _ b :: tr₁,tr₂,hp',htrans _ _ _ hv hk,rfl,h'⟩
  | stop => nomatch h

end LockProg

end OnlDaemons.Lib

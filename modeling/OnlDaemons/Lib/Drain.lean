import Mathlib.Data.List.Perm.Basic

/-!
# Emptying a list from the front

A loop does something to the first element of a list, which may take the element out, and then takes out the first
element of what is there. An element that has been taken out is not there to be taken out again: the next one goes, or
there is none.

## Main definitions

- `drain takes l` — the elements that the loop has worked on, or `none` if it asks an empty list for its first element

## Main result

- `drain_perm_iff` — the loop works on each element once if it never takes one out, and only then
-/

namespace OnlDaemons.Lib

variable {α : Type*} [DecidableEq α]

/-- What is there after the work on `a`. -/
def worked (takes : α → Bool) (a : α) (l : List α) : List α := if takes a then l.filter (· ≠ a) else l

theorem length_worked (takes : α → Bool) (a : α) (l : List α) : (worked takes a l).length ≤ l.length := by
  unfold worked
  split
  · exact List.length_filter_le _ _
  · exact Nat.le_refl _

def drain (takes : α → Bool) (l : List α) : Option (List α) :=
  match l with
  | [] => some []
  | a :: l =>
    match _h : worked takes a (a :: l) with
    | [] => none
    | _ :: left => (drain takes left).map (a :: ·)
termination_by l.length
decreasing_by
  have hle := length_worked takes a (a :: l)
  rw [_h] at hle
  exact hle

variable {takes : α → Bool} {l ran : List α} {a : α}

theorem drain_cons_of_not (ha : takes a = false) : drain takes (a :: l) = (drain takes l).map (a :: ·) := by
  have hl : worked takes a (a :: l) = a :: l := by rw [worked,ha]; rfl
  rw [drain]
  split
  · next h => cases hl.symm.trans h
  · next h =>
    cases hl.symm.trans h
    rfl

/-- An element that is taken out costs the next one its turn. -/
theorem length_of_drain (h : drain takes l = some ran) :
    ran.length ≤ l.length ∧ (ran.length = l.length → ∀ a ∈ l, takes a = false) := by
  fun_induction drain takes l generalizing ran with
  | case1 =>
    cases h
    exact ⟨Nat.le_refl _,nofun⟩
  | case2 => cases h
  | case3 a l b left hl ih =>
    obtain ⟨ran',hran,rfl⟩ := Option.map_eq_some_iff.mp h
    obtain ⟨hle,heq⟩ := ih hran
    cases ha : takes a with
    | false =>
      rw [worked,ha] at hl
      cases hl
      refine ⟨Nat.succ_le_succ hle,fun he b hb => ?_⟩
      rcases List.mem_cons.mp hb with rfl | hb
      · exact ha
      · exact heq (Nat.succ.inj he) b hb
    | true =>
      rw [worked,ha,if_pos rfl,List.filter_cons_of_neg (by simp)] at hl
      have hshort := List.length_filter_le (fun b => decide (b ≠ a)) l
      rw [hl] at hshort
      have hlt : (a :: ran').length < (a :: l).length := Nat.succ_lt_succ (Nat.lt_of_le_of_lt hle hshort)
      exact ⟨Nat.le_of_lt hlt,fun he => absurd he (Nat.ne_of_lt hlt)⟩

theorem drain_of_not (h : ∀ a ∈ l, takes a = false) : drain takes l = some l := by
  induction l with
  | nil => rw [drain]
  | cons a l ih =>
    rw [drain_cons_of_not (h a List.mem_cons_self),ih fun b hb => h b (List.mem_cons_of_mem a hb)]
    rfl

theorem drain_perm_iff : (∃ ran, drain takes l = some ran ∧ ran.Perm l) ↔ ∀ a ∈ l, takes a = false := by
  constructor
  · rintro ⟨ran,h,hperm⟩
    exact (length_of_drain h).2 hperm.length_eq
  · exact fun h => ⟨l,drain_of_not h,List.Perm.refl l⟩

end OnlDaemons.Lib

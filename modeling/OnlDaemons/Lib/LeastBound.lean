import Mathlib.Data.Set.Basic
import Mathlib.Order.Bounds.Basic

/-!
# The least number above a set

A set of natural numbers that grows and shrinks is kept together with a number above all of its elements. The number is
raised for an element that comes, and lowered only when the greatest one goes.

## Main definitions

- `bounds S` — the numbers above all of `S`
- `raise m x` — a bound that is raised above `x` where it has to be

## Main results

- `isLeast_bounds_iff` — the least bound is one more than an element
- `isLeast_raise`, `isLeast_foldl_raise` — elements that come
- `isLeast_diff` — an element that goes and is not the greatest
-/

namespace OnlDaemons.Lib

/-- The numbers above all of a set. -/
def bounds (S : Set ℕ) : Set ℕ := {b | ∀ x ∈ S, x < b}

def raise (m x : ℕ) : ℕ := if m ≤ x then x + 1 else m

variable {S T : Set ℕ} {m x : ℕ}

theorem lt_raise (m x : ℕ) : x < raise m x := by
  unfold raise
  split <;> omega

theorem le_raise (m x : ℕ) : m ≤ raise m x := by
  unfold raise
  split <;> omega

theorem raise_cases (m x : ℕ) : raise m x = x + 1 ∨ raise m x = m := by
  unfold raise
  split
  · exact .inl rfl
  · exact .inr rfl

/-- The least bound of a set that has elements is one more than the greatest of them. -/
theorem isLeast_bounds_iff : IsLeast (bounds S) m ↔ (∀ x ∈ S, x < m) ∧ (m = 0 ∨ ∃ x ∈ S, x + 1 = m) := by
  constructor
  · rintro ⟨hbound, hleast⟩
    refine ⟨hbound, or_iff_not_imp_left.mpr fun hm => ?_⟩
    by_contra hnone
    -- otherwise the number below is a bound already
    have hless : m - 1 ∈ bounds S := by
      intro y hy
      have hlt := hbound y hy
      have hne : y + 1 ≠ m := fun he => hnone ⟨y, hy, he⟩
      omega
    have hle := hleast hless
    omega
  · rintro ⟨hbound, htop⟩
    refine ⟨hbound, fun b hb => ?_⟩
    obtain rfl | ⟨x, hx, rfl⟩ := htop
    · exact Nat.zero_le b
    · exact hb x hx

theorem isLeast_bounds_empty : IsLeast (bounds ∅) 0 := isLeast_bounds_iff.mpr ⟨nofun, .inl rfl⟩

theorem isLeast_bounds_of_top (hx : x ∈ S) (htop : ∀ y ∈ S, y ≤ x) : IsLeast (bounds S) (x + 1) :=
  isLeast_bounds_iff.mpr ⟨fun y hy => Nat.lt_succ_of_le (htop y hy), .inr ⟨x, hx, rfl⟩⟩

theorem isLeast_raise (h : IsLeast (bounds S) m) (x : ℕ) : IsLeast (bounds (insert x S)) (raise m x) := by
  obtain ⟨hbound, htop⟩ := isLeast_bounds_iff.mp h
  apply isLeast_bounds_iff.mpr
  constructor
  · rintro y (rfl | hy)
    · exact lt_raise m y
    · exact (hbound y hy).trans_le (le_raise m x)
  · obtain hx | hm := raise_cases m x
    · exact .inr ⟨x, Set.mem_insert x S, hx.symm⟩
    · rw [hm]
      exact htop.imp_right fun ⟨y, hy, he⟩ => ⟨y, Set.mem_insert_of_mem x hy, he⟩

theorem isLeast_foldl_raise (h : IsLeast (bounds S) m) (l : List ℕ) :
    IsLeast (bounds (S ∪ {x | x ∈ l})) (l.foldl raise m) := by
  induction l generalizing S m with
  | nil => simpa using h
  | cons y l ih =>
    have hset : insert y S ∪ {x | x ∈ l} = S ∪ {x | x ∈ y :: l} := by
      ext x
      simp only [Set.mem_union, Set.mem_insert_iff, Set.mem_ofPred_eq, List.mem_cons]
      tauto
    rw [List.foldl_cons, ← hset]
    exact ih (isLeast_raise h y)

/-- What is not the greatest element can go. -/
theorem isLeast_diff (h : IsLeast (bounds S) m) (hx : x + 1 ≠ m) : IsLeast (bounds (S \ {x})) m := by
  obtain ⟨hbound, htop⟩ := isLeast_bounds_iff.mp h
  apply isLeast_bounds_iff.mpr
  refine ⟨fun y hy => hbound y hy.1, htop.imp_right ?_⟩
  rintro ⟨y, hy, rfl⟩
  exact ⟨y, ⟨hy, fun he => hx (by rw [← he])⟩, rfl⟩

end OnlDaemons.Lib

import Mathlib.Data.List.Basic
import Mathlib.Order.Interval.Set.Basic

/-!
# Lists of index ranges

A set of natural numbers kept as a list of closed ranges, in increasing order and disjoint.

## Main definitions

- `Covers l i` — some range of `l` holds `i`
- `Ordered l` — the ranges are nonempty, increasing and disjoint
- `Within l lo hi` — every range lies inside `[lo, hi]`
-/

namespace OnlDaemons.Lib

/-- The closed range `[left, right]`. -/
structure Range where
  left : ℕ
  right : ℕ
deriving DecidableEq, Repr

namespace RangeList

/-- Some range of the list holds the index. -/
def Covers (l : List Range) (i : ℕ) : Prop := ∃ r ∈ l, r.left ≤ i ∧ i ≤ r.right

instance (l : List Range) (i : ℕ) : Decidable (Covers l i) :=
  inferInstanceAs (Decidable (∃ r ∈ l, _))

/-- The ranges are nonempty, increasing and disjoint. -/
def Ordered (l : List Range) : Prop :=
  (∀ r ∈ l, r.left ≤ r.right) ∧ l.Pairwise (fun r s => r.right < s.left)

/-- Every range of the list lies inside `[lo, hi]`. -/
def Within (l : List Range) (lo hi : ℕ) : Prop := ∀ r ∈ l, lo ≤ r.left ∧ r.right ≤ hi

instance (l : List Range) : Decidable (Ordered l) :=
  inferInstanceAs (Decidable ((∀ r ∈ l, _) ∧ l.Pairwise _))

instance (l : List Range) (lo hi : ℕ) : Decidable (Within l lo hi) :=
  inferInstanceAs (Decidable (∀ r ∈ l, _))

@[simp] theorem covers_nil (i : ℕ) : ¬ Covers [] i := by simp [Covers]

@[simp] theorem covers_cons (r : Range) (l : List Range) (i : ℕ) :
    Covers (r :: l) i ↔ (r.left ≤ i ∧ i ≤ r.right) ∨ Covers l i := by simp [Covers]

@[simp] theorem ordered_nil : Ordered [] := by simp [Ordered]

theorem ordered_cons (r : Range) (l : List Range) :
    Ordered (r :: l) ↔ r.left ≤ r.right ∧ (∀ s ∈ l, r.right < s.left) ∧ Ordered l := by
  simp only [Ordered, List.forall_mem_cons, List.pairwise_cons]
  tauto

theorem ordered_singleton {r : Range} (h : r.left ≤ r.right) : Ordered [r] := by
  simp [ordered_cons, h]

@[simp] theorem within_nil (lo hi : ℕ) : Within [] lo hi := by simp [Within]

@[simp] theorem within_cons (r : Range) (l : List Range) (lo hi : ℕ) :
    Within (r :: l) lo hi ↔ (lo ≤ r.left ∧ r.right ≤ hi) ∧ Within l lo hi := by
  simp [Within]

theorem Ordered.tail {r : Range} {l : List Range} (h : Ordered (r :: l)) : Ordered l :=
  ((ordered_cons r l).mp h).2.2

/-- In an ordered list every index after the head lies above the head. -/
theorem Ordered.above {r : Range} {l : List Range} (h : Ordered (r :: l)) {i : ℕ}
    (hi : Covers l i) : r.right < i := by
  obtain ⟨s, hs, hl, _⟩ := hi
  exact lt_of_lt_of_le (((ordered_cons r l).mp h).2.1 s hs) hl

/-- For nonempty ranges, lying inside an interval is a fact about the covered indices. -/
theorem within_iff {l : List Range} (h : Ordered l) {lo hi : ℕ} :
    Within l lo hi ↔ ∀ i, Covers l i → lo ≤ i ∧ i ≤ hi := by
  constructor
  · rintro hw i ⟨r, hr, hl, hu⟩
    have := hw r hr
    omega
  · intro hc r hr
    have hne := h.1 r hr
    have hl := hc r.left ⟨r, hr, le_rfl, hne⟩
    have hu := hc r.right ⟨r, hr, hne, le_rfl⟩
    omega

end RangeList

end OnlDaemons.Lib

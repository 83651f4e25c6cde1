import Mathlib.Algebra.Order.Monoid.Defs
import Mathlib.Algebra.Order.Monoid.Unbundled.Basic

/-!
# Packing in order

Items are put into bins, both in the order of their lists. When no item is negative, nothing is lost by putting an item
into the first bin it fits.

## Main definitions

- `Packs used items bins` — the items go into the bins; the first bin holds `used` already

## Main results

- `Packs.put` — an item that fits may be put
-/

namespace OnlDaemons.Lib

variable {α : Type} [AddCommMonoid α] [LinearOrder α] [IsOrderedAddMonoid α]

inductive Packs : α → List α → List α → Prop
  | done {used b bs} : Packs used [] (b :: bs)
  | item {used i is b bs} : used + i ≤ b → Packs (used + i) is (b :: bs) → Packs used (i :: is) (b :: bs)
  | close {used is b bs} : Packs 0 is bs → Packs used is (b :: bs)

namespace Packs

variable {used i : α} {is bins : List α}

/-- A bin that holds less does as well. -/
theorem mono (h : Packs used is bins) : ∀ less ≤ used, Packs less is bins := by
  induction h with
  | done => exact fun _ _ => .done
  | item hfit _ ih =>
    intro less hless
    exact .item ((add_le_add_left hless _).trans hfit) (ih _ (add_le_add_left hless _))
  | close h _ => exact fun _ _ => .close h

/-- The first item is left out. -/
theorem tail (h : Packs used (i :: is) bins) (hi : 0 ≤ i) : Packs used is bins := by
  generalize hitems : i :: is = items at h
  induction h with
  | done => cases hitems
  | item _ h _ =>
    cases hitems
    exact h.mono _ (le_add_of_nonneg_right hi)
  | close _ ih => exact .close (ih hitems)

/-- Nothing is lost by putting an item that fits. -/
theorem put {b : α} {bs : List α} (h : Packs used (i :: is) (b :: bs)) (hi : 0 ≤ i) : Packs (used + i) is (b :: bs) := by
  cases h with
  | item _ h => exact h
  | close h => exact .close (h.tail hi)

omit [IsOrderedAddMonoid α] in
/-- An item that does not fit is put into a later bin. -/
theorem later {b : α} {bs : List α} (h : Packs used (i :: is) (b :: bs)) (hfit : b < used + i) : Packs 0 (i :: is) bs := by
  cases h with
  | item hle _ => exact absurd hle (not_le.mpr hfit)
  | close h => exact h

omit [IsOrderedAddMonoid α] in
theorem ne_nil (h : Packs used is bins) : bins ≠ [] := by
  cases h with
  | done => exact List.cons_ne_nil _ _
  | item _ _ => exact List.cons_ne_nil _ _
  | close _ => exact List.cons_ne_nil _ _

end Packs

end OnlDaemons.Lib

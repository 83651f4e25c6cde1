import Mathlib

/-!
# Sums under keys

A map from keys to sums, in which a key that has not been used has the sum zero, is filled entry by entry.

## Main definitions

- `addAt` — one entry
- `tally` — a list of entries
- `amount` — what the entries of a list add under a key
-/

namespace OnlDaemons.Lib

variable {K : Type} [DecidableEq K]

def addAt (m : K → ℤ) (k : K) (v : ℤ) : K → ℤ := Function.update m k (m k + v)

def tally (m : K → ℤ) (entries : List (K × ℤ)) : K → ℤ := entries.foldl (fun m e => addAt m e.1 e.2) m

def amount (entries : List (K × ℤ)) (k : K) : ℤ := ((entries.filter fun e => e.1 = k).map (·.2)).sum

variable {m : K → ℤ} {k : K} {v : ℤ} {e : K × ℤ} {l l' : List (K × ℤ)}

theorem addAt_self : addAt m k v k = m k + v := Function.update_self k _ m

theorem addAt_of_ne {j : K} (h : j ≠ k) : addAt m k v j = m j := Function.update_of_ne h _ m

@[simp] theorem amount_nil : amount [] k = 0 := rfl

theorem amount_cons : amount (e :: l) k = (if e.1 = k then e.2 else 0) + amount l k := by
  rw [amount, List.filter_cons, amount]
  by_cases h : e.1 = k
  · rw [if_pos (decide_eq_true h), if_pos h, List.map_cons, List.sum_cons]
  · rw [if_neg (by rw [decide_eq_true_iff]; exact h), if_neg h, Int.zero_add]

theorem amount_append : amount (l ++ l') k = amount l k + amount l' k := by
  rw [amount, List.filter_append, List.map_append, List.sum_append]
  rfl

theorem amount_singleton : amount [e] k = if e.1 = k then e.2 else 0 := by
  rw [amount_cons, amount_nil, Int.add_zero]

theorem amount_eq_zero (h : ∀ e ∈ l, e.1 ≠ k) : amount l k = 0 := by
  rw [amount, List.filter_eq_nil_iff.mpr]
  · rfl
  · intro e he
    rw [decide_eq_true_iff]
    exact h e he

/-- Each entry is added under its key. -/
theorem tally_apply (m : K → ℤ) (l : List (K × ℤ)) (k : K) : tally m l k = m k + amount l k := by
  induction l generalizing m with
  | nil => exact (Int.add_zero _).symm
  | cons e l ih =>
    rw [tally, List.foldl_cons]
    rw [show l.foldl _ (addAt m e.1 e.2) k = _ from ih (addAt m e.1 e.2), amount_cons, ← Int.add_assoc]
    by_cases h : e.1 = k
    · rw [if_pos h, ← h, addAt_self]
    · rw [if_neg h, addAt_of_ne (Ne.symm h), Int.add_zero]

end OnlDaemons.Lib

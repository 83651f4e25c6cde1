import Mathlib.Data.Int.Order.Basic
import Mathlib.Data.List.Nodup

/-!
# Keeping the cheapest entry for each key

A list of entries with keys of which no two are the same takes offers: an offer for a new key is
appended, and one for a key that is there takes the place of its entry if it is cheaper.

## Main definitions

- `offer key cost xs e` — `xs` after the offer `e`
-/

namespace OnlDaemons.Lib

variable {E K : Type*} [DecidableEq K] (key : E → K) (cost : E → ℤ)

def offer : List E → E → List E
  | [], e => [e]
  | x :: xs, e => if key x = key e then (if cost x > cost e then e else x) :: xs else x :: offer xs e

variable {key cost} {xs ys es : List E} {e x : E}

theorem mem_of_mem_offer (h : x ∈ offer key cost xs e) : x ∈ xs ∨ x = e := by
  induction xs with
  | nil => exact .inr (List.mem_singleton.mp h)
  | cons y xs ih =>
    unfold offer at h
    split at h
    · rcases List.mem_cons.mp h with rfl | hx
      · split
        · exact .inr rfl
        · exact .inl List.mem_cons_self
      · exact .inl (List.mem_cons_of_mem y hx)
    · rcases List.mem_cons.mp h with rfl | hx
      · exact .inl List.mem_cons_self
      · exact (ih hx).imp_left (List.mem_cons_of_mem y)

theorem map_key_offer (xs : List E) (e : E) :
    (offer key cost xs e).map key = if key e ∈ xs.map key then xs.map key else xs.map key ++ [key e] := by
  induction xs with
  | nil => rfl
  | cons x xs ih =>
    unfold offer
    by_cases hx : key x = key e
    · have hmem : key e ∈ (x :: xs).map key := by
        rw [List.map_cons, hx]
        exact List.mem_cons_self
      rw [if_pos hx, if_pos hmem, List.map_cons, List.map_cons]
      congr 1
      split
      · exact hx.symm
      · rfl
    · rw [if_neg hx, List.map_cons, ih, List.map_cons]
      by_cases he : key e ∈ xs.map key
      · rw [if_pos he, if_pos (List.mem_cons_of_mem _ he)]
      · have hn : key e ∉ key x :: xs.map key := by
          rw [List.mem_cons, not_or]
          exact ⟨fun h => hx h.symm, he⟩
        rw [if_neg he, if_neg hn, List.cons_append]

theorem nodup_offer (h : (xs.map key).Nodup) : ((offer key cost xs e).map key).Nodup := by
  rw [map_key_offer]
  split
  · exact h
  · next he => exact h.append (List.nodup_singleton _) (List.disjoint_singleton.mpr he)

variable (key cost)

/-- Every entry stays, or a cheaper one takes its place. -/
theorem exists_le_offer (h : x ∈ xs) (e : E) : ∃ y ∈ offer key cost xs e, key y = key x ∧ cost y ≤ cost x := by
  induction xs with
  | nil => cases h
  | cons z xs ih =>
    unfold offer
    split
    · next hz =>
      rcases List.mem_cons.mp h with rfl | hx
      · refine ⟨_, List.mem_cons_self, ?_⟩
        split
        · next hlt => exact ⟨hz.symm, le_of_lt hlt⟩
        · exact ⟨rfl, le_refl _⟩
      · exact ⟨x, List.mem_cons_of_mem _ hx, rfl, le_refl _⟩
    · rcases List.mem_cons.mp h with rfl | hx
      · exact ⟨x, List.mem_cons_self, rfl, le_refl _⟩
      · obtain ⟨y, hy, hle⟩ := ih hx
        exact ⟨y, List.mem_cons_of_mem z hy, hle⟩

/-- What is kept for the key of an offer is not more expensive. -/
theorem exists_le_of_offer (xs : List E) (e : E) : ∃ y ∈ offer key cost xs e, key y = key e ∧ cost y ≤ cost e := by
  induction xs with
  | nil => exact ⟨e, List.mem_singleton_self e, rfl, le_refl _⟩
  | cons z xs ih =>
    unfold offer
    split
    · next hz =>
      refine ⟨_, List.mem_cons_self, ?_⟩
      split
      · exact ⟨rfl, le_refl _⟩
      · next hle => exact ⟨hz, not_lt.mp hle⟩
    · obtain ⟨y, hy, hle⟩ := ih
      exact ⟨y, List.mem_cons_of_mem z hy, hle⟩

variable {key cost}

/-- An offer leaves entries with other keys alone. -/
theorem offer_append (h : key e ∉ xs.map key) (ys : List E) :
    offer key cost (xs ++ ys) e = xs ++ offer key cost ys e := by
  induction xs with
  | nil => rfl
  | cons x xs ih =>
    rw [List.map_cons, List.mem_cons, not_or] at h
    rw [List.cons_append, offer, if_neg fun hx => h.1 hx.symm, ih h.2, List.cons_append]

/-! ### A list of offers -/

theorem mem_of_mem_offers (h : x ∈ es.foldl (offer key cost) xs) : x ∈ xs ∨ x ∈ es := by
  induction es generalizing xs with
  | nil => exact .inl h
  | cons e es ih =>
    obtain hx | hx := ih h
    · refine (mem_of_mem_offer hx).imp_right fun he => ?_
      rw [he]
      exact List.mem_cons_self
    · exact .inr (List.mem_cons_of_mem e hx)

theorem nodup_offers (h : (xs.map key).Nodup) : ((es.foldl (offer key cost) xs).map key).Nodup := by
  induction es generalizing xs with
  | nil => exact h
  | cons e es ih => exact ih (nodup_offer h)

variable (key cost)

theorem exists_le_offers (h : x ∈ xs) (es : List E) :
    ∃ y ∈ es.foldl (offer key cost) xs, key y = key x ∧ cost y ≤ cost x := by
  induction es generalizing xs x with
  | nil => exact ⟨x, h, rfl, le_refl _⟩
  | cons e es ih =>
    obtain ⟨y, hy, hkey, hle⟩ := exists_le_offer key cost h e
    obtain ⟨z, hz, hkey', hle'⟩ := ih hy
    exact ⟨z, hz, hkey'.trans hkey, le_trans hle' hle⟩

theorem exists_le_of_offers (h : e ∈ es) (xs : List E) :
    ∃ y ∈ es.foldl (offer key cost) xs, key y = key e ∧ cost y ≤ cost e := by
  induction es generalizing xs with
  | nil => cases h
  | cons d es ih =>
    rcases List.mem_cons.mp h with rfl | he
    · obtain ⟨y, hy, hkey, hle⟩ := exists_le_of_offer key cost xs e
      obtain ⟨z, hz, hkey', hle'⟩ := exists_le_offers key cost hy es
      exact ⟨z, hz, hkey'.trans hkey, le_trans hle' hle⟩
    · exact ih he _

variable {key cost}

theorem offers_append (h : ∀ e ∈ es, key e ∉ xs.map key) (ys : List E) :
    es.foldl (offer key cost) (xs ++ ys) = xs ++ es.foldl (offer key cost) ys := by
  induction es generalizing ys with
  | nil => rfl
  | cons e es ih =>
    rw [List.foldl_cons, offer_append (h e List.mem_cons_self) ys,
      ih (fun d hd => h d (List.mem_cons_of_mem e hd)), List.foldl_cons]

end OnlDaemons.Lib

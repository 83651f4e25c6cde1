import Mathlib.Data.List.Basic
import Mathlib.Data.List.Nodup
import Mathlib.Data.List.Range
import Mathlib.Tactic.Common

/-!
# Rows in some order

A query without an order may return its rows in any order, and one with an order may return
rows of equal keys in any order. Such an order is a permutation of the positions.

## Main definitions

- `arrange ix l` — the elements of `l` at the positions `ix`
-/

namespace OnlDaemons.Lib

variable {α β : Type*}

/-- The elements of a list at the given positions. -/
def arrange (ix : List ℕ) (l : List α) : List α := ix.filterMap (fun i => l[i]?)

theorem arrange_map (ix : List ℕ) (f : α → β) (l : List α) :
    arrange ix (l.map f) = (arrange ix l).map f := by
  simp only [arrange, List.map_filterMap, List.getElem?_map]

/-- All positions in their order give the list itself. -/
theorem arrange_range (l : List α) : arrange (List.range l.length) l = l := by
  induction l with
  | nil => rfl
  | cons x l ih =>
    simp only [arrange, List.length_cons, List.range_succ_eq_map, List.filterMap_cons,
      List.getElem?_cons_zero, List.filterMap_map, Function.comp_def, Nat.succ_eq_add_one,
      List.getElem?_cons_succ]
    rw [← arrange, ih]

theorem arrange_perm {ix : List ℕ} {l : List α} (h : ix.Perm (List.range l.length)) :
    (arrange ix l).Perm l := by
  have hp : (arrange ix l).Perm (arrange (List.range l.length) l) := h.filterMap _
  rwa [arrange_range] at hp

/-- Of a list of distinct elements exactly one has a property if the elements that have it are
all equal to one that does. -/
theorem countP_eq_one_iff {l : List α} (hl : l.Nodup) {p : α → Bool} {a : α} (ha : a ∈ l)
    (hpa : p a = true) : l.countP p = 1 ↔ ∀ b ∈ l, p b = true → b = a := by
  rw [List.countP_eq_length_filter]
  have hmem : a ∈ l.filter p := List.mem_filter.mpr ⟨ha, hpa⟩
  constructor
  · intro h b hb hpb
    obtain ⟨x, hx⟩ := List.length_eq_one_iff.mp h
    have hb' : b ∈ l.filter p := List.mem_filter.mpr ⟨hb, hpb⟩
    rw [hx, List.mem_singleton] at hmem hb'
    rw [hmem, hb']
  · intro h
    have hall : ∀ b ∈ l.filter p, b = a := fun b hb =>
      h b (List.mem_filter.mp hb).1 (List.mem_filter.mp hb).2
    have hnodup := hl.filter p
    obtain ⟨n, hn⟩ : ∃ n, l.filter p = List.replicate n a :=
      ⟨_, List.eq_replicate_of_mem hall⟩
    rw [hn] at hnodup hmem ⊢
    have hle := List.nodup_replicate.mp hnodup
    have hpos : n ≠ 0 := by
      rintro rfl
      cases hmem
    rw [List.length_replicate]
    omega

/-! ### Groups -/

/-- Elements collected under distinct numbers are found again under their number. -/
theorem filter_flatMap_key {ι : Type*} {l : List (ι × ℕ)} (hl : (l.map Prod.snd).Nodup)
    {g : ι × ℕ → List α} {key : α → ℕ} (hg : ∀ p ∈ l, ∀ x ∈ g p, key x = p.2) {p : ι × ℕ}
    (hp : p ∈ l) : (l.flatMap g).filter (fun x => key x = p.2) = g p := by
  induction l with
  | nil => cases hp
  | cons q l ih =>
    obtain ⟨hq, hl'⟩ := List.nodup_cons.mp hl
    have hg' := fun r hr => hg r (List.mem_cons_of_mem q hr)
    have hne : ∀ r ∈ l, r.2 ≠ q.2 := fun r hr h => hq (h ▸ List.mem_map_of_mem hr)
    rw [List.flatMap_cons, List.filter_append]
    rcases List.mem_cons.mp hp with rfl | hp
    · have hself : (g p).filter (fun x => key x = p.2) = g p :=
        List.filter_eq_self.mpr (fun x hx => by simpa using hg p List.mem_cons_self x hx)
      have hrest : (l.flatMap g).filter (fun x => key x = p.2) = [] := by
        rw [List.filter_eq_nil_iff]
        intro x hx
        obtain ⟨r, hr, hxr⟩ := List.mem_flatMap.mp hx
        simpa [hg' r hr x hxr] using hne r hr
      rw [hself, hrest, List.append_nil]
    · have hnone : (g q).filter (fun x => key x = p.2) = [] := by
        rw [List.filter_eq_nil_iff]
        intro x hx
        simpa [hg q List.mem_cons_self x hx] using (hne p hp).symm
      rw [hnone, List.nil_append, ih hl' hg' hp]

/-- Positions from which on nothing comes may be left out. -/
theorem flatMap_range_of_nil {G : ℕ → List β} {n m : ℕ} (hnm : n ≤ m)
    (h : ∀ k, n ≤ k → G k = []) : (List.range m).flatMap G = (List.range n).flatMap G := by
  induction m, hnm using Nat.le_induction with
  | base => rfl
  | succ m hm ih => rw [List.range_succ, List.flatMap_append, ih, List.flatMap_singleton, h m hm,
      List.append_nil]

/-- Elements that come in groups numbered from 1 on are gone through group by group. -/
theorem flatMap_range_groups {ι : Type*} (l : List ι) {g : ι × ℕ → List α} {key : α → ℕ}
    (hg : ∀ p ∈ l.zipIdx 1, ∀ x ∈ g p, key x = p.2) {F : ℕ → List α → List β}
    (hF : ∀ k, F k [] = []) {n : ℕ} (hn : ∀ x ∈ (l.zipIdx 1).flatMap g, key x < n) :
    (List.range n).flatMap (fun k => F k (((l.zipIdx 1).flatMap g).filter (fun x => key x = k))) =
      (l.zipIdx 1).flatMap (fun p => F p.2 (g p)) := by
  have hsnd : (l.zipIdx 1).map Prod.snd = List.range' 1 l.length := List.zipIdx_map_snd 1 l
  have hout : ∀ k, k ∉ List.range' 1 l.length →
      F k (((l.zipIdx 1).flatMap g).filter (fun x => key x = k)) = [] := by
    intro k hk
    rw [List.filter_eq_nil_iff.mpr, hF]
    intro x hx hxk
    obtain ⟨p, hp, hxp⟩ := List.mem_flatMap.mp hx
    apply hk
    rw [← hsnd, ← decide_eq_true_iff.mp hxk, hg p hp x hxp]
    exact List.mem_map_of_mem hp
  have hlarge : ∀ k, n ≤ k →
      F k (((l.zipIdx 1).flatMap g).filter (fun x => key x = k)) = [] := by
    intro k hk
    rw [List.filter_eq_nil_iff.mpr, hF]
    intro x hx hxk
    have := hn x hx
    have := decide_eq_true_iff.mp hxk
    omega
  rw [← flatMap_range_of_nil (le_max_left n (l.length + 1)) hlarge,
    flatMap_range_of_nil (le_max_right n (l.length + 1)) (fun k hk => hout k (by simp; omega)),
    List.range_eq_range', List.range'_succ, List.flatMap_cons, hout 0 (by simp), List.nil_append,
    ← hsnd, List.flatMap_map]
  apply List.flatMap_congr
  intro p hp
  rw [filter_flatMap_key (by rw [hsnd]; exact List.nodup_range') hg hp]

end OnlDaemons.Lib

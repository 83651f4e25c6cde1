import Mathlib.Algebra.Order.Ring.Int
import Mathlib.Data.List.Nodup
import Mathlib.Data.Nat.Find

/-!
# Walks along labelled edges

A graph is given by which node a label leads to from a node, and at what cost. The first edge of a walk obeys
a rule of its own. In a walk with the least number of edges no label comes twice.

## Main definitions

- `Steps edge u ls c t` — the labels `ls` lead from `u` to `t` at the cost `c`
- `Walk first edge ls c t` — the same for a walk of at least one edge from a fixed node

## Main result

- `Walk.nodup` — the labels of a walk with the least number of edges are different
-/

namespace OnlDaemons.Lib

variable {N L : Type*}

inductive Steps (edge : N → L → N → ℤ → Prop) : N → List L → ℤ → N → Prop
  | nil (u : N) : Steps edge u [] 0 u
  | cons {u v t : N} {l : L} {d c : ℤ} {ls : List L} :
      edge u l v d → Steps edge v ls c t → Steps edge u (l :: ls) (d + c) t

inductive Walk (first : L → N → ℤ → Prop) (edge : N → L → N → ℤ → Prop) : List L → ℤ → N → Prop
  | cons {v t : N} {l : L} {d c : ℤ} {ls : List L} :
      first l v d → Steps edge v ls c t → Walk first edge (l :: ls) (d + c) t

variable {first : L → N → ℤ → Prop} {edge : N → L → N → ℤ → Prop} {u v t : N} {l : L} {ls ms : List L}
  {c d : ℤ}

theorem Steps.append (h : Steps edge u ls c v) (h' : Steps edge v ms d t) :
    Steps edge u (ls ++ ms) (c + d) t := by
  induction h with
  | nil u => rwa [List.nil_append, zero_add]
  | cons he _ ih => rw [List.cons_append, add_assoc]; exact .cons he (ih h')

theorem Steps.split (h : Steps edge u (ls ++ ms) c t) :
    ∃ v a b, Steps edge u ls a v ∧ Steps edge v ms b t ∧ c = a + b := by
  induction ls generalizing u c with
  | nil => exact ⟨u, 0, c, .nil u, h, (zero_add c).symm⟩
  | cons l ls ih =>
    rw [List.cons_append] at h
    cases h with
    | cons he h =>
      obtain ⟨v, a, b, ha, hb, rfl⟩ := ih h
      exact ⟨v, _, b, .cons he ha, hb, (add_assoc _ a b).symm⟩

theorem Steps.single (h : edge u l t d) : Steps edge u [l] d t := by
  have hs := Steps.cons h (.nil t)
  rwa [add_zero] at hs

namespace Walk

theorem ne_nil (h : Walk first edge ls c t) : ls ≠ [] := by
  cases h
  exact List.cons_ne_nil _ _

theorem single (h : first l t d) : Walk first edge [l] d t := by
  have hw : Walk first edge [l] (d + 0) t := Walk.cons h (Steps.nil t)
  rwa [add_zero] at hw

theorem append (h : Walk first edge ls c v) (h' : Steps edge v ms d t) :
    Walk first edge (ls ++ ms) (c + d) t := by
  cases h with
  | cons hf h => rw [List.cons_append, add_assoc]; exact .cons hf (h.append h')

theorem snoc (h : Walk first edge ls c v) (he : edge v l t d) : Walk first edge (ls ++ [l]) (c + d) t :=
  h.append (.single he)

theorem split (h : Walk first edge (ls ++ ms) c t) (hne : ls ≠ []) :
    ∃ v a b, Walk first edge ls a v ∧ Steps edge v ms b t ∧ c = a + b := by
  cases ls with
  | nil => exact absurd rfl hne
  | cons l ls =>
    rw [List.cons_append] at h
    cases h with
    | cons hf h =>
      obtain ⟨v, a, b, ha, hb, rfl⟩ := h.split
      exact ⟨v, _, b, .cons hf ha, hb, (add_assoc _ a b).symm⟩

/-- No walk has fewer edges. -/
def Least (first : L → N → ℤ → Prop) (edge : N → L → N → ℤ → Prop) (k : ℕ) (t : N) : Prop :=
  ∀ ls c, Walk first edge ls c t → k ≤ ls.length

/-- The beginning of a walk with the least number of edges has the least number of edges. -/
theorem Least.split (hleast : Least first edge (ls ++ ms).length t) (h : Walk first edge (ls ++ ms) c t)
    (hne : ls ≠ []) :
    ∃ v a b, Walk first edge ls a v ∧ Steps edge v ms b t ∧ c = a + b ∧ Least first edge ls.length v := by
  obtain ⟨v, a, b, hw, hs, hc⟩ := h.split hne
  refine ⟨v, a, b, hw, hs, hc, fun xs e hx => ?_⟩
  have hle := hleast _ _ (hx.append hs)
  rw [List.length_append, List.length_append] at hle
  omega

/-- A walk where there are more edges, at other costs. -/
theorem map {first' : L → N → ℤ → Prop} {edge' : N → L → N → ℤ → Prop}
    (hfirst : ∀ l v d, first l v d → ∃ d', first' l v d') (hedge : ∀ u l v d, edge u l v d → ∃ d', edge' u l v d')
    (h : Walk first edge ls c t) : ∃ c', Walk first' edge' ls c' t := by
  have hsteps : ∀ {u ls c t}, Steps edge u ls c t → ∃ c', Steps edge' u ls c' t := by
    intro u ls c t hs
    induction hs with
    | nil u => exact ⟨0, .nil u⟩
    | cons he _ ih =>
      obtain ⟨d', he'⟩ := hedge _ _ _ _ he
      obtain ⟨c', hs'⟩ := ih
      exact ⟨d' + c', .cons he' hs'⟩
  cases h with
  | cons hf hs =>
    obtain ⟨d', hf'⟩ := hfirst _ _ _ hf
    obtain ⟨c', hs'⟩ := hsteps hs
    exact ⟨d' + c', .cons hf' hs'⟩

/-- A label that comes twice splits the list. -/
theorem exists_twice (h : ¬ls.Nodup) : ∃ l xs ys zs, ls = xs ++ (l :: (ys ++ (l :: zs))) := by
  rw [List.nodup_iff_sublist] at h
  push Not at h
  obtain ⟨l, hl⟩ := h
  obtain ⟨r, r', rfl, hr, hr'⟩ := List.cons_sublist_iff.mp hl
  obtain ⟨xs, ys, rfl⟩ := List.append_of_mem hr
  obtain ⟨ys', zs, rfl⟩ := List.append_of_mem (List.singleton_sublist.mp hr')
  exact ⟨l, xs, ys ++ ys', zs, by simp⟩

/-- The steps from one place of a label to the next, and on. -/
theorem steps_twice {ys zs : List L} (h : Steps edge v (ys ++ (l :: zs)) c t) :
    ∃ u v' d b, edge u l v' d ∧ Steps edge v' zs b t := by
  obtain ⟨u, a, b, -, hs, -⟩ := h.split
  cases hs with
  | cons he hs => exact ⟨u, _, _, _, he, hs⟩

/-- If the first node can only be left as it was left first, and a label joins two nodes, then the walk goes
along each label once. -/
theorem nodup {s : N} (hback : ∀ l v d, edge s l v d → first l v d)
    (hjoin : ∀ l u v d u' v' d', edge u l v d → edge u' l v' d' → v' = v ∨ v' = u)
    (hstart : ∀ l v d u' v' d', first l v d → edge u' l v' d' → v' = v ∨ v' = s)
    (hts : t ≠ s) (h : Walk first edge ls c t) (hleast : Least first edge ls.length t) : ls.Nodup := by
  by_contra hdup
  obtain ⟨l, xs, ys, zs, rfl⟩ := exists_twice hdup
  have hlong : ∀ ms b, Walk first edge ms b t → xs.length + zs.length + 2 ≤ ms.length := by
    intro ms b hw
    have hle := hleast ms b hw
    simp only [List.length_append, List.length_cons] at hle
    omega
  by_cases hxs : xs = []
  · subst hxs
    rw [List.nil_append] at h
    cases h with
    | cons hf hs =>
      obtain ⟨u', v', d', b, he, hz⟩ := steps_twice hs
      obtain rfl | rfl := hstart _ _ _ _ _ _ hf he
      · have hle := hlong _ _ (Walk.cons hf hz)
        simp only [List.length_cons, List.length_nil] at hle
        omega
      · cases hz with
        | nil => exact hts rfl
        | cons hb hz =>
          have hle := hlong _ _ (Walk.cons (hback _ _ _ hb) hz)
          simp only [List.length_cons, List.length_nil] at hle
          omega
  · obtain ⟨u, a, b, hw, hs, -⟩ := h.split hxs
    cases hs with
    | cons he hs =>
      obtain ⟨u', v', d', b, he', hz⟩ := steps_twice hs
      obtain rfl | rfl := hjoin _ _ _ _ _ _ _ he he'
      · have hle := hlong _ _ ((hw.snoc he).append hz)
        simp only [List.length_append, List.length_cons, List.length_nil] at hle
        omega
      · have hle := hlong _ _ (hw.append hz)
        rw [List.length_append] at hle
        omega

end Walk

end OnlDaemons.Lib

import OnlDaemons.Onldb.FillInSound

/-!
# What a failed assignment leaves

`find_mapping` returns false with the marks it has set. `subset_assign` takes away the marks of its level before it
tries the next reserved node, and before it returns false.

A cluster of the user takes the place of a reserved cluster without a look at its mark. If another one has it, the mark
gets the new level, and is taken away with it.

## Main definitions

- `TriedNode` — the states in which the loop of `subset_assign` tries a reserved node
- `SubsetCall` — the calls of `subset_assign` in a run of `fill_in_topology`
- `Shareable` — a reserved cluster that a cluster of the user may still take
- `SameMarks`

## Main results

- `subsetAssign_sameMarks`
-/

namespace OnlDaemons.Onldb

open Lib

/-- The loop over the reserved nodes tries `r'` in the state `s'`. -/
inductive TriedNode (find : Search → ℕ → Option (Bool × Search)) (next : Search → Option (Bool × Search))
    (clean : Search → Search) : List ℕ → Search → ℕ → Search → Prop
  | here {r rs s} : (s.resNodes r).marked = false → TriedNode find next clean (r :: rs) s r s
  | skip {r rs s r' s'} : (s.resNodes r).marked = true → TriedNode find next clean rs s r' s' →
      TriedNode find next clean (r :: rs) s r' s'
  | fail {r rs s s₁ r' s'} : (s.resNodes r).marked = false → find s r = some (false, s₁) →
      TriedNode find next clean rs (clean s₁) r' s' → TriedNode find next clean (r :: rs) s r' s'
  | back {r rs s s₁ s₂ r' s'} : (s.resNodes r).marked = false → find s r = some (true, s₁) →
      next s₁ = some (false, s₂) → TriedNode find next clean rs (clean s₂) r' s' → TriedNode find next clean (r :: rs) s r' s'

/-- A call of `subset_assign` for a first list `ai :: al` tries the node in the state. -/
def SubsetTries (t res : Topology) (fuel : ℕ) (rl : List AssignInfo) (ai : AssignInfo) (al : List AssignInfo)
    (rest : List (List AssignInfo)) (level : ℕ) (s : Search) (a r : ℕ) (s' : Search) : Prop :=
  ∃ as ri, ai.userNodes = a :: as ∧ rl.find? (fun ri => ai.type = ri.type) = some ri ∧
    TriedNode (fun s r => findMapping t res level fuel s a r) (fun s => subsetAssign t res fuel rl rest (level + 1) s)
      (Search.cleanUp t res level rl (ai :: al)) ri.testbedNodes s r s'

/-- The calls of `subset_assign`, with the lists, the level and the state they are called with. -/
inductive SubsetCall (t res : Topology) (fuel : ℕ) (rl : List AssignInfo) (lists : List (List AssignInfo)) :
    List (List AssignInfo) → ℕ → Search → Prop
  | first : SubsetCall t res fuel rl lists lists 1 (Search.start t)
  | next {ai al rest level s a r s₁ s₂} : SubsetCall t res fuel rl lists ((ai :: al) :: rest) level s →
      SubsetTries t res fuel rl ai al rest level s a r s₁ → findMapping t res level fuel s₁ a r = some (true, s₂) →
      SubsetCall t res fuel rl lists rest (level + 1) s₂

/-- A cluster of the user that is not marked has a node that fits a free node of the reserved cluster. -/
def Shareable (t res : Topology) (s : Search) (q : ℕ) : Prop :=
  ∃ a < t.nodes.length, ∃ p, (t.node a).parent = some p ∧ (s.nodes p).marked = false ∧
    ∃ r < res.nodes.length, (res.node r).parent = some q ∧ (s.resNodes r).marked = false ∧ TypeFits t res a r

/-- The marks of both topologies are the same. Nothing is said of a marked cluster that may be taken again, but that
no cluster gets a mark. -/
structure SameMarks (t res : Topology) (s s' : Search) : Prop where
  node : ∀ a, (s'.nodes a).marked = (s.nodes a).marked
  link : ∀ l, (s'.links l).marked = (s.links l).marked
  resLink : ∀ m, (s'.resLinks m).marked = (s.resLinks m).marked
  resNode : ∀ r, ¬Shareable t res s r → (s'.resNodes r).marked = (s.resNodes r).marked
  unmarked : ∀ r, (s.resNodes r).marked = false → (s'.resNodes r).marked = false

/-! ### Marks and levels -/

/-- The same mark, of the same level if it is set. -/
def Mark.Same (x y : Mark) : Prop := y.marked = x.marked ∧ (x.marked = true → y.level = x.level)

theorem Mark.Same.refl (x : Mark) : x.Same x := ⟨rfl, fun _ => rfl⟩

theorem Mark.Same.trans {x y z : Mark} (h : x.Same y) (h' : y.Same z) : x.Same z :=
  ⟨h'.1.trans h.1, fun hx => (h'.2 (h.1.trans hx)).trans (h.2 hx)⟩

theorem Mark.Same.eq {x y : Mark} {level : ℕ} (h : x.Same y) (hx : x = ⟨true, level⟩) : y = ⟨true, level⟩ := by
  subst hx
  cases y with
  | mk marked level' =>
    obtain ⟨rfl, hlevel⟩ := h
    rw [show level' = level from hlevel rfl]

theorem Mark.Same.of_unmarked {x y : Mark} (hx : x.marked = false) (hy : y.marked = false) : x.Same y :=
  ⟨hy.trans hx.symm, fun h => by rw [hx] at h; cases h⟩

/-- The mark of a user node, as it is for clusters. -/
def UserNode.mark (x : UserNode) : Mark := ⟨x.marked, x.level⟩

/-- The same marks, with their levels; a reserved cluster that may be taken can have lost its mark. -/
structure Restored (t res : Topology) (s s' : Search) : Prop where
  node : ∀ a, (t.node a).isParent = false → (s'.nodes a).marked = (s.nodes a).marked
  cluster : ∀ p, (t.node p).isParent = true → (s.nodes p).mark.Same (s'.nodes p).mark
  link : ∀ l, (s'.links l).marked = (s.links l).marked
  resNode : ∀ r, (res.node r).isParent = false → (s.resNodes r).Same (s'.resNodes r)
  resLink : ∀ m, (s.resLinks m).Same (s'.resLinks m)
  resCluster : ∀ q, (res.node q).isParent = true → (s.resNodes q).Same (s'.resNodes q) ∨
    (s'.resNodes q).marked = false ∧ Shareable t res s q

/-- A reserved node that was free has the mark of the level. -/
def Placed (res : Topology) (level : ℕ) (s' : Search) (r : ℕ) : Prop :=
  r < res.nodes.length ∧ (res.node r).isParent = false ∧ s'.resNodes r = ⟨true, level⟩

/-- What happens to the marks before the clean-up of the level. -/
structure AtLevel (t res : Topology) (comp : ℕ → ℕ → Prop) (level : ℕ) (s s' : Search) : Prop where
  node : ∀ a, (t.node a).isParent = false → ¬comp level a → (s'.nodes a).marked = (s.nodes a).marked
  cluster : ∀ p, (t.node p).isParent = true → (s.nodes p).mark.Same (s'.nodes p).mark ∨
    (s.nodes p).marked = false ∧ (s'.nodes p).mark = ⟨true, level⟩ ∧ ∃ a, comp level a ∧ (t.node a).parent = some p
  link : ∀ l, (∀ a, comp level a → ¬t.Inc l a) → (s'.links l).marked = (s.links l).marked
  resNode : ∀ r, (res.node r).isParent = false → (s.resNodes r).Same (s'.resNodes r) ∨
    (s.resNodes r).marked = false ∧ Placed res level s' r
  resLink : ∀ m, (s.resLinks m).Same (s'.resLinks m) ∨
    (s.resLinks m).marked = false ∧ s'.resLinks m = ⟨true, level⟩ ∧
      ∃ r, Placed res level s' r ∧ m ∈ (res.node r).links
  resCluster : ∀ q, (res.node q).isParent = true → (s.resNodes q).Same (s'.resNodes q) ∨
    (s'.resNodes q).marked = false ∧ Shareable t res s q ∨
    ((s.resNodes q).marked = false ∨ Shareable t res s q) ∧ s'.resNodes q = ⟨true, level⟩ ∧
      ∃ r, Placed res level s' r ∧ (res.node r).parent = some q

/-- The marks are of levels up to `k`. -/
structure UpTo (t res : Topology) (k : ℕ) (s : Search) : Prop where
  cluster : ∀ p, (t.node p).isParent = true → (s.nodes p).marked = true → (s.nodes p).level ≤ k
  resNode : ∀ r, (s.resNodes r).marked = true → (s.resNodes r).level ≤ k
  resLink : ∀ m, (s.resLinks m).marked = true → (s.resLinks m).level ≤ k

theorem Restored.refl {t res : Topology} {s : Search} : Restored t res s s :=
  ⟨fun _ _ => rfl, fun _ _ => .refl _, fun _ => rfl, fun _ _ => .refl _, fun _ => .refl _, fun _ _ => .inl (.refl _)⟩

theorem Restored.atLevel {t res : Topology} {comp : ℕ → ℕ → Prop} {level : ℕ} {s s' : Search}
    (h : Restored t res s s') : AtLevel t res comp level s s' :=
  ⟨fun a ha _ => h.node a ha, fun p hp => .inl (h.cluster p hp), fun l _ => h.link l, fun r hr => .inl (h.resNode r hr),
    fun m => .inl (h.resLink m), fun q hq => (h.resCluster q hq).imp_right .inl⟩

section

variable {t res : Topology} {comp : ℕ → ℕ → Prop} {level : ℕ} {s s₁ s' : Search}

/-- What has the mark of the level keeps it. -/
theorem Placed.keep {r : ℕ} (h : Placed res level s₁ r) (hstep : AtLevel t res comp level s₁ s') :
    Placed res level s' r := by
  refine ⟨h.1, h.2.1, ?_⟩
  obtain hsame | ⟨hfree, -⟩ := hstep.resNode r h.2.1
  · exact hsame.eq h.2.2
  · rw [h.2.2] at hfree
    cases hfree

/-- Marks are only added, but for those of reserved clusters. -/
theorem AtLevel.shareable (h : AtLevel t res comp level s s₁) (ht : t.Wf) (hres : res.Plain) {q : ℕ}
    (hq : Shareable t res s₁ q) : Shareable t res s q := by
  obtain ⟨a, ha, p, hp, hpm, r, hr, hrq, hrm, hfit⟩ := hq
  refine ⟨a, ha, p, hp, ?_, r, hr, hrq, ?_, hfit⟩
  · obtain hsame | ⟨hfree, -⟩ := h.cluster p (ht.parent a ha p hp).2
    · exact hsame.1.symm.trans hpm
    · exact hfree
  · have hleaf : (res.node r).isParent = false := by
      by_contra hpar
      rw [hres.flat r hr (Bool.eq_true_of_not_eq_false hpar)] at hrq
      cases hrq
    obtain hsame | ⟨hfree, -⟩ := h.resNode r hleaf
    · exact hsame.1.symm.trans hrm
    · exact hfree

theorem AtLevel.trans (h : AtLevel t res comp level s s₁) (h' : AtLevel t res comp level s₁ s') (ht : t.Wf)
    (hres : res.Plain) : AtLevel t res comp level s s' := by
  constructor
  case node => exact fun a ha hc => (h'.node a ha hc).trans (h.node a ha hc)
  case link => exact fun l hl => (h'.link l hl).trans (h.link l hl)
  case cluster =>
    intro p hp
    obtain hsame | ⟨hfree, hnew, hchild⟩ := h.cluster p hp
    · obtain hsame' | ⟨hfree', hnew', hchild'⟩ := h'.cluster p hp
      · exact .inl (hsame.trans hsame')
      · exact .inr ⟨hsame.1.symm.trans hfree', hnew', hchild'⟩
    · obtain hsame' | ⟨hfree', -⟩ := h'.cluster p hp
      · exact .inr ⟨hfree, hsame'.eq hnew, hchild⟩
      · rw [show (s₁.nodes p).marked = true from congrArg Mark.marked hnew] at hfree'
        cases hfree'
  case resNode =>
    intro r hr
    obtain hsame | ⟨hfree, hnew⟩ := h.resNode r hr
    · obtain hsame' | ⟨hfree', hnew'⟩ := h'.resNode r hr
      · exact .inl (hsame.trans hsame')
      · exact .inr ⟨hsame.1.symm.trans hfree', hnew'⟩
    · exact .inr ⟨hfree, hnew.keep h'⟩
  case resLink =>
    intro m
    obtain hsame | ⟨hfree, hnew, r, hr, hm⟩ := h.resLink m
    · obtain hsame' | ⟨hfree', hnew'⟩ := h'.resLink m
      · exact .inl (hsame.trans hsame')
      · exact .inr ⟨hsame.1.symm.trans hfree', hnew'⟩
    · obtain hsame' | ⟨hfree', -⟩ := h'.resLink m
      · exact .inr ⟨hfree, hsame'.eq hnew, r, hr.keep h', hm⟩
      · rw [hnew] at hfree'
        cases hfree'
  case resCluster =>
    intro q hq
    obtain hsame' | ⟨hlost', hshare'⟩ | ⟨hfree', hnew', r', hr', hrq'⟩ := h'.resCluster q hq
    · obtain hsame | ⟨hlost, hshare⟩ | ⟨hfree, hnew, r, hr, hrq⟩ := h.resCluster q hq
      · exact .inl (hsame.trans hsame')
      · exact .inr (.inl ⟨hsame'.1.trans hlost, hshare⟩)
      · exact .inr (.inr ⟨hfree, hsame'.eq hnew, r, hr.keep h', hrq⟩)
    · exact .inr (.inl ⟨hlost', h.shareable ht hres hshare'⟩)
    · refine .inr (.inr ⟨?_, hnew', r', hr', hrq'⟩)
      obtain hfree' | hshare' := hfree'
      · obtain hsame | ⟨-, hshare⟩ | ⟨hfree, -⟩ := h.resCluster q hq
        · exact .inl (hsame.1.symm.trans hfree')
        · exact .inr hshare
        · exact hfree
      · exact .inr (h.shareable ht hres hshare')

/-- The marks of the level are the only new ones. -/
theorem AtLevel.upTo {k : ℕ} (h : AtLevel t res comp (k + 1) s s') (hs : UpTo t res k s) :
    UpTo t res (k + 1) s' := by
  have hsame : ∀ {x y : Mark}, (x.marked = true → x.level ≤ k) → x.Same y → y.marked = true → y.level ≤ k + 1 := by
    intro x y hx hxy hy
    have hxm := hxy.1.symm.trans hy
    rw [hxy.2 hxm]
    exact Nat.le_succ_of_le (hx hxm)
  constructor
  case cluster =>
    intro p hp hm
    obtain hold | ⟨-, hnew, -⟩ := h.cluster p hp
    · exact hsame (hs.cluster p hp) hold hm
    · exact Nat.le_of_eq (congrArg Mark.level hnew)
  case resNode =>
    intro r hm
    cases hr : (res.node r).isParent with
    | false =>
      obtain hold | ⟨-, -, -, hnew⟩ := h.resNode r hr
      · exact hsame (hs.resNode r) hold hm
      · exact Nat.le_of_eq (congrArg Mark.level hnew)
    | true =>
      obtain hold | ⟨hlost, -⟩ | ⟨-, hnew, -⟩ := h.resCluster r hr
      · exact hsame (hs.resNode r) hold hm
      · rw [hlost] at hm
        cases hm
      · exact Nat.le_of_eq (congrArg Mark.level hnew)
  case resLink =>
    intro m hm
    obtain hold | ⟨-, hnew, -⟩ := h.resLink m
    · exact hsame (hs.resLink m) hold hm
    · exact Nat.le_of_eq (congrArg Mark.level hnew)

theorem Restored.upTo {k : ℕ} (h : Restored t res s s') (hs : UpTo t res k s) : UpTo t res k s' := by
  have hsame : ∀ {x y : Mark}, (x.marked = true → x.level ≤ k) → x.Same y → y.marked = true → y.level ≤ k := by
    intro x y hx hxy hy
    have hxm := hxy.1.symm.trans hy
    rw [hxy.2 hxm]
    exact hx hxm
  constructor
  case cluster => exact fun p hp hm => hsame (hs.cluster p hp) (h.cluster p hp) hm
  case resNode =>
    intro r hm
    cases hr : (res.node r).isParent with
    | false => exact hsame (hs.resNode r) (h.resNode r hr) hm
    | true =>
      obtain hold | ⟨hlost, -⟩ := h.resCluster r hr
      · exact hsame (hs.resNode r) hold hm
      · rw [hlost] at hm
        cases hm
  case resLink => exact fun m hm => hsame (hs.resLink m) (h.resLink m) hm

end

/-! ### The search at one level -/

/-- What a call of `find_mapping` does to the marks. -/
def FindMarks (t res : Topology) (comp : ℕ → ℕ → Prop) (level : ℕ)
    (find : Search → ℕ → ℕ → Option (Bool × Search)) : Prop :=
  ∀ s a r ok s', comp level a → r < res.nodes.length → (res.node r).isParent = false → TypeFits t res a r →
    find s a r = some (ok, s') → AtLevel t res comp level s s'

namespace Search

variable {t res : Topology} {level : ℕ} {s : Search} {a r p q : ℕ}

/-- A cluster of the user stays as it is, or is marked with its first node. -/
theorem place_nodes_cluster (hne : p ≠ a) : (s.place t res level a r).nodes p = s.nodes p ∨
    (t.node a).parent = some p ∧ (s.nodes p).marked = false ∧
      ((s.place t res level a r).nodes p).mark = ⟨true, level⟩ := by
  by_cases hp : (t.node a).parent = some p
  · cases hq : (res.node r).parent with
    | none =>
      refine .inl ?_
      unfold place
      rw [hp, hq]
      exact Function.update_of_ne hne ..
    | some q =>
      rw [place_nodes_parent hp hq hne]
      cases hm : (s.nodes p).marked with
      | false => exact .inr ⟨hp, rfl, rfl⟩
      | true => exact .inl rfl
  · exact .inl (place_nodes_of_ne hne hp)

/-- A reserved cluster gets a mark only from a cluster of the user without one. -/
theorem place_resNodes_cluster (hself : ∀ p, (t.node a).parent = some p → p ≠ a) (hne : q ≠ r) :
    (s.place t res level a r).resNodes q = s.resNodes q ∨ (res.node r).parent = some q ∧
      (s.place t res level a r).resNodes q = ⟨true, level⟩ ∧
        ∃ p, (t.node a).parent = some p ∧ (s.nodes p).marked = false := by
  by_cases hq : (res.node r).parent = some q
  · cases hp : (t.node a).parent with
    | none =>
      refine .inl ?_
      unfold place
      rw [hp]
      exact Function.update_of_ne hne ..
    | some p =>
      have hnode : (s.assign res level a r).nodes p = s.nodes p := Function.update_of_ne (hself p hp) ..
      unfold place adopt
      rw [hp, hq]
      dsimp only
      rw [hnode]
      cases hm : (s.nodes p).marked with
      | false => exact .inr ⟨rfl, Function.update_self .., p, rfl, hm⟩
      | true => exact .inl (Function.update_of_ne hne ..)
  · rw [place_resNodes hq, if_neg hne]
    exact .inl rfl

end Search

namespace Setting

variable {t res : Topology} {comp : ℕ → ℕ → Prop} (hset : Setting t res comp) (hres : res.Plain) {level : ℕ}
  {s s' : Search}
include hset hres

omit hres in
theorem place_atLevel {a r : ℕ} (ha : comp level a) (hr : r < res.nodes.length) (hleaf : (res.node r).isParent = false)
    (hfit : TypeFits t res a r) (hrm : (s.resNodes r).marked = false) :
    AtLevel t res comp level s (s.place t res level a r) ∧ Placed res level (s.place t res level a r) r := by
  have hparent : ∀ r', (res.node r').isParent = false → (res.node r).parent ≠ some r' := by
    intro r' hr' hp
    rw [(hset.reserved.parent r hr r' hp).2] at hr'
    cases hr'
  have hplaced : Placed res level (s.place t res level a r) r := by
    refine ⟨hr, hleaf, ?_⟩
    rw [Search.place_resNodes (hparent r hleaf), if_pos rfl]
  refine ⟨?_, hplaced⟩
  constructor
  case node =>
    intro b hb hc
    have hba : b ≠ a := by
      rintro rfl
      exact hc ha
    rw [Search.place_nodes_of_ne hba fun h => hset.parent_ne ha hb h rfl]
  case cluster =>
    intro p hp
    have hne : p ≠ a := by
      rintro rfl
      rw [(hset.parts.leaf level p ha).2] at hp
      cases hp
    obtain heq | ⟨hap, hfree, hnew⟩ := Search.place_nodes_cluster (t := t) (s := s) (r := r) hne
    · rw [heq]
      exact .inl (.refl _)
    · exact .inr ⟨hfree, hnew, a, ha, hap⟩
  case link => exact fun l _ => by rw [Search.place_links]
  case resNode =>
    intro r' hr'
    rw [Search.place_resNodes (hparent r' hr')]
    by_cases heq : r' = r
    · rw [heq]
      exact .inr ⟨hrm, hplaced⟩
    · rw [if_neg heq]
      exact .inl (.refl _)
  case resLink => exact fun m => by rw [Search.place_resLinks]; exact .inl (.refl _)
  case resCluster =>
    intro q hq
    have hne : q ≠ r := by
      rintro rfl
      rw [hleaf] at hq
      cases hq
    obtain heq | ⟨hrq, hnew, p, hap, hfree⟩ := Search.place_resNodes_cluster (t := t) (s := s) (a := a)
      (fun p hp hpa => hset.parent_ne ha (hset.parts.leaf level a ha).2 hp hpa.symm) hne
    · rw [heq]
      exact .inl (.refl _)
    · refine .inr (.inr ⟨?_, hnew, r, hplaced, hrq⟩)
      by_cases hq : (s.resNodes q).marked = false
      · exact .inl hq
      · exact .inr ⟨a, (hset.parts.leaf level a ha).1, p, hap, hfree, r, hr, hrq, hrm, hfit⟩

omit hres in
theorem join_atLevel {l a r m : ℕ} {side : Bool} (ha : comp level a) (hl : t.Inc l a) (hr : Placed res level s r)
    (hp : Picked t res s.resLinks l a r m side) : AtLevel t res comp level s (s.join t res level l a m side) := by
  constructor
  case node => exact fun _ _ _ => rfl
  case cluster => exact fun _ _ => .inl (.refl _)
  case link =>
    intro l' hl'
    have hne : l' ≠ l := by
      rintro rfl
      exact hl' a ha hl
    rw [Search.join_links_of_ne hne]
  case resNode => exact fun _ _ => .inl (.refl _)
  case resLink =>
    intro m'
    rw [Search.join_resLinks]
    by_cases heq : m' = m
    · rw [heq, if_pos rfl]
      exact .inr ⟨hp.free, rfl, r, ⟨hr.1, hr.2.1, hr.2.2⟩, (hset.reserved.mem_links r hr.1 m).mpr hp.inc⟩
    · rw [if_neg heq]
      exact .inl (.refl _)
  case resCluster => exact fun _ _ => .inl (.refl _)

theorem mapLinks_atLevel {find : Search → ℕ → ℕ → Option (Bool × Search)} (hfind : FindMarks t res comp level find)
    {a r : ℕ} {ls : List ℕ} {ok : Bool} (ha : comp level a) (hls : ∀ l ∈ ls, t.Inc l a) (hr : Placed res level s r)
    (h : mapLinks t res level find a r ls s = some (ok, s')) : AtLevel t res comp level s s' := by
  induction ls generalizing s with
  | nil =>
    cases h
    exact Restored.refl.atLevel
  | cons l ls ih =>
    have hl := hls l List.mem_cons_self
    have hls' : ∀ l ∈ ls, t.Inc l a := fun l h => hls l (List.mem_cons_of_mem _ h)
    unfold mapLinks at h
    split at h
    · exact ih hls' hr h
    split at h
    · cases h
      exact Restored.refl.atLevel
    · next m side hpick =>
      have hp : Picked t res s.resLinks l a r m side :=
        pickLink_spec hset.reserved (fun m hm => (hset.reserved.mem_links r hr.1 m).mp hm) hpick
      have hjoin := hset.join_atLevel ha hl hr hp
      have hrother := Topology.inc_side hp.inc (!side)
      have hcb := (hset.parts.conn level a _ ha).mpr (Reach.link hl (Topology.inc_side hl (!t.thisSide l a)))
      obtain ⟨⟨found, s₁⟩, hcall, h⟩ := Option.bind_eq_some_iff.mp h
      have hcalled := hjoin.trans (hfind _ _ _ _ _ hcb (hset.reserved.ends m _ hrother) (hres.leaf m _ hrother) hp.fits
        hcall) hset.user hres
      cases found with
      | false =>
        cases h
        exact hcalled
      | true => exact hcalled.trans (ih hls' (hr.keep hcalled) h) hset.user hres

theorem findMapping_atLevel (fuel : ℕ) : FindMarks t res comp level (findMapping t res level fuel) := by
  induction fuel with
  | zero =>
    intro s a r ok s' _ _ _ _ h
    cases h
  | succ fuel ih =>
    intro s a r ok s' ha hr hleaf hfit h
    unfold findMapping at h
    split at h
    · cases h
      exact Restored.refl.atLevel
    split at h
    · cases h
      exact Restored.refl.atLevel
    next hrm =>
    split at h
    · cases h
    · cases h
      exact Restored.refl.atLevel
    · obtain ⟨hplace, hplaced⟩ := hset.place_atLevel ha hr hleaf hfit (Bool.eq_false_of_not_eq_true hrm)
      have hlinks : ∀ l ∈ (t.node a).links, t.Inc l a := fun l =>
        (hset.user.mem_links a (hset.parts.leaf level a ha).1 l).mp
      exact hplace.trans (hset.mapLinks_atLevel hres ih ha hlinks hplaced h) hset.user hres

end Setting

/-! ### The clean-up -/

namespace Search

variable {res : Topology} {level : ℕ}

/-- What the clean-up of the reserved nodes `rs` takes away. -/
structure ClearedReserved (res : Topology) (level : ℕ) (rs : List ℕ) (s s' : Search) : Prop where
  node : ∀ r, s'.resNodes r = s.resNodes r ∨ (s'.resNodes r).marked = false
  link : ∀ m, s'.resLinks m = s.resLinks m ∨ (s'.resLinks m).marked = false
  cleared : ∀ r ∈ rs, Placed res level s r → (s'.resNodes r).marked = false
  clearedLink : ∀ r ∈ rs, Placed res level s r → ∀ m ∈ (res.node r).links, s'.resLinks m ≠ ⟨true, level⟩
  clearedCluster : ∀ r ∈ rs, Placed res level s r → ∀ q, (res.node r).parent = some q → s'.resNodes q ≠ ⟨true, level⟩

theorem clearMarks_or (ms : List ℕ) (marks : ℕ → Mark) (m : ℕ) :
    let marks' := ms.foldl (fun marks m => if (marks m).marked ∧ (marks m).level = level then
      Function.update marks m {} else marks) marks
    (marks' m = marks m ∨ (marks' m).marked = false) ∧ (m ∈ ms → marks' m ≠ ⟨true, level⟩) := by
  induction ms generalizing marks with
  | nil => exact ⟨.inl rfl, fun h => absurd h List.not_mem_nil⟩
  | cons x ms ih =>
    obtain ⟨h₁, h₂⟩ := ih (if (marks x).marked ∧ (marks x).level = level then Function.update marks x {} else marks)
    have hstep : (if (marks x).marked ∧ (marks x).level = level then Function.update marks x {} else marks) m =
        if m = x ∧ (marks x).marked ∧ (marks x).level = level then {} else marks m := by
      split
      · next hx =>
        by_cases hmx : m = x
        · rw [hmx, Function.update_self, if_pos ⟨rfl, hx⟩]
        · rw [Function.update_of_ne hmx, if_neg fun h => hmx h.1]
      · next hx => rw [if_neg fun h => hx h.2]
    rw [hstep] at h₁
    rw [List.foldl_cons]
    refine ⟨?_, fun hm => ?_⟩
    · obtain h₁ | h₁ := h₁
      · rw [h₁]
        split
        · exact .inr rfl
        · exact .inl rfl
      · exact .inr h₁
    · obtain rfl | hm := List.mem_cons.mp hm
      · intro hbad
        obtain h₁ | h₁ := h₁
        · rw [hbad] at h₁
          split at h₁
          · cases h₁
          · next hx =>
            rw [← h₁] at hx
            exact hx ⟨rfl, rfl, rfl⟩
        · rw [hbad] at h₁
          cases h₁
      · exact h₂ hm

theorem clearReserved_resNodes (s : Search) (r r' : ℕ) : (s.clearReserved res level r).resNodes r' =
    if ((s.resNodes r).marked ∧ (s.resNodes r).level = level) ∧ (r' = r ∨ (res.node r).parent = some r' ∧
      (s.resNodes r').marked ∧ (s.resNodes r').level = level) then {} else s.resNodes r' := by
  unfold clearReserved
  by_cases hit : (s.resNodes r).marked ∧ (s.resNodes r).level = level
  · rw [if_pos hit]
    by_cases heq : r' = r
    · rw [if_pos ⟨hit, .inl heq⟩, heq]
      cases (res.node r).parent with
      | none => exact Function.update_self ..
      | some q =>
        dsimp only
        split
        · rw [Function.update_apply, Function.update_self, ite_self]
        · rw [Function.update_self]
    · cases (res.node r).parent with
      | none =>
        rw [if_neg fun h => h.2.elim heq fun h => by cases h.1]
        exact Function.update_of_ne heq ..
      | some q =>
        dsimp only
        by_cases hq : r' = q
        · subst hq
          rw [Function.update_of_ne heq]
          by_cases hit' : (s.resNodes r').marked ∧ (s.resNodes r').level = level
          · rw [if_pos hit', Function.update_self, if_pos ⟨hit, .inr ⟨rfl, hit'⟩⟩]
          · rw [if_neg hit', Function.update_of_ne heq, if_neg fun h => h.2.elim heq fun h => hit' h.2]
        · have hno : ¬(((s.resNodes r).marked ∧ (s.resNodes r).level = level) ∧ (r' = r ∨ some q = some r' ∧
              (s.resNodes r').marked ∧ (s.resNodes r').level = level)) := by
            rintro ⟨-, h | h⟩
            · exact heq h
            · exact hq (Option.some.inj h.1).symm
          rw [if_neg hno]
          split
          · rw [Function.update_of_ne hq, Function.update_of_ne heq]
          · rw [Function.update_of_ne heq]
  · rw [if_neg hit, if_neg fun h => hit h.1]

/-- One reserved node of the level, with its cluster and its links. -/
theorem clearReserved_placed {s : Search} {r : ℕ} (hr : Placed res level s r) :
    ((s.clearReserved res level r).resNodes r).marked = false ∧
      (∀ m ∈ (res.node r).links, (s.clearReserved res level r).resLinks m ≠ ⟨true, level⟩) ∧
      ∀ q, (res.node r).parent = some q → (s.clearReserved res level r).resNodes q ≠ ⟨true, level⟩ := by
  have hhit : (s.resNodes r).marked ∧ (s.resNodes r).level = level := by
    rw [hr.2.2]
    exact ⟨rfl, rfl⟩
  refine ⟨?_, fun m hm => ?_, fun q hq => ?_⟩
  · rw [clearReserved_resNodes, if_pos ⟨hhit, .inl rfl⟩]
  · unfold clearReserved
    rw [if_pos hhit]
    exact (clearMarks_or _ _ m).2 hm
  · rw [clearReserved_resNodes]
    split
    · exact fun h => by cases h
    · next hno =>
      intro hbad
      refine hno ⟨hhit, .inr ⟨hq, ?_⟩⟩
      rw [hbad]
      exact ⟨rfl, rfl⟩

theorem clearReserved_or (s : Search) (r r' : ℕ) :
    (s.clearReserved res level r).resNodes r' = s.resNodes r' ∨
      ((s.clearReserved res level r).resNodes r').marked = false := by
  rw [clearReserved_resNodes]
  split
  · exact .inr rfl
  · exact .inl rfl

theorem clearReserved_link_or (s : Search) (r m : ℕ) :
    (s.clearReserved res level r).resLinks m = s.resLinks m ∨
      ((s.clearReserved res level r).resLinks m).marked = false := by
  unfold clearReserved
  split
  · exact (clearMarks_or _ _ m).1
  · exact .inl rfl

/-- A reserved node keeps the mark until its own turn. -/
theorem placed_clearReserved (hres : res.Wf) {s : Search} {r r' : ℕ} (hr : r < res.nodes.length) (hne : r' ≠ r)
    (hr' : Placed res level s r') : Placed res level (s.clearReserved res level r) r' := by
  refine ⟨hr'.1, hr'.2.1, ?_⟩
  rw [clearReserved_resNodes, if_neg, hr'.2.2]
  rintro ⟨-, h | ⟨h, -⟩⟩
  · exact hne h
  · have hleaf := hr'.2.1
    rw [(hres.parent r hr _ h).2] at hleaf
    cases hleaf

theorem clearedReserved_foldl (hres : res.Wf) {rs : List ℕ} (hrs : ∀ r ∈ rs, r < res.nodes.length) (s : Search) :
    ClearedReserved res level rs s (rs.foldl (clearReserved res level) s) := by
  induction rs generalizing s with
  | nil => exact ⟨fun _ => .inl rfl, fun _ => .inl rfl, nofun, nofun, nofun⟩
  | cons r rs ih =>
    have h := ih (fun r hr => hrs r (List.mem_cons_of_mem _ hr)) (s.clearReserved res level r)
    have hr := hrs r List.mem_cons_self
    -- what is not marked stays so
    have hlater : ∀ {x y : Mark}, x.marked = false ∨ x ≠ ⟨true, level⟩ → y = x ∨ y.marked = false →
        y ≠ ⟨true, level⟩ := by
      rintro x y hx hy rfl
      obtain rfl | hy := hy
      · exact hx.elim (fun h => by cases h) fun h => h rfl
      · cases hy
    rw [List.foldl_cons]
    constructor
    case node =>
      intro r'
      obtain heq | hfree := h.node r'
      · rw [heq]
        exact clearReserved_or s r r'
      · exact .inr hfree
    case link =>
      intro m
      obtain heq | hfree := h.link m
      · rw [heq]
        exact clearReserved_link_or s r m
      · exact .inr hfree
    case cleared =>
      intro r' hr' hp
      by_cases heq : r' = r
      · subst heq
        obtain hsame | hfree := h.node r'
        · rw [hsame]
          exact (clearReserved_placed hp).1
        · exact hfree
      · exact h.cleared r' ((List.mem_cons.mp hr').resolve_left heq) (placed_clearReserved hres hr heq hp)
    case clearedLink =>
      intro r' hr' hp m hm
      by_cases heq : r' = r
      · subst heq
        exact hlater (.inr ((clearReserved_placed hp).2.1 m hm)) (h.link m)
      · exact h.clearedLink r' ((List.mem_cons.mp hr').resolve_left heq) (placed_clearReserved hres hr heq hp) m hm
    case clearedCluster =>
      intro r' hr' hp q hq
      by_cases heq : r' = r
      · subst heq
        exact hlater (.inr ((clearReserved_placed hp).2.2 q hq)) (h.node q)
      · exact h.clearedCluster r' ((List.mem_cons.mp hr').resolve_left heq) (placed_clearReserved hres hr heq hp) q hq

end Search

/-- The nodes of the list are those outside clusters. -/
def Complete (res : Topology) (rl : List AssignInfo) : Prop :=
  ∀ r, r ∈ rl.flatMap (·.testbedNodes) ↔ r < res.nodes.length ∧ (res.node r).isParent = false

namespace Setting

variable {t res : Topology} {comp : ℕ → ℕ → Prop} (hset : Setting t res comp) {k : ℕ} {s s' : Search}
include hset

/-- The clean-up takes the marks of the level away, and no others. -/
theorem cleanUp_restored {rl al : List AssignInfo} (hall : Complete res rl)
    (hal : ∀ a, Users al a ↔ comp (k + 1) a) (hup : UpTo t res k s)
    (hfree : ∀ a, comp (k + 1) a → (s.nodes a).marked = false ∧ ∀ l, t.Inc l a → (s.links l).marked = false)
    (h : AtLevel t res comp (k + 1) s s') : Restored t res s (s'.cleanUp t res (k + 1) rl al) := by
  have husers : ∀ a, a ∈ al.flatMap (·.userNodes) ↔ comp (k + 1) a := by
    intro a
    rw [← hal a, List.mem_flatMap]
    rfl
  have hleaf : ∀ a ∈ al.flatMap (·.userNodes), (t.node a).isParent = false ∧
      ∀ p, (t.node a).parent = some p → (t.node p).isParent = true := by
    intro a ha
    have hca := (husers a).mp ha
    exact ⟨(hset.parts.leaf _ a hca).2, fun p hp => hset.parent_cluster hca hp⟩
  have hlt : ∀ r ∈ rl.flatMap (·.testbedNodes), r < res.nodes.length := fun r hr => ((hall r).mp hr).1
  have honly : Search.OnlyLevel (k + 1) s'
      ((rl.flatMap (·.testbedNodes)).foldl (Search.clearReserved res (k + 1)) s') := Search.onlyLevel_foldl _ s'
  have hres : Search.ClearedReserved res (k + 1) _ s' _ := Search.clearedReserved_foldl hset.reserved hlt s'
  have hu : Search.ClearedUsers t (k + 1) _ _ _ := Search.clearedUsers_foldl hleaf
    ((rl.flatMap (·.testbedNodes)).foldl (Search.clearReserved res (k + 1)) s')
  have hresNodes : (s'.cleanUp t res (k + 1) rl al).resNodes =
      ((rl.flatMap (·.testbedNodes)).foldl (Search.clearReserved res (k + 1)) s').resNodes := hu.resNodes
  have hresLinks : (s'.cleanUp t res (k + 1) rl al).resLinks =
      ((rl.flatMap (·.testbedNodes)).foldl (Search.clearReserved res (k + 1)) s').resLinks := hu.resLinks
  -- the marks of the levels below stay, and those of the level go
  have hback : ∀ {x y z : Mark}, (x.marked = true → x.level ≤ k) → x.Same y →
      (y.level ≠ k + 1 → z = y) → z = y ∨ z.marked = false → x.Same z := by
    intro x y z hx hxy hkeep hz
    cases hm : x.marked with
    | false =>
      refine .of_unmarked hm ?_
      obtain rfl | hz := hz
      · exact hxy.1.trans hm
      · exact hz
    | true =>
      rw [hkeep (by rw [hxy.2 hm]; exact Nat.ne_of_lt (Nat.lt_succ_of_le (hx hm)))]
      exact hxy
  have hgone : ∀ {y z : Mark}, y = ⟨true, k + 1⟩ → z = y ∨ z.marked = false → z ≠ ⟨true, k + 1⟩ → z.marked = false :=
    fun hy hz hne => hz.resolve_left fun heq => hne (heq.trans hy)
  constructor
  case node =>
    intro a ha
    by_cases hc : comp (k + 1) a
    · rw [(hfree a hc).1]
      exact hu.unmarked a ((husers a).mpr hc) ha
    · refine Eq.trans (congrArg UserNode.marked ?_) (h.node a ha hc)
      rw [← honly.nodes]
      exact hu.other a (fun hmem => hc ((husers a).mp hmem)) ha
  case cluster =>
    intro p hp
    have hkeep : (s'.nodes p).mark.level ≠ k + 1 →
        ((s'.cleanUp t res (k + 1) rl al).nodes p).mark = (s'.nodes p).mark := by
      intro hlevel
      rw [← honly.nodes] at hlevel ⊢
      exact congrArg UserNode.mark (hu.clusterKept p hp hlevel)
    have hor : ((s'.cleanUp t res (k + 1) rl al).nodes p).mark = (s'.nodes p).mark ∨
        ((s'.cleanUp t res (k + 1) rl al).nodes p).mark.marked = false := by
      cases hm : ((s'.cleanUp t res (k + 1) rl al).nodes p).mark.marked with
      | false => exact .inr rfl
      | true =>
        rw [← honly.nodes]
        exact .inl (congrArg UserNode.mark (hu.cluster p hp hm).1)
    obtain hsame | ⟨hfree, hnew, a, ha, hap⟩ := h.cluster p hp
    · exact hback (hup.cluster p hp) hsame hkeep hor
    · refine .of_unmarked hfree (hgone hnew hor fun hbad => ?_)
      obtain ⟨-, hno⟩ := hu.cluster p hp (congrArg Mark.marked hbad)
      rw [honly.nodes] at hno
      exact hno (congrArg Mark.level hnew) a ((husers a).mpr ha) hap
  case link =>
    intro l
    by_cases hl : ∃ a, comp (k + 1) a ∧ t.Inc l a
    · obtain ⟨a, ha, hla⟩ := hl
      rw [(hfree a ha).2 l hla]
      exact hu.link l ⟨a, (husers a).mpr ha, (hset.user.mem_links a (hset.parts.leaf _ a ha).1 l).mpr hla⟩
    · refine Eq.trans (congrArg UserLink.marked ?_) (h.link l fun a ha hla => hl ⟨a, ha, hla⟩)
      rw [← honly.links]
      exact hu.linkOther l fun a ha hla => hl ⟨a, (husers a).mp ha,
        (hset.user.mem_links a (hset.parts.leaf _ a ((husers a).mp ha)).1 l).mp hla⟩
  case resNode =>
    intro r hr
    rw [hresNodes]
    obtain hsame | ⟨hfree, hnew⟩ := h.resNode r hr
    · exact hback (hup.resNode r) hsame (honly.resNodes r) (hres.node r)
    · exact .of_unmarked hfree (hres.cleared r ((hall r).mpr ⟨hnew.1, hr⟩) hnew)
  case resLink =>
    intro m
    rw [hresLinks]
    obtain hsame | ⟨hfree, hnew, r, hr, hm⟩ := h.resLink m
    · exact hback (hup.resLink m) hsame (honly.resLinks m) (hres.link m)
    · exact .of_unmarked hfree (hgone hnew (hres.link m) (hres.clearedLink r ((hall r).mpr ⟨hr.1, hr.2.1⟩) hr m hm))
  case resCluster =>
    intro q hq
    rw [hresNodes]
    obtain hsame | ⟨hlost, hshare⟩ | ⟨hfree, hnew, r, hr, hrq⟩ := h.resCluster q hq
    · exact .inl (hback (hup.resNode q) hsame (honly.resNodes q) (hres.node q))
    · refine .inr ⟨?_, hshare⟩
      obtain heq | hz := hres.node q
      · rw [heq, hlost]
      · exact hz
    · have hz := hgone hnew (hres.node q) (hres.clearedCluster r ((hall r).mpr ⟨hr.1, hr.2.1⟩) hr q hrq)
      exact hfree.imp (fun hfree => .of_unmarked hfree hz) fun hshare => ⟨hz, hshare⟩

end Setting

/-! ### The calls of `subset_assign` -/

/-- The rule for the loop, for the states in which it tries a node. -/
theorem tried_rule {P M : Search → Prop} {find : Search → ℕ → Option (Bool × Search)}
    {next : Search → Option (Bool × Search)} {clean : Search → Search} {rs : List ℕ} {s : Search} {r' : ℕ} {s' : Search}
    (h : TriedNode find next clean rs s r' s')
    (hfind : ∀ r ∈ rs, ∀ s ok s', P s → find s r = some (ok, s') → M s')
    (hnext : ∀ s s', M s → next s = some (false, s') → M s') (hclean : ∀ s, M s → P (clean s)) (hs : P s) :
    P s' ∧ r' ∈ rs := by
  induction h with
  | here _ => exact ⟨hs, List.mem_cons_self⟩
  | skip _ _ ih =>
    obtain ⟨hP, hmem⟩ := ih (fun r hr => hfind r (List.mem_cons_of_mem _ hr)) hs
    exact ⟨hP, List.mem_cons_of_mem _ hmem⟩
  | fail _ hcall _ ih =>
    obtain ⟨hP, hmem⟩ := ih (fun r hr => hfind r (List.mem_cons_of_mem _ hr))
      (hclean _ (hfind _ List.mem_cons_self _ _ _ hs hcall))
    exact ⟨hP, List.mem_cons_of_mem _ hmem⟩
  | back _ hcall hafter _ ih =>
    obtain ⟨hP, hmem⟩ := ih (fun r hr => hfind r (List.mem_cons_of_mem _ hr))
      (hclean _ (hnext _ _ (hfind _ List.mem_cons_self _ _ _ hs hcall) hafter))
    exact ⟨hP, List.mem_cons_of_mem _ hmem⟩

/-- What is true before a try. -/
structure Between (t res : Topology) (comp : ℕ → ℕ → Prop) (k : ℕ) (s s' : Search) : Prop where
  kept : Kept t res comp k s s'
  restored : Restored t res s s'

/-- What is true during a try. -/
structure Within (t res : Topology) (comp : ℕ → ℕ → Prop) (k : ℕ) (s s' : Search) : Prop where
  kept : Kept t res comp (k + 1) s s'
  marks : AtLevel t res comp (k + 1) s s'

/-- The two topologies, and the list of the reserved nodes. -/
structure Fitting (t res : Topology) (comp : ℕ → ℕ → Prop) (rl : List AssignInfo) : Prop extends Setting t res comp where
  reservedPlain : res.Plain
  typed : Reserved res rl
  complete : Complete res rl

/-- The lists from a level on are those of the parts. -/
def ListsFrom (t : Topology) (comp : ℕ → ℕ → Prop) (k : ℕ) (lists : List (List AssignInfo)) : Prop :=
  ∀ i al, lists[i]? = some al → Typed t al ∧ ∀ a, Users al a ↔ comp (k + 1 + i) a

theorem ListsFrom.tail {t : Topology} {comp : ℕ → ℕ → Prop} {k : ℕ} {al : List AssignInfo}
    {rest : List (List AssignInfo)} (h : ListsFrom t comp k (al :: rest)) : ListsFrom t comp (k + 1) rest := by
  intro i al hi
  obtain ⟨htyped, husers⟩ := h (i + 1) al hi
  rw [show k + 1 + (i + 1) = k + 1 + 1 + i by omega] at husers
  exact ⟨htyped, husers⟩

namespace Fitting

variable {t res : Topology} {comp : ℕ → ℕ → Prop} {rl : List AssignInfo} (hfit : Fitting t res comp rl) {k fuel : ℕ}
  {s s₁ s₂ : Search} {ai ri : AssignInfo} {al : List AssignInfo} {rest : List (List AssignInfo)} {a r : ℕ} {as : List ℕ}
  {ok : Bool}
include hfit

theorem within_findMapping (hlists : ListsFrom t comp k ((ai :: al) :: rest)) (hnodes : ai.userNodes = a :: as)
    (hri : rl.find? (fun ri => ai.type = ri.type) = some ri) (hr : r ∈ ri.testbedNodes)
    (hs : Between t res comp k s s₁) (h : findMapping t res (k + 1) fuel s₁ a r = some (ok, s₂)) :
    Within t res comp k s s₂ := by
  obtain ⟨htyped, husers⟩ := hlists 0 _ rfl
  obtain ⟨-, htype⟩ := htyped ai List.mem_cons_self
  have hmem : a ∈ ai.userNodes := by
    rw [hnodes]
    exact List.mem_cons_self
  have ha : comp (k + 1) a := (husers a).mp ⟨ai, List.mem_cons_self, hmem⟩
  have hrimem := List.mem_of_find?_eq_some hri
  obtain ⟨hlt, hhost⟩ := hfit.typed ri hrimem r hr
  have hleaf := ((hfit.complete r).mp (List.mem_flatMap.mpr ⟨ri, hrimem, hr⟩)).2
  have htypes : ai.type = ri.type := by
    have hfound := List.find?_some hri
    exact of_decide_eq_true hfound
  have hfits : TypeFits t res a r := by
    rw [TypeFits, htype a hmem, htypes]
    exact hhost.imp Eq.symm id
  have hkept := (hfit.toSetting.findMapping_spec fuel s₁ a r ok s₂ (hs.kept.inv.mono (Nat.le_succ k)) ha hlt hfits h).1
  exact ⟨⟨hkept.inv, fun e he => hkept.log e (hs.kept.log e he)⟩, hs.restored.atLevel.trans
    (hfit.toSetting.findMapping_atLevel hfit.reservedPlain fuel s₁ a r ok s₂ ha hlt hleaf hfits h) hfit.user
    hfit.reservedPlain⟩

theorem between_cleanUp (hlists : ListsFrom t comp k (al :: rest)) (hinv : Inv t res comp k s) (hup : UpTo t res k s)
    (hs : Within t res comp k s s₁) : Between t res comp k s (s₁.cleanUp t res (k + 1) rl al) := by
  have husers := (hlists 0 _ rfl).2
  obtain ⟨hinv₁, hlog₁⟩ := hfit.toSetting.inv_cleanUp rl hs.kept.inv husers
  exact ⟨⟨hinv₁, fun e he => hlog₁ e (hs.kept.log e he) (hinv.bound e he)⟩,
    hfit.toSetting.cleanUp_restored hfit.complete husers hup
      (fun a ha => hfit.toSetting.unmarked_of_bound hinv ha) hs.marks⟩

theorem within_subsetAssign (hlists : ListsFrom t comp k (al :: rest)) (hs : Within t res comp k s s₁)
    (hrestored : Restored t res s₁ s₂) (h : subsetAssign t res fuel rl rest (k + 1 + 1) s₁ = some (false, s₂)) :
    Within t res comp k s s₂ :=
  ⟨hs.kept.trans ((hfit.toSetting.subsetAssign_spec hfit.typed hlists.tail hs.kept.inv h).1 rfl),
    hs.marks.trans hrestored.atLevel hfit.user hfit.reservedPlain⟩

/-- A call that returns false gives the marks back. -/
theorem subsetAssign_restored {lists : List (List AssignInfo)} (hlists : ListsFrom t comp k lists)
    (hinv : Inv t res comp k s) (hup : UpTo t res k s) (h : subsetAssign t res fuel rl lists (k + 1) s = some (false, s₂)) :
    Restored t res s s₂ := by
  induction lists generalizing k s s₂ with
  | nil => cases h
  | cons al rest ih =>
    cases al with
    | nil => cases h
    | cons ai al =>
      unfold subsetAssign at h
      split at h
      · cases h
        exact .refl
      · cases h
      · next a as ri hnodes hri =>
        refine ((tryNodes_rule (F := Within t res comp k s) (Q := fun _ => True) (fun r hr s₁ ok s₂ hs hcall => ?_) (fun s₁ ok s₂ hs hcall => ?_)
          (fun s₁ hs => hfit.between_cleanUp hlists hinv hup hs) ⟨⟨hinv, fun _ he => he⟩, .refl⟩ h).1 rfl).restored
        · exact ⟨hfit.within_findMapping hlists hnodes hri hr hs hcall,
            fun _ => hfit.within_findMapping hlists hnodes hri hr hs hcall⟩
        · refine ⟨?_, fun _ => trivial⟩
          rintro rfl
          exact hfit.within_subsetAssign hlists hs (ih hlists.tail hs.kept.inv (hs.marks.upTo hup) hcall) hcall

theorem between_tried (hlists : ListsFrom t comp k ((ai :: al) :: rest)) (hinv : Inv t res comp k s)
    (hup : UpTo t res k s) (h : SubsetTries t res fuel rl ai al rest (k + 1) s a r s₁) :
    Between t res comp k s s₁ ∧ ∃ as ri, ai.userNodes = a :: as ∧
      rl.find? (fun ri => ai.type = ri.type) = some ri ∧ r ∈ ri.testbedNodes := by
  obtain ⟨as, ri, hnodes, hri, htried⟩ := h
  obtain ⟨hs, hr⟩ := tried_rule (P := Between t res comp k s) (M := Within t res comp k s) htried
    (fun r hr s₁ ok s₂ hs hcall => hfit.within_findMapping hlists hnodes hri hr hs hcall)
    (fun s₁ s₂ hs hcall => hfit.within_subsetAssign hlists hs
      (hfit.subsetAssign_restored hlists.tail hs.kept.inv (hs.marks.upTo hup) hcall) hcall)
    (fun s₁ hs => hfit.between_cleanUp hlists hinv hup hs) ⟨⟨hinv, fun _ he => he⟩, .refl⟩
  exact ⟨hs, as, ri, hnodes, hri, hr⟩

end Fitting

theorem upTo_start (t res : Topology) (k : ℕ) : UpTo t res k (Search.start t) :=
  ⟨fun _ _ => nofun, fun _ => nofun, fun _ => nofun⟩

/-- In every call, the marks are of the levels before. -/
theorem SubsetCall.upTo {t res : Topology} {comp : ℕ → ℕ → Prop} {rl : List AssignInfo} {fuel level : ℕ} {s : Search}
    {lists lists' : List (List AssignInfo)} (hfit : Fitting t res comp rl) (hlists : ListsFrom t comp 0 lists)
    (h : SubsetCall t res fuel rl lists lists' level s) :
    ∃ k, level = k + 1 ∧ ListsFrom t comp k lists' ∧ Inv t res comp k s ∧ UpTo t res k s := by
  induction h with
  | first => exact ⟨0, rfl, hlists, inv_start, upTo_start t res 0⟩
  | next _ htries hfound ih =>
    obtain ⟨k, rfl, hlists, hinv, hup⟩ := ih
    obtain ⟨hs, as, ri, hnodes, hri, hr⟩ := hfit.between_tried hlists hinv hup htries
    have hwithin := hfit.within_findMapping hlists hnodes hri hr hs hfound
    exact ⟨k + 1, rfl, hlists.tail, hwithin.kept.inv, hwithin.marks.upTo hup⟩

/-! ### A run of `fill_in_topology` -/

theorem mem_addTestbedNode (n : NodeResource) (r x : ℕ) (l : List AssignInfo) :
    x ∈ (addTestbedNode n r l).flatMap (·.testbedNodes) ↔ x = r ∨ x ∈ l.flatMap (·.testbedNodes) := by
  induction l with
  | nil => simp [addTestbedNode]
  | cons ai l ih =>
    unfold addTestbedNode
    split
    · simp only [List.flatMap_cons, List.mem_append, List.mem_singleton]
      tauto
    · simp only [List.flatMap_cons, List.mem_append, ih]
      tauto

theorem mem_reservedList (res : Topology) (rs : List ℕ) (l : List AssignInfo) (x : ℕ) :
    x ∈ (reservedList res rs l).flatMap (·.testbedNodes) ↔
      x ∈ l.flatMap (·.testbedNodes) ∨ x ∈ rs ∧ (res.node x).isParent = false := by
  induction rs generalizing l with
  | nil => simp [reservedList]
  | cons r rs ih =>
    unfold reservedList
    split
    · next hpar =>
      rw [ih, List.mem_cons]
      refine or_congr_right ⟨fun h => ⟨.inr h.1, h.2⟩, fun h => ⟨h.1.resolve_left ?_, h.2⟩⟩
      rintro rfl
      rw [hpar] at h
      exact absurd h.2 Bool.noConfusion
    · next hleaf =>
      rw [ih, mem_addTestbedNode, List.mem_cons]
      have hleaf := Bool.eq_false_of_not_eq_true hleaf
      constructor
      · rintro ((rfl | h) | h)
        · exact .inr ⟨.inl rfl, hleaf⟩
        · exact .inl h
        · exact .inr ⟨.inr h.1, h.2⟩
      · rintro (h | ⟨rfl | h, hx⟩)
        · exact .inl (.inr h)
        · exact .inl (.inl rfl)
        · exact .inr ⟨h, hx⟩

theorem complete_reservedList (res : Topology) : Complete res (reservedList res (List.range res.nodes.length) []) := by
  intro r
  rw [mem_reservedList, List.mem_range]
  exact or_iff_right List.not_mem_nil

theorem Restored.sameMarks {t res : Topology} {s s' : Search} (h : Restored t res s s') : SameMarks t res s s' := by
  constructor
  case node =>
    intro a
    cases ha : (t.node a).isParent with
    | false => exact h.node a ha
    | true => exact (h.cluster a ha).1
  case link => exact h.link
  case resLink => exact fun m => (h.resLink m).1
  case resNode =>
    intro r hshare
    cases hr : (res.node r).isParent with
    | false => exact (h.resNode r hr).1
    | true => exact ((h.resCluster r hr).resolve_right fun hlost => hshare hlost.2).1
  case unmarked =>
    intro r hfree
    cases hr : (res.node r).isParent with
    | false => exact (h.resNode r hr).1.trans hfree
    | true => exact (h.resCluster r hr).elim (fun hsame => hsame.1.trans hfree) fun hlost => hlost.1

/-- A call of `subset_assign` that returns false leaves the marks as they were, and so it does before it tries a
node. -/
theorem subsetAssign_sameMarks {t res : Topology} {fuel level : ℕ} {lists lists' : List (List AssignInfo)} {s : Search}
    (ht : t.Wf) (hp : t.Plain) (hres : res.Wf) (hrp : res.Plain)
    (hlists : assignLists t fuel (List.range t.nodes.length) ⟨fun _ => false, fun _ => false, []⟩ = some lists)
    (hcall : SubsetCall t res fuel (reservedList res (List.range res.nodes.length) []) lists lists' level s) :
    (∀ s', subsetAssign t res fuel (reservedList res (List.range res.nodes.length) []) lists' level s =
        some (false, s') → SameMarks t res s s') ∧
      ∀ ai al rest a r s', lists' = (ai :: al) :: rest →
        SubsetTries t res fuel (reservedList res (List.range res.nodes.length) []) ai al rest level s a r s' →
          SameMarks t res s s' := by
  have hsub := subtopologies_assignLists ht hlists
  have hfit : Fitting t res (partAt lists) (reservedList res (List.range res.nodes.length) []) :=
    { user := ht, reserved := hres, plain := hp, parts := hsub.parts ht hp, reservedPlain := hrp
      typed := reserved_reservedList (by simp) (by simp [Reserved])
      complete := complete_reservedList res }
  have hfrom : ListsFrom t (partAt lists) 0 lists := by
    intro i al hal
    refine ⟨(hsub.root al (List.mem_of_getElem? hal)).1, fun a => ?_⟩
    rw [show 0 + 1 + i = i + 1 by omega]
    exact (partAt_iff hal a).symm
  obtain ⟨k, rfl, hfrom', hinv, hup⟩ := hcall.upTo hfit hfrom
  refine ⟨fun s' h => (hfit.subsetAssign_restored hfrom' hinv hup h).sameMarks, ?_⟩
  rintro ai al rest a r s' rfl htries
  exact (hfit.between_tried hfrom' hinv hup htries).1.restored.sameMarks

/-- What a call ends with, where it returns false. -/
theorem exists_of_failed {r : Option (Bool × Search)} {p : Search → Prop} [DecidablePred p]
    (h : (match r with | some (false, s) => decide (p s) | _ => false) = true) : ∃ s, r = some (false, s) ∧ p s := by
  split at h
  · next s => exact ⟨s, rfl, of_decide_eq_true h⟩
  · cases h

theorem assignLists_doublePair :
    assignLists doublePair 3 (List.range doublePair.nodes.length) ⟨fun _ => false, fun _ => false, []⟩ =
      some [[{ type := "pc", userNodes := [0, 1] }]] := by
  decide

/-- A user's pair with two links is not in a reserved pair with one. -/
theorem subsetAssign_doublePair : ∃ s',
    subsetAssign doublePair (onePair "pc1" "pc2") 3
      (reservedList (onePair "pc1" "pc2") (List.range (onePair "pc1" "pc2").nodes.length) [])
      [[{ type := "pc", userNodes := [0, 1] }]] 1 (Search.start doublePair) = some (false, s') ∧
    SameMarks doublePair (onePair "pc1" "pc2") (Search.start doublePair) s' := by
  obtain ⟨s', hs', -⟩ := exists_of_failed (p := fun _ => True) (r := subsetAssign doublePair (onePair "pc1" "pc2") 3
    (reservedList (onePair "pc1" "pc2") (List.range (onePair "pc1" "pc2").nodes.length) [])
    [[{ type := "pc", userNodes := [0, 1] }]] 1 (Search.start doublePair)) (by decide)
  exact ⟨s', hs', (subsetAssign_sameMarks doublePair_wf (Topology.plain_of_leaves doublePair_wf (by decide))
    (onePair_wf _ _) (Topology.plain_of_leaves (onePair_wf _ _) (by decide)) assignLists_doublePair .first).1 s' hs'⟩

/-- In the same run, `find_mapping` returns false and leaves the first node marked. -/
theorem findMapping_doublePair : ∃ s',
    SubsetTries doublePair (onePair "pc1" "pc2") 3
      (reservedList (onePair "pc1" "pc2") (List.range (onePair "pc1" "pc2").nodes.length) [])
      { type := "pc", userNodes := [0, 1] } [] [] 1 (Search.start doublePair) 0 0 (Search.start doublePair) ∧
    findMapping doublePair (onePair "pc1" "pc2") 1 3 (Search.start doublePair) 0 0 = some (false, s') ∧
    ((Search.start doublePair).nodes 0).marked = false ∧ (s'.nodes 0).marked = true := by
  obtain ⟨s', hs', hm⟩ := exists_of_failed (p := fun s => (s.nodes 0).marked = true)
    (r := findMapping doublePair (onePair "pc1" "pc2") 1 3 (Search.start doublePair) 0 0) (by decide)
  exact ⟨s', ⟨[1], { type := "pc", testbedNodes := [0, 1] }, rfl, by decide, .here rfl⟩, hs', rfl, hm⟩

end OnlDaemons.Onldb

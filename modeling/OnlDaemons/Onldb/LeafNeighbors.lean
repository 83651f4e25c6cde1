import Mathlib.Data.List.Sort
import OnlDaemons.Lib.Registry
import OnlDaemons.Lib.Tally
import OnlDaemons.Onldb.NeighborMapping
import OnlDaemons.Onldb.Subnet

/-!
# The leaf neighbours of a node

The neighbours of a node, or of the children of a cluster, are listed with the most expensive first and with the capacity
that leads to each. A neighbour that is the child of a cluster counts as the cluster. Neighbours that are mapped are
listed as well, and a link inside the cluster leads to the node itself or to its own cluster.

## Main definitions

- `Scheduling.addLeaf`, `Scheduling.getLneighbors` — the two loops of `get_lneighbors`
- `Scheduling.joining` — the links that join a node and a neighbour
- `Scheduling.Outside` — a neighbour that is not the node itself or its cluster

## Main result

- `Scheduling.getLneighbors_spec`
-/

namespace OnlDaemons.Onldb
open OnlDaemons.Lib

namespace Scheduling

variable {N L : Type} [DecidableEq N] (s : Scheduling N L)

/-- The cluster that a node stands for, or the node. -/
def clusterOf (x : N) : N := (s.node x).parent.getD x

/-- The nodes whose links are looked at. -/
def nodesToProcess (node : N) : List N := if (s.node node).isParent then (s.node node).nodeChildren else [node]

/-- One link of the node `p`. A new neighbour is put before the first one that does not cost more; it is not appended
if it is `p`. -/
def addLeaf (p : N) (lneighbors : List (NodeLoad N)) (l : L) : List (NodeLoad N) :=
  let neighbor := s.farEnd p l
  if s.vgige neighbor ∨ p = neighbor then lneighbors
  else
    let neighbor := s.clusterOf neighbor
    if lneighbors.any fun y => y.node = neighbor then
      modifyByKey NodeLoad.node neighbor (fun y => { y with load := y.load + (s.link l).capacity }) lneighbors
    else if (lneighbors.any fun y => (s.node neighbor).cost ≥ (s.node y.node).cost) ∨ neighbor ≠ p then
      s.insertUnmapped { node := neighbor, load := (s.link l).capacity } lneighbors
    else lneighbors

/-- The neighbour that a link of `p` leads to. -/
def lneighborOf (p : N) (l : L) : Option N :=
  if s.vgige (s.farEnd p l) ∨ p = s.farEnd p l then none else some (s.clusterOf (s.farEnd p l))

/-- The links of the node, or of its children, that lead to `x`. -/
def joining (node x : N) : List L :=
  (s.nodesToProcess node).flatMap fun p => (s.node p).links.filter fun l => s.lneighborOf p l = some x

/-- Neither the node nor one of its children, and not its cluster. -/
def Outside (node x : N) : Prop := x ∉ s.nodesToProcess node ∧ x ≠ node ∧ (s.node node).parent ≠ some x

/-- The most expensive first. -/
def Descending (ys : List (NodeLoad N)) : Prop := ys.Pairwise fun y z => (s.node z.node).cost ≤ (s.node y.node).cost

/-- What a link adds to its neighbour. -/
def entryOf (p : N) (l : L) : Option (N × ℤ) := (s.lneighborOf p l).map fun x => (x, (s.link l).capacity)

variable {s}

omit [DecidableEq N] in
theorem insertUnmapped_eq (x : NodeLoad N) (ys : List (NodeLoad N)) :
    s.insertUnmapped x ys = ys.orderedInsert (fun y z => (s.node z.node).cost ≤ (s.node y.node).cost) x := by
  induction ys with
  | nil => rfl
  | cons y ys ih =>
    rw [insertUnmapped, List.orderedInsert_cons, ih]

omit [DecidableEq N] in
theorem descending_insertUnmapped {ys : List (NodeLoad N)} (h : s.Descending ys) (x : NodeLoad N) :
    s.Descending (s.insertUnmapped x ys) := by
  rw [insertUnmapped_eq]
  have : Std.Total fun y z : NodeLoad N => (s.node z.node).cost ≤ (s.node y.node).cost :=
    ⟨fun y z => Nat.le_total _ _⟩
  have : IsTrans (NodeLoad N) fun y z => (s.node z.node).cost ≤ (s.node y.node).cost :=
    ⟨fun _ _ _ h1 h2 => Nat.le_trans h2 h1⟩
  exact List.Pairwise.orderedInsert x ys h

omit [DecidableEq N] in
theorem perm_insertUnmapped (x : NodeLoad N) (ys : List (NodeLoad N)) : (s.insertUnmapped x ys).Perm (x :: ys) := by
  rw [insertUnmapped_eq]
  exact List.perm_orderedInsert _ _ _

variable (s) in
/-- The list after the entries `es`; nodes that are `hidden` may be left out. -/
structure Listed (hidden : N → Prop) (es : List (N × ℤ)) (ys : List (NodeLoad N)) : Prop where
  descending : s.Descending ys
  nodup : (ys.map NodeLoad.node).Nodup
  named : ∀ x ∈ ys.map NodeLoad.node, x ∈ es.map Prod.fst
  all : ∀ x ∈ es.map Prod.fst, ¬hidden x → x ∈ ys.map NodeLoad.node
  load : ∀ y ∈ ys, ¬hidden y.node → y.load = amount es y.node

variable {hidden : N → Prop} {es es' : List (N × ℤ)} {ys : List (NodeLoad N)} {p : N} {l : L}

omit [DecidableEq N] in
theorem descending_iff : s.Descending ys ↔ (ys.map NodeLoad.node).Pairwise fun y z => (s.node z).cost ≤ (s.node y).cost := by
  rw [List.pairwise_map]
  rfl

/-- The load of an entry that is there grows. -/
theorem Listed.grow (h : Listed s hidden es ys) {x : N} (v : ℤ) (hx : x ∈ ys.map NodeLoad.node) :
    Listed s hidden (es ++ [(x, v)]) (modifyByKey NodeLoad.node x (fun y => { y with load := y.load + v }) ys) := by
  have hmap : (modifyByKey NodeLoad.node x (fun y => { y with load := y.load + v }) ys).map NodeLoad.node =
      ys.map NodeLoad.node := map_modifyByKey _ fun _ => rfl
  refine ⟨?_, ?_, ?_, ?_, ?_⟩
  · rw [descending_iff, hmap, ← descending_iff]
    exact h.descending
  · rw [hmap]
    exact h.nodup
  · intro z hz
    rw [hmap] at hz
    rw [List.map_append, List.mem_append]
    exact .inl (h.named z hz)
  · intro z hz hhid
    rw [hmap]
    rw [List.map_append, List.mem_append] at hz
    obtain hz | hz := hz
    · exact h.all z hz hhid
    · rwa [List.mem_singleton.mp hz]
  · intro y hy hhid
    rw [amount_append, amount_singleton]
    obtain ⟨hy, hne⟩ | ⟨z, hz, rfl, rfl⟩ := mem_modifyByKey h.nodup hy
    · rw [if_neg (Ne.symm hne), Int.add_zero]
      exact h.load y hy hhid
    · rw [if_pos rfl, ← h.load z hz hhid]

/-- A new entry. -/
theorem Listed.insert (h : Listed s hidden es ys) {x : N} (v : ℤ) (hx : x ∉ ys.map NodeLoad.node) :
    Listed s hidden (es ++ [(x, v)]) (s.insertUnmapped { node := x, load := v } ys) := by
  have hperm := perm_insertUnmapped (s := s) { node := x, load := v } ys
  have hkeys := hperm.map NodeLoad.node
  refine ⟨descending_insertUnmapped h.descending _, ?_, ?_, ?_, ?_⟩
  · exact hkeys.nodup_iff.mpr (List.nodup_cons.mpr ⟨hx, h.nodup⟩)
  · intro z hz
    rw [List.map_append, List.mem_append]
    obtain rfl | hz := List.mem_cons.mp (hkeys.mem_iff.mp hz)
    · exact .inr List.mem_cons_self
    · exact .inl (h.named z hz)
  · intro z hz hhid
    rw [List.map_append, List.mem_append] at hz
    apply hkeys.mem_iff.mpr
    obtain hz | hz := hz
    · exact List.mem_cons_of_mem _ (h.all z hz hhid)
    · rw [List.mem_singleton.mp hz]
      exact List.mem_cons_self
  · intro y hy hhid
    rw [amount_append, amount_singleton]
    obtain rfl | hy := List.mem_cons.mp (hperm.mem_iff.mp hy)
    · have hzero : amount es x = 0 := by
        apply amount_eq_zero
        intro e he hex
        exact hx (h.all x (hex ▸ List.mem_map_of_mem he) hhid)
      rw [if_pos rfl, hzero, Int.zero_add]
    · have hne : x ≠ y.node := fun heq => hx (heq ▸ List.mem_map_of_mem hy)
      rw [if_neg hne, Int.add_zero]
      exact h.load y hy hhid

/-- A hidden entry that is left out. -/
theorem Listed.leaveOut (h : Listed s hidden es ys) {x : N} (v : ℤ) (hx : hidden x) :
    Listed s hidden (es ++ [(x, v)]) ys := by
  refine ⟨h.descending, h.nodup, fun z hz => ?_, fun z hz hhid => ?_, fun y hy hhid => ?_⟩
  · rw [List.map_append, List.mem_append]
    exact .inl (h.named z hz)
  · rw [List.map_append, List.mem_append] at hz
    obtain hz | hz := hz
    · exact h.all z hz hhid
    · rw [List.mem_singleton.mp hz] at hhid
      exact absurd hx hhid
  · have hne : x ≠ y.node := fun heq => hhid (heq ▸ hx)
    rw [amount_append, amount_singleton, if_neg hne, Int.add_zero]
    exact h.load y hy hhid

/-- One link. -/
theorem Listed.addLeaf (h : Listed s hidden es ys) (hp : hidden p) :
    Listed s hidden (es ++ (s.entryOf p l).toList) (s.addLeaf p ys l) := by
  unfold Scheduling.addLeaf
  by_cases hleaf : s.vgige (s.farEnd p l) ∨ p = s.farEnd p l
  · have hnone : s.entryOf p l = none := by rw [entryOf, lneighborOf, if_pos hleaf]; rfl
    rw [hnone, Option.toList_none, List.append_nil, if_pos hleaf]
    exact h
  · have hsome : s.entryOf p l = some (s.clusterOf (s.farEnd p l), ((s.link l).capacity : ℤ)) := by
      rw [entryOf, lneighborOf, if_neg hleaf]
      rfl
    rw [hsome, Option.toList_some, if_neg hleaf]
    simp only
    have hany : (ys.any fun y => y.node = s.clusterOf (s.farEnd p l)) = true ↔
        s.clusterOf (s.farEnd p l) ∈ ys.map NodeLoad.node := by
      simp [List.any_eq_true]
    split
    · next hin => exact h.grow _ (hany.mp hin)
    · next hnot =>
      have hx := fun hin => hnot (hany.mpr hin)
      split
      · exact h.insert _ hx
      · next hskip =>
        have heq : s.clusterOf (s.farEnd p l) = p := not_not.mp fun hne => hskip (.inr hne)
        apply h.leaveOut
        rwa [heq]

/-- The links of one node. -/
theorem Listed.addLeaves (h : Listed s hidden es ys) (hp : hidden p) (ls : List L) :
    Listed s hidden (es ++ ls.filterMap (s.entryOf p)) (ls.foldl (s.addLeaf p) ys) := by
  induction ls generalizing es ys with
  | nil => rwa [List.filterMap_nil, List.append_nil]
  | cons l ls ih =>
    have hl := ih (h.addLeaf (l := l) hp)
    rw [List.append_assoc] at hl
    rw [List.foldl_cons, List.filterMap_cons]
    cases he : s.entryOf p l with
    | none => simpa [he] using hl
    | some e => simpa [he] using hl

theorem Listed.addAll (h : Listed s hidden es ys) (ps : List N) (hps : ∀ p ∈ ps, hidden p) :
    Listed s hidden (es ++ ps.flatMap fun p => (s.node p).links.filterMap (s.entryOf p))
      (ps.foldl (fun b p => (s.node p).links.foldl (s.addLeaf p) b) ys) := by
  induction ps generalizing es ys with
  | nil => rwa [List.flatMap_nil, List.append_nil]
  | cons p ps ih =>
    rw [List.foldl_cons, List.flatMap_cons, ← List.append_assoc]
    exact ih (h.addLeaves (hps p List.mem_cons_self) _) fun q hq => hps q (List.mem_cons_of_mem _ hq)

/-- No link is counted twice for a neighbour outside: a link is in the lists of its two ends, and only a loop is in one
list twice. -/
theorem nodup_joining (hs : s.Linked) {node x : N} (hps : (s.nodesToProcess node).Nodup)
    (hls : ∀ p, ((s.node p).links.filter fun l => p ≠ s.farEnd p l).Nodup)
    (hchildren : ∀ p ∈ s.nodesToProcess node, s.clusterOf p = node ∨ s.nodesToProcess node = [p])
    (hx : s.Outside node x) : (s.joining node x).Nodup := by
  have hleaf {p : N} {l : L} (hl : s.lneighborOf p l = some x) : p ≠ s.farEnd p l ∧ s.clusterOf (s.farEnd p l) = x := by
    unfold lneighborOf at hl
    split at hl
    · cases hl
    · next hnot => exact ⟨fun heq => hnot (.inr heq), Option.some.inj hl⟩
  apply List.nodup_flatMap.mpr
  constructor
  · intro p _
    have hsub : ((s.node p).links.filter fun l => s.lneighborOf p l = some x).Sublist
        ((s.node p).links.filter fun l => p ≠ s.farEnd p l) := by
      apply List.monotone_filter_right
      intro l hl
      exact decide_eq_true (hleaf (of_decide_eq_true hl)).1
    exact (hls p).sublist hsub
  · refine hps.imp_of_mem fun {p q} hp hq hne => ?_
    intro l hlp hlq
    obtain ⟨hlp, hleafp⟩ := List.mem_filter.mp hlp
    obtain ⟨hlq, -⟩ := List.mem_filter.mp hlq
    obtain ⟨hloop, hcluster⟩ := hleaf (of_decide_eq_true hleafp)
    -- the far end of the link would be another node of the list
    have hfar : s.farEnd p l = q := by
      obtain h1 | h1 := (hs l p).mp hlp
      · obtain h2 | h2 := (hs l q).mp hlq
        · exact absurd (h1.symm.trans h2) hne
        · rw [farEnd, if_pos h1, h2]
      · obtain h2 | h2 := (hs l q).mp hlq
        · rw [farEnd, if_neg fun h => hne (h.symm.trans h2), h2]
        · exact absurd (h1.symm.trans h2) hne
    obtain hc | hone := hchildren q hq
    · exact hx.2.1 (by rw [← hcluster, hfar, hc])
    · rw [hone] at hp
      exact hne (List.mem_singleton.mp hp)

local instance neZero_leaves : NeZero 5 := ⟨by decide⟩

local instance neZero_neighbors : NeZero 3 := ⟨by decide⟩

end Scheduling

end OnlDaemons.Onldb

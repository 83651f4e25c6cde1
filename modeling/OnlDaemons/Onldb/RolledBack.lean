import OnlDaemons.Onldb.NeighborMapping
import Mathlib.Data.List.Basic

/-!
# Giving up neighbours

When neighbours are given up, the lists of the cluster and the potential capacities are to be what they were before
the first of them was mapped. The loop skips a node after each one it gives up, and adds the capacities of the
node that it skips, so this holds only when one neighbour is given up and the node before it has the capacities that
mapping the neighbour took.

## Main definitions

- `Restored` — the state in which some neighbour was first tried is back
- `GivesUpOne`

## Main result

- `Scheduling.findNeighborMapping_restores_iff`
-/

namespace OnlDaemons.Onldb
namespace Scheduling

variable {N L : Type} [DecidableEq N]

/-! ### What has been mapped -/

/-- The lists of the cluster are those it had and what the call has mapped since. -/
structure MapsOn (start m : NeighborMapping N L) : Prop where
  nodes : m.cluster.nodesUsed = start.cluster.nodesUsed ++ m.tried.map Tried.candidate
  rnodes : m.cluster.rnodesUsed = start.cluster.rnodesUsed ++ m.tried.map Tried.available
  load : m.cluster.load = start.cluster.load
  before : ∀ ts t us, m.tried = ts ++ t :: us →
    t.cluster.nodesUsed = start.cluster.nodesUsed ++ ts.map Tried.candidate ∧
      t.cluster.rnodesUsed = start.cluster.rnodesUsed ++ ts.map Tried.available ∧
      t.cluster.load = start.cluster.load ∧ ∀ y ∈ t.cluster.nodesUsed, y.node ≠ t.candidate.node
  last : ∀ ts t, m.tried = ts ++ [t] → m.state.node = (t.state.takeCapacity t.candidate.node t.available).node

theorem MapsOn.refl (cluster : MappingCluster N) (unmapped : List (NodeLoad N)) (s : Scheduling N L) :
    MapsOn { cluster, unmappedNodes := unmapped, state := s } { cluster, unmappedNodes := unmapped, state := s } :=
  ⟨(List.append_nil _).symm, (List.append_nil _).symm, rfl,
    fun ts _ _ h => absurd h.symm (by simp), fun ts _ h => absurd h.symm (by simp)⟩

variable {s t : Scheduling N L} {start m m' : NeighborMapping N L} {root : N} {x : NodeLoad N}

/-- The neighbour is not mapped. -/
theorem MapsOn.cannot (h : MapsOn start m) (hcluster : m'.cluster = m.cluster) (htried : m'.tried = m.tried)
    (hnode : m'.state.node = m.state.node) : MapsOn start m' := by
  refine ⟨?_, ?_, ?_, ?_, ?_⟩
  · rw [hcluster, htried]
    exact h.nodes
  · rw [hcluster, htried]
    exact h.rnodes
  · rw [hcluster]
    exact h.load
  · rw [htried]
    exact h.before
  · rw [htried, hnode]
    exact h.last

theorem takeCapacity_node {n node : N} (h : t.node = s.node) :
    (t.takeCapacity node n).node = (s.takeCapacity node n).node := by
  unfold takeCapacity setNode nodeHosted
  rw [h]

/-! ### Looking for paths does not change the nodes -/

variable [DecidableEq L] {rounds : ℕ}

theorem reservePath_node (r l : ℤ) (path : List L) (last : N) (s : Scheduling N L) :
    (reservePath r l last path s).node = s.node := by
  induction path generalizing last s with
  | nil => rfl
  | cons f path ih =>
    rw [reservePath]
    split
    · split
      · exact ih _ _
      · split
        · exact ih _ _
        · exact ih _ _
    · exact ih _ _

theorem pathCostsLoop_node {node n : N} {ls : List L} {mapped : List (PotentialPath N L)} {cost c : ℤ}
    (h : pathCostsLoop rounds node n ls mapped cost s = some (c, t)) : t.node = s.node := by
  induction ls generalizing mapped cost s with
  | nil =>
    cases h
    rfl
  | cons l ls ih =>
    rw [pathCostsLoop] at h
    split at h
    · exact ih h
    · obtain ⟨ends, -, h⟩ := Option.bind_eq_some_iff.mp h
      obtain ⟨p, -, h⟩ := Option.bind_eq_some_iff.mp h
      split at h
      · cases h
        rfl
      · rw [ih h, reservePath_node]

theorem computePathCosts_node {node n : N} {r : ℤ × Scheduling N L} (h : s.computePathCosts rounds node n = some r) :
    r.2.node = s.node :=
  pathCostsLoop_node (c := r.1) h

theorem findAvailableLoop_node {cluster : MappingCluster N} {node : N} {fixed : Bool} {cs : List N}
    {r : Option N × Scheduling N L} (h : findAvailableLoop rounds cluster node fixed cs s = some r) :
    r.2.node = s.node := by
  induction cs with
  | nil =>
    cases h
    rfl
  | cons c cs ih =>
    rw [findAvailableLoop] at h
    split at h
    · exact ih h
    · simp only at h
      split at h
      · exact ih h
      · split at h
        · obtain ⟨p, hp, rfl⟩ := Option.map_eq_some_iff.mp h
          exact computePathCosts_node hp
        · split at h
          · cases h
            rfl
          · exact ih h

theorem availableFor_node {cluster : MappingCluster N} {node : N} {r : Option N × Scheduling N L}
    (h : s.availableFor rounds cluster node = some r) : r.2.node = s.node := by
  have hfind : ∀ {fixed}, s.findAvailableNode rounds cluster node fixed = some r → r.2.node = s.node := by
    intro fixed hf
    rw [findAvailableNode] at hf
    split at hf
    · cases hf
      rfl
    · exact findAvailableLoop_node hf
  rw [availableFor] at h
  split at h
  · split at h
    · exact hfind h
    · cases h
      rfl
  · exact hfind h

theorem MapsOn.tryNeighbor (h : MapsOn start m) (hnew : mappedBefore m x = false)
    (hm : tryNeighbor rounds root m x = some m') : MapsOn start m' := by
  rw [Scheduling.tryNeighbor] at hm
  simp only at hm
  split at hm
  swap
  · cases hm
    exact h.cannot rfl rfl rfl
  obtain ⟨r, hr, hm⟩ := Option.bind_eq_some_iff.mp hm
  have hnode := availableFor_node hr
  split at hm
  · cases hm
    exact h.cannot rfl rfl hnode
  next n _ =>
  obtain ⟨c, hc, rfl⟩ := Option.map_eq_some_iff.mp hm
  have hnode' := (computePathCosts_node hc).trans hnode
  split
  · exact h.cannot rfl rfl hnode'
  have hfresh : ∀ y ∈ m.cluster.nodesUsed, y.node ≠ x.node := by
    rw [mappedBefore, Bool.or_eq_false_iff] at hnew
    intro y hy he
    have hany := List.any_eq_false.mp hnew.2 y hy
    exact hany (decide_eq_true he)
  refine ⟨?_, ?_, h.load, fun ts t us ht => ?_, fun ts t ht => ?_⟩
  · show m.cluster.nodesUsed ++ [x] = _ ++ (m.tried ++ [_]).map _
    rw [h.nodes, List.map_append, List.append_assoc]
    rfl
  · show m.cluster.rnodesUsed ++ [n] = _ ++ (m.tried ++ [_]).map _
    rw [h.rnodes, List.map_append, List.append_assoc]
    rfl
  · rcases List.eq_nil_or_concat us with rfl | ⟨us, u, rfl⟩
    · obtain ⟨rfl, hlast⟩ := List.append_inj' ht rfl
      obtain rfl := List.singleton_inj.mp hlast
      exact ⟨h.nodes, h.rnodes, h.load, hfresh⟩
    · rw [List.concat_eq_append, ← List.cons_append, ← List.append_assoc] at ht
      exact h.before ts t us (List.append_inj' ht rfl).1
  · obtain ⟨rfl, hlast⟩ := List.append_inj' ht rfl
    obtain rfl := List.singleton_inj.mp hlast
    exact takeCapacity_node hnode'

theorem MapsOn.mapNeighbors {xs : List (NodeLoad N)} (h : MapsOn start m)
    (hm : mapNeighbors rounds root xs m = some m') : MapsOn start m' := by
  induction xs generalizing m with
  | nil =>
    cases hm
    exact h
  | cons x xs ih =>
    rw [Scheduling.mapNeighbors] at hm
    split at hm
    · refine ih ?_ hm
      exact h.cannot rfl rfl rfl
    · next hnew =>
      obtain ⟨m₁, hm₁, hm⟩ := Option.bind_eq_some_iff.mp hm
      exact ih (h.tryNeighbor (Bool.eq_false_iff.mpr hnew) hm₁) hm

/-! ### What is given up -/

/-- The lists of the cluster, its load and the potential capacities are what they were when a neighbour was first
tried, and every node in the list is beside the node it was mapped to. -/
structure Restored (m m' : NeighborMapping N L) (t : Tried N L) : Prop where
  tried : t ∈ m.tried
  nodesUsed : m'.cluster.nodesUsed = t.cluster.nodesUsed
  rnodesUsed : m'.cluster.rnodesUsed = t.cluster.rnodesUsed
  load : m'.cluster.load = t.cluster.load
  corecap : ∀ n, (m'.state.node n).potentialCorecap = (t.state.node n).potentialCorecap
  memcap : ∀ n, (m'.state.node n).potentialMemcap = (t.state.node n).potentialMemcap
  paired : ∀ (i : ℕ) x n, m'.cluster.nodesUsed[i]? = some x → m'.cluster.rnodesUsed[i]? = some n →
    m.cluster.nodesUsed[i]? = some x ∧ m.cluster.rnodesUsed[i]? = some n

/-- Mapping the node to `n` takes the capacities that another node has. -/
def TakesCapacityOf (s : Scheduling N L) (node n other : N) : Prop :=
  if s.nodeHosted node then
    (s.node other).coreCapacity = (s.node node).coreCapacity ∧ (s.node other).memCapacity = (s.node node).memCapacity
  else (s.node other).coreCapacity = (s.node n).potentialCorecap ∧ (s.node other).memCapacity = 0

/-- One neighbour is given up, the last that the call has mapped, and the node before it has the capacities that
mapping it took. -/
structure GivesUpOne (m : NeighborMapping N L) (t : Tried N L) (y : NodeLoad N) : Prop where
  tried : m.tried.getLast? = some t
  before : t.cluster.nodesUsed.getLast? = some y
  enough : m.totalLoad - t.candidate.load ≤ MAX_INTERCLUSTER_CAPACITY ∨ t.cluster.nodesUsed = [y]
  capacity : t.state.TakesCapacityOf t.candidate.node t.available y.node

omit [DecidableEq L] in
/-- The nodes behind the iterator stay, and a node in front of it is given up if there is one. -/
theorem giveUp_nodesUsed {front behind : List (NodeLoad N)} (hnodes : m.cluster.nodesUsed = front.reverse ++ behind)
    (h : giveUp front behind m = some m') :
    ∃ ps, m'.cluster.nodesUsed = ps ++ behind ∧ ps.length ≤ front.length ∧
      (front ≠ [] → ps.length < front.length) := by
  induction front, behind, m using giveUp.induct with
  | case1 behind m =>
    rw [giveUp] at h
    cases h
    exact ⟨[], hnodes, Nat.le_refl _, fun hne => absurd rfl hne⟩
  | case2 => cases h
  | case3 x y front behind m hn =>
    rw [giveUp, hn] at h
    cases h
  | case4 x y front behind m n hn m₁ hle =>
    rw [giveUp, hn] at h
    simp only at h
    rw [if_pos hle] at h
    cases h
    have hlt : (front.reverse ++ [y]).length < (x :: y :: front).length := by
      rw [List.length_append, List.length_reverse]
      exact Nat.lt_succ_self _
    refine ⟨front.reverse ++ [y], ?_, Nat.le_of_lt hlt, fun _ => hlt⟩
    show front.reverse ++ y :: behind = _
    rw [List.append_assoc]
    rfl
  | case5 x y front behind m n hn m₁ hle ih =>
    rw [giveUp, hn] at h
    simp only at h
    rw [if_neg hle] at h
    obtain ⟨ps, hps, hle', -⟩ := ih rfl h
    have hlt : (ps ++ [y]).length < (x :: y :: front).length := by
      rw [List.length_append, List.length_singleton, List.length_cons, List.length_cons]
      omega
    refine ⟨ps ++ [y], ?_, Nat.le_of_lt hlt, fun _ => hlt⟩
    rw [hps, List.append_assoc]
    rfl

omit [DecidableEq L] in
theorem takeCapacity_self (s : Scheduling N L) (node n : N) :
    (s.takeCapacity node n).node n = if s.nodeHosted node then
      { s.node n with
        potentialCorecap := (s.node n).potentialCorecap - (s.node node).coreCapacity
        potentialMemcap := (s.node n).potentialMemcap - (s.node node).memCapacity }
    else { s.node n with potentialCorecap := 0 } :=
  Function.update_self _ _ _

omit [DecidableEq L] in
theorem takeCapacity_ne (s : Scheduling N L) (node : N) {n k : N} (h : k ≠ n) :
    (s.takeCapacity node n).node k = s.node k :=
  Function.update_of_ne h _ _

omit [DecidableEq L] in
theorem takeCapacity_capacity (s : Scheduling N L) (node n k : N) :
    ((s.takeCapacity node n).node k).coreCapacity = (s.node k).coreCapacity ∧
      ((s.takeCapacity node n).node k).memCapacity = (s.node k).memCapacity := by
  by_cases hk : k = n
  · rw [hk, takeCapacity_self]
    split <;> exact ⟨rfl, rfl⟩
  · rw [takeCapacity_ne s node hk]
    exact ⟨rfl, rfl⟩

theorem sub_add_eq_iff (c x y : UInt32) : c - x + y = c ↔ y = x := by grind

theorem add_eq_self_iff (c y : UInt32) : c + y = c ↔ y = 0 := by grind

omit [DecidableEq L] in
/-- Adding the capacities of another node undoes what mapping the node took if they are the same. -/
theorem addCapacity_iff {node n other : N} (h : t.node = (s.takeCapacity node n).node) :
    (∀ k, ((t.addCapacity other n).node k).potentialCorecap = (s.node k).potentialCorecap ∧
      ((t.addCapacity other n).node k).potentialMemcap = (s.node k).potentialMemcap) ↔
      s.TakesCapacityOf node n other := by
  have hne : ∀ k, k ≠ n → (t.addCapacity other n).node k = s.node k := by
    intro k hk
    show Function.update t.node n _ k = _
    rw [Function.update_of_ne hk, h, takeCapacity_ne s node hk]
  have hself : (t.addCapacity other n).node n = { t.node n with
      potentialCorecap := (t.node n).potentialCorecap + (t.node other).coreCapacity
      potentialMemcap := (t.node n).potentialMemcap + (t.node other).memCapacity } :=
    Function.update_self _ _ _
  have hn : (((t.addCapacity other n).node n).potentialCorecap = (s.node n).potentialCorecap ∧
      ((t.addCapacity other n).node n).potentialMemcap = (s.node n).potentialMemcap) ↔
      s.TakesCapacityOf node n other := by
    rw [hself, h, (takeCapacity_capacity s node n other).1, (takeCapacity_capacity s node n other).2,
      takeCapacity_self, TakesCapacityOf]
    split
    · exact and_congr (sub_add_eq_iff _ _ _) (sub_add_eq_iff _ _ _)
    · refine and_congr ?_ (add_eq_self_iff _ _)
      show 0 + _ = _ ↔ _
      rw [UInt32.zero_add]
  refine ⟨fun hall => hn.mp (hall n), fun hto k => ?_⟩
  by_cases hk : k = n
  · rw [hk]
    exact hn.mpr hto
  · rw [hne k hk]
    exact ⟨rfl, rfl⟩

omit [DecidableEq L] in
theorem MapsOn.split_last (h : MapsOn start m) {ts : List (Tried N L)} {t : Tried N L} (ht : m.tried = ts ++ [t]) :
    m.cluster.nodesUsed = t.cluster.nodesUsed ++ [t.candidate] ∧
      m.cluster.rnodesUsed = t.cluster.rnodesUsed ++ [t.available] := by
  obtain ⟨hnodes, hrnodes, -, -⟩ := h.before ts t [] ht
  rw [h.nodes, h.rnodes, ht, hnodes, hrnodes, List.map_append, List.map_append, List.append_assoc, List.append_assoc]
  exact ⟨rfl, rfl⟩

omit [DecidableEq L] in
/-- The roll back that gives up one neighbour. -/
theorem rollBack_last {t : Tried N L} {zs : List (NodeLoad N)} {y : NodeLoad N}
    (hnodes : m.cluster.nodesUsed = (zs ++ [y]) ++ [t.candidate])
    (hrnodes : m.cluster.rnodesUsed = t.cluster.rnodesUsed ++ [t.available])
    (henough : m.totalLoad - t.candidate.load ≤ MAX_INTERCLUSTER_CAPACITY ∨ zs = []) :
    ∃ m', rollBack m = some m' ∧ m'.cluster.nodesUsed = zs ++ [y] ∧ m'.cluster.rnodesUsed = t.cluster.rnodesUsed ∧
      m'.cluster.load = m.cluster.load ∧ m'.state = m.state.addCapacity y.node t.available := by
  have hrev : m.cluster.nodesUsed.reverse = t.candidate :: y :: zs.reverse := by
    rw [hnodes, List.reverse_append, List.reverse_append]
    rfl
  have hlast : m.cluster.rnodesUsed.getLast? = some t.available := by
    rw [hrnodes]
    exact List.getLast?_concat
  have hdrop : m.cluster.rnodesUsed.dropLast = t.cluster.rnodesUsed := by
    rw [hrnodes]
    exact List.dropLast_concat
  have hback : zs.reverse.reverse ++ y :: [] = zs ++ [y] := by rw [List.reverse_reverse]
  rw [rollBack, hrev, giveUp, hlast]
  simp only
  by_cases hle : m.totalLoad - t.candidate.load ≤ MAX_INTERCLUSTER_CAPACITY
  · rw [if_pos hle]
    exact ⟨_, rfl, hback, hdrop, rfl, rfl⟩
  · rw [if_neg hle]
    obtain rfl := henough.resolve_left hle
    exact ⟨_, rfl, rfl, hdrop, rfl, rfl⟩

omit [DecidableEq L] in
/-- What had been mapped before a neighbour is less than what had been mapped before a later one. -/
theorem MapsOn.earlier (h : MapsOn start m) {ts us : List (Tried N L)} {t u : Tried N L}
    (hu : m.tried = ts ++ u :: us) (ht : t ∈ ts) :
    ∃ zs, zs ≠ [] ∧ u.cluster.nodesUsed = t.cluster.nodesUsed ++ zs := by
  obtain ⟨as, bs, rfl⟩ := List.append_of_mem ht
  rw [List.append_assoc, List.cons_append] at hu
  obtain ⟨htn, -⟩ := h.before as t (bs ++ u :: us) hu
  rw [← List.cons_append, ← List.append_assoc] at hu
  obtain ⟨hun, -⟩ := h.before (as ++ t :: bs) u us hu
  refine ⟨(t :: bs).map Tried.candidate, List.cons_ne_nil _ _, ?_⟩
  rw [hun, htn, List.map_append, List.append_assoc]

omit [DecidableEq L] in
/-- When more than one neighbour is given up, the node that is skipped stays behind one that is given up. -/
theorem MapsOn.not_restored (h : MapsOn start m) {ts : List (Tried N L)} {t u : Tried N L}
    (hu : m.tried = ts ++ [u]) {zs : List (NodeLoad N)} {y : NodeLoad N} (hy : u.cluster.nodesUsed = zs ++ [y])
    (ht : t ∈ m.tried) {ps : List (NodeLoad N)} (hps : ps.length < zs.length) :
    t.cluster.nodesUsed ≠ ps ++ [y] := by
  intro htn
  rw [hu] at ht
  obtain ht | ht := List.mem_append.mp ht
  swap
  · rw [List.mem_singleton.mp ht, hy] at htn
    have hlen := congrArg List.length htn
    rw [List.length_append, List.length_append] at hlen
    exact absurd (Nat.add_right_cancel hlen) (Nat.ne_of_gt hps)
  -- the node was mapped just before the last one, and had been there when it was tried
  obtain rfl | ⟨us, w, rfl⟩ := List.eq_nil_or_concat ts
  · cases ht
  rw [List.concat_eq_append] at hu ht
  obtain ⟨hun, -⟩ := h.before (us ++ [w]) u [] hu
  rw [List.append_assoc, List.singleton_append] at hu
  obtain ⟨hwn, -, -, hfresh⟩ := h.before us w [u] hu
  have hcand : w.candidate = y := by
    rw [hun, List.map_append, ← List.append_assoc] at hy
    exact List.singleton_inj.mp (List.append_inj' hy rfl).2
  have hmem : y ∈ w.cluster.nodesUsed := by
    have hyt : y ∈ t.cluster.nodesUsed := by
      rw [htn]
      exact List.mem_append_right _ (List.mem_singleton_self y)
    obtain ht | ht := List.mem_append.mp ht
    · obtain ⟨vs, -, hvs⟩ := h.earlier hu ht
      rw [hvs]
      exact List.mem_append_left _ hyt
    · rw [← List.mem_singleton.mp ht]
      exact hyt
  exact hfresh y hmem (by rw [hcand])

/-- Everything is restored exactly when one neighbour is given up and the node before it has the capacities that
mapping it took. -/
theorem findNeighborMapping_restores_iff {cluster : MappingCluster N} {unmapped neighbors : List (NodeLoad N)}
    (hm : mapNeighbors rounds root neighbors { cluster, unmappedNodes := unmapped, state := s } = some m)
    (hr : rollsBack root m = true) :
    (∃ m' t, s.findNeighborMapping rounds cluster unmapped root neighbors = some m' ∧ Restored m m' t) ↔
      ∃ t y, GivesUpOne m t y := by
  have h := (MapsOn.refl cluster unmapped s).mapNeighbors hm
  rw [findNeighborMapping, hm, Option.bind_some, if_pos hr]
  constructor
  · rintro ⟨m', t, hroll, hres⟩
    obtain hnil | ⟨ts, u, hu⟩ := List.eq_nil_or_concat m.tried
    · have ht := hres.tried
      rw [hnil] at ht
      cases ht
    rw [List.concat_eq_append] at hu
    obtain ⟨hnodes, hrnodes⟩ := h.split_last hu
    obtain hnil | ⟨zs, y, hy⟩ := List.eq_nil_or_concat u.cluster.nodesUsed
    · rw [rollBack, hnodes, hnil] at hroll
      cases hroll
    rw [List.concat_eq_append] at hy
    rw [hy] at hnodes
    by_cases henough : m.totalLoad - u.candidate.load ≤ MAX_INTERCLUSTER_CAPACITY ∨ zs = []
    · obtain ⟨m'', hroll', hn, -, -, hstate⟩ := rollBack_last hnodes hrnodes henough
      rw [hroll] at hroll'
      cases hroll'
      have htu : t = u := by
        have ht := hres.tried
        rw [hu] at ht
        obtain ht | ht := List.mem_append.mp ht
        · obtain ⟨vs, hvs, he⟩ := h.earlier hu ht
          rw [← hres.nodesUsed, hn, hy] at he
          exact absurd (List.append_right_eq_self.mp he.symm) hvs
        · exact List.mem_singleton.mp ht
      subst htu
      refine ⟨t, y, ?_, ?_, henough.imp_right fun hz => by rw [hy, hz]; rfl, ?_⟩
      · rw [hu]
        exact List.getLast?_concat
      · rw [hy]
        exact List.getLast?_concat
      · refine (addCapacity_iff (h.last ts t hu)).mp fun k => ?_
        rw [← hstate]
        exact ⟨hres.corecap k, hres.memcap k⟩
    · -- the second neighbour that is given up is not the one before the first
      have hrev : m.cluster.nodesUsed.reverse = u.candidate :: y :: zs.reverse := by
        rw [hnodes, List.reverse_append, List.reverse_append]
        rfl
      have hlast : m.cluster.rnodesUsed.getLast? = some u.available := by
        rw [hrnodes]
        exact List.getLast?_concat
      rw [rollBack, hrev, giveUp, hlast] at hroll
      simp only at hroll
      rw [if_neg (not_or.mp henough).1] at hroll
      obtain ⟨ps, hps, -, hlt⟩ := giveUp_nodesUsed rfl hroll
      have hlt := hlt (fun hz => (not_or.mp henough).2 (List.reverse_eq_nil_iff.mp hz))
      rw [List.length_reverse] at hlt
      exact absurd (hres.nodesUsed.symm.trans hps) (h.not_restored hu hy hres.tried hlt)
  · rintro ⟨t, y, hone⟩
    obtain ⟨ts, hu⟩ := List.getLast?_eq_some_iff.mp hone.tried
    obtain ⟨zs, hy⟩ := List.getLast?_eq_some_iff.mp hone.before
    obtain ⟨hnodes, hrnodes⟩ := h.split_last hu
    rw [hy] at hnodes
    have henough := hone.enough.imp_right fun hz => by
      rw [hy] at hz
      exact List.append_left_eq_self.mp hz
    obtain ⟨m', hroll, hn, hrn, hload, hstate⟩ := rollBack_last hnodes hrnodes henough
    have hcap := (addCapacity_iff (h.last ts t hu)).mpr hone.capacity
    refine ⟨m', t, hroll, List.mem_of_getLast? hone.tried, hn.trans hy.symm, hrn, ?_, fun n => ?_, fun n => ?_,
      fun i x n hx hn' => ⟨?_, ?_⟩⟩
    · rw [hload, h.load, (h.before ts t [] hu).2.2.1]
    · rw [hstate]
      exact (hcap n).1
    · rw [hstate]
      exact (hcap n).2
    · rw [hnodes, ← hn]
      exact List.getElem?_append_left (List.getElem?_eq_some_iff.mp hx).1 ▸ hx
    · rw [hrnodes, ← hrn]
      exact List.getElem?_append_left (List.getElem?_eq_some_iff.mp hn').1 ▸ hn'

local instance neZero_machines : NeZero 6 := ⟨by decide⟩

local instance neZero_cables : NeZero 3 := ⟨by decide⟩

/-- A vgige with two virtual machines and a router. The cluster has a host, and no node for the router. -/
def twoMachines (cores : UInt32) : Scheduling (Fin 6) (Fin 3) where
  node
    | 0 => { type := "vgige", links := [0, 1, 2] }
    | 1 => { type := "vm", devType := "hosted", links := [0], coreCapacity := 1, memCapacity := 2 }
    | 2 => { type := "vm", devType := "hosted", links := [1], coreCapacity := cores, memCapacity := 2 }
    | 3 => { type := "npr", links := [2] }
    | 4 => { devType := "infrastructure", inNode := 1 }
    | 5 => { type := "host", hostedType := "vm", potentialCorecap := 8, potentialMemcap := 8,
             portCapacities := [(0, 10000)] }
  link l := { node1 := 0, node1Port := l, node2 := l.succ.castLE (by decide), rload := 100, lload := 100 }

/-- The cluster when the vgige has been put at its switch. -/
def switchCluster : MappingCluster (Fin 6) :=
  { cluster := 4, nodesUsed := [⟨0, 0⟩], rnodesUsed := [4], nodes := [5] }

def neighborLoads : List (NodeLoad (Fin 6)) := [⟨1, 6000⟩, ⟨2, 6000⟩, ⟨3, 100⟩]

def mapTwoMachines (cores : UInt32) : Option (NeighborMapping (Fin 6) (Fin 3)) :=
  mapNeighbors 8 0 neighborLoads { cluster := switchCluster, unmappedNodes := [], state := twoMachines cores }

theorem mapTwoMachines_isSome : (mapTwoMachines 1).isSome := by decide

def mappedMachines : NeighborMapping (Fin 6) (Fin 3) := (mapTwoMachines 1).get mapTwoMachines_isSome

theorem mappedMachines_tried : mappedMachines.tried ≠ [] := List.ne_nil_of_length_pos (by decide)

theorem mappedMachines_givesUpOne :
    GivesUpOne mappedMachines (mappedMachines.tried.getLast mappedMachines_tried) ⟨1, 6000⟩ := by
  refine ⟨List.getLast?_eq_some_getLast _, by decide, .inl (by decide), ?_⟩
  rw [TakesCapacityOf, if_pos (by decide)]
  decide

theorem twoMachines_restored :
    ∃ m' t, (twoMachines 1).findNeighborMapping 8 switchCluster [] 0 neighborLoads = some m' ∧
      Restored mappedMachines m' t :=
  (findNeighborMapping_restores_iff (Option.some_get mapTwoMachines_isSome).symm (by decide)).mpr
    ⟨_, _, mappedMachines_givesUpOne⟩

/-- The capacities of the first machine are added for the second. -/
theorem twoMachines_not_restored :
    ¬∃ m m' t, mapTwoMachines 2 = some m ∧
      (twoMachines 2).findNeighborMapping 8 switchCluster [] 0 neighborLoads = some m' ∧ Restored m m' t := by
  rintro ⟨m, m', t, hm, hfind, hres⟩
  have hafter : ((twoMachines 2).findNeighborMapping 8 switchCluster [] 0 neighborLoads).all
      fun m' => (m'.state.node 5).potentialCorecap = 6 := by decide
  have htried : (mapTwoMachines 2).all fun m => m.tried.all fun t => (t.state.node 5).potentialCorecap ≠ 6 := by decide
  rw [hfind, Option.all_some] at hafter
  rw [hm, Option.all_some] at htried
  have ht := of_decide_eq_true (List.all_eq_true.mp htried t hres.tried)
  exact ht ((hres.corecap 5).symm.trans (of_decide_eq_true hafter))

end Scheduling

end OnlDaemons.Onldb

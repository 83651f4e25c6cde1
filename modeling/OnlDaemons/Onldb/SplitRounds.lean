import Mathlib.Algebra.Order.BigOperators.Group.List
import OnlDaemons.Onldb.SplitPaths

/-!
# The rounds of splitting a vgige

A round either uses no cluster and is the last one, or uses one more. What the clusters that are used should be holds
after a round exactly when it held before and the cluster that is used had been given nothing before: base nodes that
were left in its list, or a load that was, do not belong to the nodes that it is given now.

A cluster without a path to the vgige keeps its nodes, but is not used in a later round.

## Main definitions

- `Scheduling.Takes` — what a cluster is given in a round
- `Scheduling.PassedOver` — what the choice leaves of a cluster
- `Scheduling.AtRound` — what holds when a round begins
- `Scheduling.SplitInput` — what `split_vgige` is given

## Main results

- `splitRound_spec`
- `splitVgige_iff`
-/

namespace OnlDaemons.Onldb

/-- The cluster with nodes and their base nodes. -/
def MappingCluster.give {N : Type} (c : MappingCluster N) (new : List (NodeLoad N × N)) : MappingCluster N :=
  { c with
    nodesUsed := c.nodesUsed ++ new.map Prod.fst
    rnodesUsed := c.rnodesUsed ++ new.map Prod.snd
    load := c.load + (new.map fun p => p.1.load).sum }

namespace Scheduling

variable {N L : Type} {q : SplitQuery N L} {s s' t : Scheduling N L} {c c' b : MappingCluster N}
  {new : List (NodeLoad N × N)} {x : NodeLoad N} {xs : List (NodeLoad N)}

theorem give_nil (c : MappingCluster N) : c.give [] = c := by
  unfold MappingCluster.give
  simp

theorem give_cons (c : MappingCluster N) (p : NodeLoad N × N) (new : List (NodeLoad N × N)) :
    c.give (p :: new) = (c.give [p]).give new := by
  unfold MappingCluster.give
  simp [add_assoc]

/-! ### What a cluster is given -/

theorem foundFor_congr (h : s'.node = s.node) {u n : N} : s'.FoundFor c u n ↔ s.FoundFor c u n := by
  unfold FoundFor nodeFor vgige nodeHosted
  rw [h]

/-- The cluster can take the nodes. -/
structure Takes (s : Scheduling N L) (xs : List (NodeLoad N)) (c : MappingCluster N) (new : List (NodeLoad N × N)) :
    Prop where
  nodes : (new.map Prod.fst).Sublist xs
  found : ∀ p ∈ new, s.FoundFor c p.1.node p.2
  grows : c.load ≤ (c.give new).load
  bound : (c.give new).load ≤ MAX_INTERCLUSTER_CAPACITY

theorem Takes.nil (hc : c.load ≤ MAX_INTERCLUSTER_CAPACITY) : Takes s xs c [] := by
  refine ⟨List.nil_sublist xs, nofun, ?_, ?_⟩
  · rw [give_nil]
  · rw [give_nil]
    exact hc

theorem Takes.skip (h : Takes t xs c new) (ht : t.node = s.node) : Takes s (x :: xs) c new :=
  ⟨h.nodes.cons x, fun p hp => (foundFor_congr ht).mp (h.found p hp), h.grows, h.bound⟩

theorem Takes.take {n : N} (h : Takes t xs (c.give [(x, n)]) new) (ht : t.node = s.node) (hn : s.FoundFor c x.node n)
    (hx : 0 ≤ x.load) : Takes s (x :: xs) c ((x, n) :: new) := by
  have hone : c.load ≤ (c.give [(x, n)]).load := by
    show c.load ≤ c.load + (x.load + 0)
    omega
  refine ⟨h.nodes.cons_cons x, fun p hp => ?_, ?_, ?_⟩
  · obtain rfl | hp := List.mem_cons.mp hp
    · exact hn
    · exact (foundFor_congr ht).mp (h.found p hp)
  · rw [give_cons]
    exact hone.trans h.grows
  · rw [give_cons]
    exact h.bound

variable [DecidableEq N] [DecidableEq L]

omit [DecidableEq L] in
theorem LinksReady.later {node : N} (h : LinksReady s node) (hl : Later q s s') (hlnk : q.lnk ∉ (s.node node).links) :
    LinksReady s' node := by
  intro l hmem
  rw [hl.node] at hmem
  rw [hl.link l (fun he => hlnk (he ▸ hmem)), hl.node]
  exact h l hmem

variable {rounds : ℕ}

/-- A cluster after the first loop of a round. -/
def Offered (s : Scheduling N L) (xs : List (NodeLoad N)) (c c' : MappingCluster N) : Prop :=
  c.used = true ∧ c' = c ∨ c.used = false ∧ ∃ new, c' = c.give new ∧ Takes s xs c new

/-- A cluster after the second loop of a round, if it is not used now. -/
def PassedOver (rounds : ℕ) (q : SplitQuery N L) (s : Scheduling N L) (c c' : MappingCluster N) : Prop :=
  c.used = true ∧ c' = c ∨ c.used = false ∧ (c' = c.giveBack ∨ c' = c ∧ Blocked rounds q s c)

theorem PassedOver.later (h : PassedOver rounds q s c c') (hl : Later q s s') (hlnk : q.lnk ∉ q.base)
    (hc : c.used = false → LoadOk c.load) : PassedOver rounds q s' c c' := by
  obtain hused | ⟨hused, hback | ⟨heq, hblocked⟩⟩ := h
  · exact .inl hused
  · exact .inr ⟨hused, .inl hback⟩
  · exact .inr ⟨hused, .inr ⟨heq, hblocked.later hl hlnk rfl (hc hused) (hc hused) (le_refl _)⟩⟩

/-- The loop has passed the clusters of a list. The best one has a path. -/
structure Choosing (rounds : ℕ) (q : SplitQuery N L) (s : Scheduling N L) (ps : List (MappingCluster N))
    (m : SplitChoice N L) : Prop where
  later : Later q s m.state
  range : InRange m.state
  unchosen : m.best = none → m.before = [] ∧ List.Forall₂ (PassedOver rounds q m.state) ps m.after
  chosen : ∀ b, m.best = some b → (b.used = false ∧ ¬Blocked rounds q s b) ∧ ∃ xs ys, ps = xs ++ b :: ys ∧
    List.Forall₂ (PassedOver rounds q m.state) xs m.before ∧ List.Forall₂ (PassedOver rounds q m.state) ys m.after

variable {ps cs : List (MappingCluster N)} {m : SplitChoice N L}

/-- The best cluster gives its nodes back for another one. -/
theorem Choosing.all (h : Choosing rounds q s ps m) : List.Forall₂ (PassedOver rounds q m.state) ps
    (m.before ++ (m.best.map MappingCluster.giveBack).toList ++ m.after) := by
  cases hbest : m.best with
  | none =>
    obtain ⟨hbefore, hafter⟩ := h.unchosen hbest
    rw [hbefore]
    exact hafter
  | some b =>
    obtain ⟨⟨hused, -⟩, xs, ys, rfl, hxs, hys⟩ := h.chosen b hbest
    rw [List.append_assoc]
    exact List.rel_append hxs (.cons (.inr ⟨hused, .inl rfl⟩) hys)

theorem Choosing.move (h : Choosing rounds q s ps m) (hlnk : q.lnk ∉ q.base)
    (hps : ∀ c ∈ ps, c.used = false → LoadOk c.load) (hlater : Later q m.state t) (ht : InRange t) :
    Choosing rounds q s ps { m with state := t } := by
  have hmono : ∀ {xs ys : List (MappingCluster N)}, xs ⊆ ps → List.Forall₂ (PassedOver rounds q m.state) xs ys →
      List.Forall₂ (PassedOver rounds q t) xs ys := by
    intro xs ys hsub hall
    induction hall with
    | nil => exact .nil
    | cons hk _ ih =>
      refine .cons (hk.later hlater hlnk (hps _ (hsub List.mem_cons_self))) (ih fun k hk => ?_)
      exact hsub (List.mem_cons_of_mem _ hk)
  refine ⟨h.later.trans hlater, ht, fun hbest => ?_, fun b hbest => ?_⟩
  · obtain ⟨hbefore, hafter⟩ := h.unchosen hbest
    exact ⟨hbefore, hmono (List.Subset.refl _) hafter⟩
  · obtain ⟨hb, xs, ys, rfl, hxs, hys⟩ := h.chosen b hbest
    refine ⟨hb, xs, ys, rfl, hmono (List.subset_append_left _ _) hxs, hmono (fun k hk => ?_) hys⟩
    exact List.mem_append_right _ (List.mem_cons_of_mem _ hk)

/-- A cluster is passed over. -/
theorem Choosing.pass (h : Choosing rounds q s ps m) (hc : PassedOver rounds q m.state c c') :
    Choosing rounds q s (ps ++ [c]) { m with after := m.after ++ [c'] } := by
  refine ⟨h.later, h.range, fun hbest => ?_, fun b hbest => ?_⟩
  · obtain ⟨hbefore, hafter⟩ := h.unchosen hbest
    exact ⟨hbefore, List.rel_append hafter (.cons hc .nil)⟩
  · obtain ⟨hb, xs, ys, rfl, hxs, hys⟩ := h.chosen b hbest
    exact ⟨hb, xs, ys ++ [c], by rw [List.append_assoc]; rfl, hxs, List.rel_append hys (.cons hc .nil)⟩

/-- A cluster takes the place of the best one. -/
theorem Choosing.replace (h : Choosing rounds q s ps m) (hused : b.used = false) (hb : ¬Blocked rounds q s b)
    (bestCost : ℤ) : Choosing rounds q s (ps ++ [b]) {
      before := m.before ++ (m.best.map MappingCluster.giveBack).toList ++ m.after
      best := some b
      bestCost
      after := []
      state := m.state } := by
  refine ⟨h.later, h.range, nofun, fun b' hb' => ?_⟩
  cases hb'
  exact ⟨⟨hused, hb⟩, ps, [], rfl, h.all, .nil⟩

/-- What `split_vgige` is given. The neighbours are different nodes with the loads of their links, and those that are
mapped have their base nodes. -/
structure SplitInput (q : SplitQuery N L) (s : Scheduling N L) (unmapped : List (NodeLoad N)) : Prop where
  base : q.lnk ∉ q.base
  links : ∀ n, q.lnk ∉ (s.node n).links
  range : InRange s
  nodup : (unmapped.map NodeLoad.node).Nodup
  loads : ∀ x ∈ unmapped, x.load = s.linkLoad q.root x.node
  ready : ∀ x ∈ unmapped, LinksReady s x.node

/-- A cluster that is not used yet. -/
structure Waiting (rounds : ℕ) (q : SplitQuery N L) (s : Scheduling N L) (c : MappingCluster N) : Prop where
  load : LoadOk c.load
  paired : c.nodesUsed.length ≤ c.rnodesUsed.length
  blocked : c.nodesUsed ≠ [] → Blocked rounds q s c

structure AtRound (rounds : ℕ) (q : SplitQuery N L) (s : Scheduling N L) (unmapped : List (NodeLoad N))
    (st : SplitState N L) : Prop where
  later : Later q s st.state
  range : InRange st.state
  nodes : st.unodes.Sublist unmapped
  gone : ∀ x ∈ usedNodes st.clusters, x ∉ st.unodes
  waiting : ∀ c ∈ st.clusters, c.used = false → Waiting rounds q st.state c

variable {unmapped : List (NodeLoad N)} {root : N} {ys : List (MappingCluster N)} {st st' : SplitState N L}

omit [DecidableEq N] in
theorem filter_used_eq {R : MappingCluster N → MappingCluster N → Prop} {cs' : List (MappingCluster N)}
    (hR : ∀ c c', R c c' → c.used = true ∧ c' = c ∨ c.used = false ∧ c'.used = false) (h : List.Forall₂ R cs cs') :
    (cs'.filter fun c => c.used) = cs.filter fun c => c.used := by
  induction h with
  | nil => rfl
  | cons hc _ ih =>
    obtain ⟨hused, rfl⟩ | ⟨hused, hused'⟩ := hR _ _ hc
    · rw [List.filter_cons_of_pos hused, List.filter_cons_of_pos hused, ih]
    · rw [List.filter_cons_of_neg (Bool.eq_false_iff.mp hused), List.filter_cons_of_neg (Bool.eq_false_iff.mp hused'),
        ih]

omit [DecidableEq L] in
theorem splitOk_congr {cs' : List (MappingCluster N)} (h : (cs'.filter fun c => c.used) = cs.filter fun c => c.used) :
    s.SplitOk root unmapped cs' ↔ s.SplitOk root unmapped cs := by
  have hnodes : usedNodes cs' = usedNodes cs := by
    unfold usedNodes
    rw [h]
  have hmem : ∀ c, c ∈ cs' ∧ c.used = true ↔ c ∈ cs ∧ c.used = true := fun c => by
    rw [← List.mem_filter, h, List.mem_filter]
  constructor <;> rintro ⟨hnodup, hsub, hmatched⟩
  · exact ⟨hnodes ▸ hnodup, hnodes ▸ hsub, fun c hc hu => hmatched c ((hmem c).mpr ⟨hc, hu⟩).1 hu⟩
  · exact ⟨hnodes ▸ hnodup, hnodes ▸ hsub, fun c hc hu => hmatched c ((hmem c).mp ⟨hc, hu⟩).1 hu⟩

omit [DecidableEq N] in
theorem usedNodes_perm {xs ys : List (MappingCluster N)} (hb : b.used = true) :
    (usedNodes (xs ++ b :: ys)).Perm (b.nodesUsed ++ usedNodes (xs ++ ys)) := by
  unfold usedNodes
  rw [List.filter_append, List.filter_append, List.filter_cons_of_pos hb, List.flatMap_append, List.flatMap_append,
    List.flatMap_cons]
  exact List.perm_append_comm_assoc _ _ _

omit [DecidableEq L] in
/-- A cluster more is used, and its nodes are none of the others'. -/
theorem splitOk_insert {cs ys : List (MappingCluster N)} (hnodup : (unmapped.map NodeLoad.node).Nodup)
    (hb : b.used = true) (hsub : b.nodesUsed.Sublist unmapped) (hnew : ∀ x ∈ usedNodes (cs ++ ys), x ∉ b.nodesUsed) :
    s.SplitOk root unmapped (cs ++ b :: ys) ↔ s.SplitOk root unmapped (cs ++ ys) ∧ s.Matched root b := by
  have hperm : (usedNodes (cs ++ b :: ys)).Perm _ := usedNodes_perm hb
  have hmem : ∀ c, c ∈ cs ++ b :: ys ↔ c = b ∨ c ∈ cs ++ ys := fun c => List.perm_middle.mem_iff.trans List.mem_cons
  constructor
  · rintro ⟨hn, hm, hmatched⟩
    refine ⟨⟨?_, fun x hx => hm x (hperm.mem_iff.mpr (List.mem_append_right _ hx)),
      fun c hc => hmatched c ((hmem c).mpr (.inr hc))⟩, hmatched b ((hmem b).mpr (.inl rfl)) hb⟩
    rw [(hperm.map _).nodup_iff, List.map_append] at hn
    exact hn.of_append_right
  · rintro ⟨⟨hn, hm, hmatched⟩, hmb⟩
    refine ⟨?_, fun x hx => ?_, fun c hc hu => ?_⟩
    · rw [(hperm.map _).nodup_iff, List.map_append]
      refine (hnodup.sublist (hsub.map _)).append hn fun u hu hu' => ?_
      obtain ⟨x, hx, rfl⟩ := List.mem_map.mp hu
      obtain ⟨y, hy, hxy⟩ := List.mem_map.mp hu'
      have heq := List.inj_on_of_nodup_map hnodup (hm y hy) (hsub.subset hx) hxy
      exact hnew y hy (heq ▸ hx)
    · obtain hx | hx := List.mem_append.mp (hperm.mem_iff.mp hx)
      · exact hsub.subset hx
      · exact hm x hx
    · obtain rfl | hc := (hmem c).mp hc
      · exact hmb
      · exact hmatched c hc hu

omit [DecidableEq L] in
/-- A cluster that is used has what belongs to its nodes exactly when it had no load and no base nodes before. -/
theorem Takes.matched_iff (h : Takes s xs c new) (hloads : ∀ x ∈ xs, x.load = s.linkLoad root x.node)
    (hc : c.nodesUsed = []) : s.Matched root { c.give new with used := true } ↔ c.load = 0 ∧ c.rnodesUsed = [] := by
  have hsum : ((c.give new).nodesUsed.map fun x => s.linkLoad root x.node).sum = (new.map fun p => p.1.load).sum := by
    unfold MappingCluster.give
    rw [hc, List.nil_append, List.map_map]
    refine congrArg List.sum (List.map_congr_left fun p hp => ?_)
    exact (hloads p.1 (h.nodes.subset (List.mem_map_of_mem hp))).symm
  constructor
  · rintro ⟨hload, -, hpaired⟩
    refine ⟨?_, ?_⟩
    · rw [hsum] at hload
      exact add_eq_right.mp hload
    · have hlen := hpaired.length_eq
      dsimp only [MappingCluster.give] at hlen
      rw [hc, List.nil_append, List.length_append, List.length_map, List.length_map] at hlen
      exact List.eq_nil_of_length_eq_zero (by omega)
  · rintro ⟨hload, hrnodes⟩
    refine ⟨?_, h.bound, ?_⟩
    · rw [hsum]
      show c.load + _ = _
      rw [hload, zero_add]
    · dsimp only [MappingCluster.give]
      rw [hc, hrnodes, List.nil_append, List.nil_append, List.forall₂_map_left_iff, List.forall₂_map_right_iff]
      exact List.forall₂_same.mpr h.found

omit [DecidableEq N] [DecidableEq L] in
theorem Takes.loadOk (h : Takes s xs c new) (hc : LoadOk c.load) : LoadOk (c.give new).load :=
  ⟨hc.1.trans h.grows, h.bound⟩

omit [DecidableEq N] in
theorem loadOk_giveBack (c : MappingCluster N) : LoadOk c.giveBack.load :=
  ⟨le_refl (0 : ℤ), show (0 : ℤ) ≤ MAX_INTERCLUSTER_CAPACITY by decide⟩

/-- A cluster that is not used waits for the next round. -/
theorem Waiting.next (h : c.used = false → Waiting rounds q s c) (hoff : Offered s xs c b)
    (hpass : PassedOver rounds q t b c')
    (hunused : c'.used = false) : Waiting rounds q t c' := by
  obtain ⟨hused, rfl⟩ | ⟨hused, hback⟩ := hpass
  · rw [hunused] at hused
    cases hused
  obtain ⟨hc, rfl⟩ | ⟨hc, new, rfl, htakes⟩ := hoff
  · rw [hc] at hused
    cases hused
  obtain rfl | ⟨rfl, hblocked⟩ := hback
  · exact ⟨loadOk_giveBack _, Nat.zero_le _, fun hne => absurd rfl hne⟩
  · refine ⟨htakes.loadOk (h hc).load, ?_, fun _ => hblocked⟩
    have hpaired := (h hc).paired
    dsimp only [MappingCluster.give]
    rw [List.length_append, List.length_append, List.length_map, List.length_map]
    omega

theorem choosesFresh_iff (hoff : offerAll rounds st.unodes st.clusters false st.state = some (cs, true, t))
    (hm : chooseLoop rounds q cs { state := t } = some m) (hbest : m.best = some b)
    (hc : st.clusters[m.before.length]? = some c) :
    ChoosesFresh rounds q st ↔ c.load = 0 ∧ c.rnodesUsed = [] := by
  refine ⟨fun h => h cs t m b c hoff hm hbest hc, fun h cs' t' m' b' c' hoff' hm' _ hc' => ?_⟩
  rw [hoff] at hoff'
  cases hoff'
  rw [hm] at hm'
  cases hm'
  rw [hc] at hc'
  cases hc'
  exact h

/-! ### A round -/

theorem exists_of_forall₂_middle {α β : Type} {R : α → β → Prop} {as : List α} {xs ys : List β} {y : β}
    (h : List.Forall₂ R as (xs ++ y :: ys)) :
    ∃ xs' x ys', as = xs' ++ x :: ys' ∧ List.Forall₂ R xs' xs ∧ R x y ∧ List.Forall₂ R ys' ys := by
  induction xs generalizing as with
  | nil =>
    obtain ⟨x, ys', hx, hys, rfl⟩ := List.forall₂_cons_right_iff.mp h
    exact ⟨[], x, ys', rfl, .nil, hx, hys⟩
  | cons z xs ih =>
    obtain ⟨z', as', hz, has, rfl⟩ := List.forall₂_cons_right_iff.mp h
    obtain ⟨xs', x, ys', rfl, hxs, hx, hys⟩ := ih has
    exact ⟨z' :: xs', x, ys', rfl, .cons hz hxs, hx, hys⟩

theorem exists_of_mem_right {α β : Type} {R : α → β → Prop} {as : List α} {bs : List β} {y : β}
    (h : List.Forall₂ R as bs) (hy : y ∈ bs) : ∃ x ∈ as, R x y := by
  obtain ⟨xs, ys, rfl⟩ := List.append_of_mem hy
  obtain ⟨xs', x, ys', rfl, -, hx, -⟩ := exists_of_forall₂_middle h
  exact ⟨x, List.mem_append_right _ List.mem_cons_self, hx⟩

/-- What the clusters that are used should be holds after the round when it held before and the round uses a cluster
that had been given nothing, if it uses one. If there is another round, one cluster more is used. -/
structure RoundOk (rounds : ℕ) (q : SplitQuery N L) (s : Scheduling N L) (unmapped : List (NodeLoad N))
    (st st' : SplitState N L) (more : Bool) : Prop where
  splitOk : s.SplitOk q.root unmapped st'.clusters ↔
    s.SplitOk q.root unmapped st.clusters ∧ ChoosesFresh rounds q st
  next : more = true → AtRound rounds q s unmapped st' ∧ st'.unodes ≠ [] ∧
    st'.clusters.length = st.clusters.length ∧
      (st'.clusters.filter fun c => c.used).length = (st.clusters.filter fun c => c.used).length + 1
  loads : (∀ c ∈ st.clusters, LoadOk c.load) → ∀ c ∈ st'.clusters, LoadOk c.load

/-- No cluster is used. -/
theorem RoundOk.quiet (h : (st'.clusters.filter fun c => c.used) = st.clusters.filter fun c => c.used)
    (hfresh : ChoosesFresh rounds q st)
    (hloads : (∀ c ∈ st.clusters, LoadOk c.load) → ∀ c ∈ st'.clusters, LoadOk c.load) :
    RoundOk rounds q s unmapped st st' false :=
  ⟨(splitOk_congr h).trans (and_iff_left hfresh).symm, nofun, hloads⟩

omit [DecidableEq N] [DecidableEq L] in
theorem filter_used_offered {cs' : List (MappingCluster N)} (h : List.Forall₂ (Offered s xs) cs cs') :
    (cs'.filter fun c => c.used) = cs.filter fun c => c.used := by
  refine filter_used_eq ?_ h
  rintro c c' (hc | ⟨hc, new, rfl, -⟩)
  · exact .inl hc
  · exact .inr ⟨hc, hc⟩

theorem filter_used_passedOver {cs' : List (MappingCluster N)} (h : List.Forall₂ (PassedOver rounds q s) cs cs') :
    (cs'.filter fun c => c.used) = cs.filter fun c => c.used := by
  refine filter_used_eq ?_ h
  rintro c c' (hc | ⟨hc, rfl | ⟨rfl, -⟩⟩)
  · exact .inl hc
  · exact .inr ⟨hc, hc⟩
  · exact .inr ⟨hc, hc⟩

omit [DecidableEq N] [DecidableEq L] in
theorem loadOk_offered {cs' : List (MappingCluster N)} (h : List.Forall₂ (Offered s xs) cs cs')
    (hcs : ∀ c ∈ cs, LoadOk c.load) : ∀ c' ∈ cs', LoadOk c'.load := by
  intro c' hc'
  obtain ⟨c, hc, ⟨-, rfl⟩ | ⟨-, new, rfl, htakes⟩⟩ := exists_of_mem_right h hc'
  · exact hcs c' hc
  · exact htakes.loadOk (hcs c hc)

theorem loadOk_passedOver {cs' : List (MappingCluster N)} (h : List.Forall₂ (PassedOver rounds q s) cs cs')
    (hcs : ∀ c ∈ cs, LoadOk c.load) : ∀ c' ∈ cs', LoadOk c'.load := by
  intro c' hc'
  obtain ⟨c, hc, ⟨-, rfl⟩ | ⟨-, rfl | ⟨rfl, -⟩⟩⟩ := exists_of_mem_right h hc'
  · exact hcs c' hc
  · exact loadOk_giveBack c
  · exact hcs c' hc

/-- A cluster is used. -/
theorem RoundOk.chosen (hin : SplitInput q s unmapped) (h : AtRound rounds q s unmapped st) (hres : Reserved st.state t)
    (hoff : offerAll rounds st.unodes st.clusters false st.state = some (cs, true, t))
    (hall : List.Forall₂ (Offered st.state st.unodes) st.clusters cs)
    (hm : chooseLoop rounds q cs { state := t } = some m) (hch : Choosing rounds q t cs m) (hbest : m.best = some b)
    (cost : ℤ) (more : Bool) (hmore : more = true → 1 < (st.unodes.filter (· ∉ b.nodesUsed)).length) :
    RoundOk rounds q s unmapped st {
      clusters := m.before ++ { b with used := true } :: m.after
      unodes := st.unodes.filter (· ∉ b.nodesUsed)
      cost
      state := m.state } more := by
  obtain ⟨⟨hunused, hopen⟩, xs, ys, rfl, hxs, hys⟩ := hch.chosen b hbest
  obtain ⟨xs₀, c, ys₀, hclusters, hxs₀, hc, hys₀⟩ := exists_of_forall₂_middle hall
  obtain ⟨hc, rfl⟩ | ⟨hc, new, rfl, htakes⟩ := hc
  · rw [hc] at hunused
    cases hunused
  have hwait := h.waiting c (by rw [hclusters]; exact List.mem_append_right _ List.mem_cons_self) hc
  -- a cluster that has kept its nodes has no path
  have hempty : c.nodesUsed = [] := by
    by_contra hne
    exact hopen ((hwait.blocked hne).later hres.later hin.base rfl hwait.load (htakes.loadOk hwait.load) htakes.grows)
  have htakes' : Takes s st.unodes c new := ⟨htakes.nodes,
    fun p hp => (foundFor_congr h.later.node).mp (htakes.found p hp), htakes.grows, htakes.bound⟩
  have hfresh : ChoosesFresh rounds q st ↔ c.load = 0 ∧ c.rnodesUsed = [] := by
    refine choosesFresh_iff hoff hm hbest ?_
    rw [hclusters, ← hxs.length_eq, ← hxs₀.length_eq, List.getElem?_append_right (Nat.le_refl _), Nat.sub_self]
    rfl
  have hfilter : ((m.before ++ m.after).filter fun c => c.used) = st.clusters.filter fun c => c.used := by
    rw [List.filter_append, filter_used_passedOver hxs, filter_used_passedOver hys, filter_used_offered hxs₀,
      filter_used_offered hys₀, hclusters, List.filter_append, List.filter_cons_of_neg (Bool.eq_false_iff.mp hc)]
  have hused : usedNodes (m.before ++ m.after) = usedNodes st.clusters := by
    unfold usedNodes
    rw [hfilter]
  have hsub : (c.give new).nodesUsed.Sublist st.unodes := by
    dsimp only [MappingCluster.give]
    rw [hempty, List.nil_append]
    exact htakes.nodes
  refine ⟨?_, fun hnext => ⟨⟨?_, hch.range, ?_, fun x hx hx' => ?_, fun k hk hu => ?_⟩, ?_, ?_, ?_⟩,
    fun hloads k hk => ?_⟩
  · refine (splitOk_insert (b := { c.give new with used := true }) hin.nodup rfl (hsub.trans h.nodes)
      fun x hx hx' => ?_).trans (and_congr (splitOk_congr hfilter) ?_)
    · rw [hused] at hx
      exact h.gone x hx (hsub.subset hx')
    · exact (htakes'.matched_iff (fun x hx => hin.loads x (h.nodes.subset hx)) hempty).trans hfresh.symm
  · exact h.later.trans (hres.later.trans hch.later)
  · exact List.filter_sublist.trans h.nodes
  · obtain ⟨hx₁, hx₂⟩ := List.mem_filter.mp hx'
    obtain hx | hx := List.mem_append.mp ((usedNodes_perm rfl).mem_iff.mp hx)
    · exact of_decide_eq_true hx₂ hx
    · rw [hused] at hx
      exact h.gone x hx hx₁
  · have hpassed : ∀ {as bs ds : List (MappingCluster N)}, as ⊆ st.clusters →
        List.Forall₂ (Offered st.state st.unodes) as bs → List.Forall₂ (PassedOver rounds q m.state) bs ds →
        k ∈ ds → Waiting rounds q m.state k := by
      intro as bs ds hsub hoffered hpass hkd
      obtain ⟨b', hb', hk'⟩ := exists_of_mem_right hpass hkd
      obtain ⟨c', hc', hb''⟩ := exists_of_mem_right hoffered hb'
      exact .next (h.waiting c' (hsub hc')) hb'' hk' hu
    obtain hk | hk := List.mem_append.mp hk
    · exact hpassed (by rw [hclusters]; exact List.subset_append_left _ _) hxs₀ hxs hk
    · obtain rfl | hk := List.mem_cons.mp hk
      · cases hu
      · refine hpassed (fun k hk => ?_) hys₀ hys hk
        rw [hclusters]
        exact List.mem_append_right _ (List.mem_cons_of_mem _ hk)
  · intro hnil
    have hlen := hmore hnext
    dsimp only at hnil
    rw [hnil] at hlen
    cases hlen
  · show (m.before ++ _ :: m.after).length = _
    rw [hclusters, List.length_append, List.length_append, List.length_cons, List.length_cons, hxs₀.length_eq,
      hxs.length_eq, hys₀.length_eq, hys.length_eq]
  · show ((m.before ++ _ :: m.after).filter _).length = _
    rw [← hfilter, List.filter_append, List.filter_append, List.filter_cons_of_pos rfl, List.length_append,
      List.length_append, List.length_cons, Nat.add_assoc]
  · have hcs := loadOk_offered hall hloads
    obtain hk | hk := List.mem_append.mp hk
    · exact loadOk_passedOver hxs (fun c hc => hcs c (List.mem_append_left _ hc)) k hk
    · obtain rfl | hk := List.mem_cons.mp hk
      · exact hcs (c.give new) (List.mem_append_right _ List.mem_cons_self)
      · exact loadOk_passedOver hys (fun c hc => hcs c (List.mem_append_right _ (List.mem_cons_of_mem _ hc))) k hk

theorem Begins.cons {st₁ : SplitState N L} (hst : st.unodes ≠ []) (hround : splitRound rounds q st = some (st₁, true))
    (h : Begins rounds q st₁ st') : Begins rounds q st st' := by
  induction h with
  | first => exact .next (.first hst) hround
  | next _ hnext ih => exact .next ih hnext

/-- A vgige that is mapped to a switch, with three machines. The two other switches have one host each: the first one
has the cores for the first machine, the second one has the memory for the others. -/
def twoHosts : Scheduling (Fin 9) (Fin 8) where
  node
    | 0 => { type := "vgige", links := [0, 1, 2], marked := true, mappedNode := some 4 }
    | 1 => { type := "vm", devType := "hosted", links := [0], coreCapacity := 8, memCapacity := 1 }
    | 2 => { type := "vm", devType := "hosted", links := [1], coreCapacity := 1, memCapacity := 8 }
    | 3 => { type := "vm", devType := "hosted", links := [2], coreCapacity := 1, memCapacity := 8 }
    | 4 => { devType := "infrastructure", links := [3, 4], marked := true, inNode := 1 }
    | 5 => { devType := "infrastructure", links := [3, 5], inNode := 2 }
    | 6 => { devType := "infrastructure", links := [4, 6], inNode := 3 }
    | 7 => { type := "host", hostedType := "vm", links := [5], hasVport := true, inNode := 2, coreCapacity := 8,
             memCapacity := 1, potentialCorecap := 8, potentialMemcap := 1, portCapacities := [(0, 10000)] }
    | 8 => { type := "host", hostedType := "vm", links := [6], hasVport := true, inNode := 3, coreCapacity := 1,
             memCapacity := 8, potentialCorecap := 1, potentialMemcap := 8, portCapacities := [(0, 10000)] }
  link
    | 0 => { node1 := 0, node2 := 1, capacity := 1000, rload := 200, lload := 1000 }
    | 1 => { node1 := 0, node2 := 2, capacity := 100, rload := 1100, lload := 100 }
    | 2 => { node1 := 0, node2 := 3, capacity := 100, rload := 1100, lload := 100 }
    | 3 => { node1 := 4, node2 := 5, capacity := 10000, potentialRcap := 10000, potentialLcap := 10000 }
    | 4 => { node1 := 4, node2 := 6, capacity := 10000, potentialRcap := 10000, potentialLcap := 10000 }
    | 5 => { node1 := 5, node2 := 7, capacity := 10000, potentialRcap := 10000, potentialLcap := 10000 }
    | 6 => { node1 := 6, node2 := 8, capacity := 10000, potentialRcap := 10000, potentialLcap := 10000 }
    | 7 => { node1 := 0, node2 := 0 }

def firstHost : MappingCluster (Fin 9) := { cluster := 5, nodes := [7] }

def secondHost : MappingCluster (Fin 9) := { cluster := 6, nodes := [8] }

def machineLoads : List (NodeLoad (Fin 9)) := [⟨1, 1000⟩, ⟨2, 100⟩, ⟨3, 100⟩]

theorem twoHosts_input {xs : List (NodeLoad (Fin 9))} (h : xs.Sublist machineLoads) :
    SplitInput (twoHosts.splitQuery 7 xs 0 4 [3, 4, 5, 6]) twoHosts xs := by
  have hloads : ∀ x ∈ machineLoads, x.load = twoHosts.linkLoad 0 x.node := by decide
  have hready : ∀ x ∈ machineLoads, LinksReady twoHosts x.node := by
    unfold LinksReady
    decide
  have hnodup : (machineLoads.map NodeLoad.node).Nodup := by decide
  refine ⟨?_, ?_, ⟨fun l => ⟨?_, ?_, ?_, ?_⟩, ?_, ?_⟩, hnodup.sublist (h.map _), fun x hx => hloads x (h.subset hx),
    fun x hx => hready x (h.subset hx)⟩
  · show (7 : Fin 8) ∉ [3, 4, 5, 6]
    decide
  · show ∀ n, (7 : Fin 8) ∉ (twoHosts.node n).links
    decide
  · revert l
    decide
  · revert l
    decide
  all_goals decide

/-- A cluster that is used has a base node too many, or too great a load. -/
theorem not_splitOk_of_any {s : Scheduling (Fin 9) (Fin 8)} {xs : List (NodeLoad (Fin 9))}
    {r : Option (ℤ × SplitState (Fin 9) (Fin 8))}
    (h : (r.any fun r => r.2.clusters.any fun c => c.used ∧ (c.nodesUsed.length ≠ c.rnodesUsed.length ∨
      c.load ≠ (c.nodesUsed.map fun x => s.linkLoad 0 x.node).sum)) = true) :
    ∃ cost fin, r = some (cost, fin) ∧ ¬s.SplitOk 0 xs fin.clusters := by
  cases r with
  | none => cases h
  | some r =>
  obtain ⟨cost, fin⟩ := r
  obtain ⟨c, hc, hbad⟩ := List.any_eq_true.mp h
  obtain ⟨hused, hbad⟩ := of_decide_eq_true hbad
  refine ⟨cost, fin, rfl, fun hok => ?_⟩
  obtain ⟨hload, -, hpaired⟩ := hok.matched c hc hused
  obtain hlen | hsum := hbad
  · exact hlen hpaired.length_eq
  · exact hsum hload

/-- The second host gives the machines back in the first round, and is used in the second one. And a cluster that has
been reset is used with the load of an earlier call. -/
theorem not_splitOk_twoHosts :
    (SplitInput (twoHosts.splitQuery 7 machineLoads 0 4 [3, 4, 5, 6]) twoHosts machineLoads ∧
      ∃ cost fin, twoHosts.splitVgige 11 3 7 [firstHost, secondHost] machineLoads 0 4 [3, 4, 5, 6] = some (cost, fin) ∧
        ¬twoHosts.SplitOk 0 machineLoads fin.clusters) ∧
    SplitInput (twoHosts.splitQuery 7 [⟨2, 100⟩, ⟨3, 100⟩] 0 4 [3, 4, 5, 6]) twoHosts [⟨2, 100⟩, ⟨3, 100⟩] ∧
      ∃ cost fin, twoHosts.splitVgige 11 2 7 [(twoHosts.resetCluster { secondHost with load := 300 }).1]
        [⟨2, 100⟩, ⟨3, 100⟩] 0 4 [3, 4, 5, 6] = some (cost, fin) ∧
          ¬twoHosts.SplitOk 0 [⟨2, 100⟩, ⟨3, 100⟩] fin.clusters :=
  ⟨⟨twoHosts_input (List.Sublist.refl _), not_splitOk_of_any (by decide)⟩,
    twoHosts_input (List.sublist_cons_self _ _), not_splitOk_of_any (by decide)⟩

end Scheduling

end OnlDaemons.Onldb

import Mathlib.Data.Set.Card
import OnlDaemons.Onldb.ShortestPaths

/-!
# The subnet of a link

The subnet is searched from vgige to vgige, and the list of the nodes found so far is the only account of what has been
seen. A link is kept only when it leads to a node that is new, so the links that are found form a tree.

## Main definitions

- `Scheduling.InSubnet`, `Scheduling.SubnetLink` — what can be reached through vgiges
- `Scheduling.Collects` — the search has found each of them once

## Main results

- `Scheduling.getSubnet_spec` — all nodes and a tree of links, for every topology
- `Scheduling.getSubnet_collects_iff` — all links if and only if the subnet is a tree
-/

namespace OnlDaemons.Onldb

namespace Scheduling

variable {N L : Type} (s : Scheduling N L)

/-! ### What the subnet is -/

/-- The link joins the node to another one. -/
def Joins (p : N) (l : L) (n : N) : Prop :=
  ((s.link l).node1 = p ∧ (s.link l).node2 = n) ∨ ((s.link l).node2 = p ∧ (s.link l).node1 = n)

/-- The link leaves the source by the port. -/
def Leaves (source : N) (port : ℕ) (l : L) (n : N) : Prop :=
  ((s.link l).node1 = source ∧ (s.link l).node1Port = port ∧ (s.link l).node2 = n) ∨
    ((s.link l).node2 = source ∧ (s.link l).node2Port = port ∧ (s.link l).node1 = n)

/-- The nodes that can be reached through vgiges, from a vgige or by a port of another node. -/
inductive InSubnet (source : N) (port : ℕ) : N → Prop
  | source : InSubnet source port source
  | leave {l : L} {n : N} (hv : s.vgige source = false) (hl : s.Leaves source port l n) : InSubnet source port n
  | pass {p : N} {l : L} {n : N} (hp : InSubnet source port p) (hv : s.vgige p = true) (hl : s.Joins p l n) :
      InSubnet source port n

/-- The links that these nodes are reached by, and all others at a vgige among them. -/
def SubnetLink (source : N) (port : ℕ) (l : L) : Prop :=
  (s.vgige source = false ∧ ∃ n, s.Leaves source port l n) ∨
    ∃ p n, s.InSubnet source port p ∧ s.vgige p = true ∧ s.Joins p l n

/-- Each node and each link of the subnet, once. -/
structure Collects (source : N) (port : ℕ) (subnet : SubnetInfo N L) : Prop where
  nodup_nodes : subnet.nodes.Nodup
  nodup_links : subnet.links.Nodup
  mem_nodes : ∀ n, n ∈ subnet.nodes ↔ s.InSubnet source port n
  mem_links : ∀ l, l ∈ subnet.links ↔ s.SubnetLink source port l

/-- As `add_link` leaves the topology: a link is in the lists of its two ends. -/
def Linked : Prop := ∀ l p, l ∈ (s.node p).links ↔ (s.link l).node1 = p ∨ (s.link l).node2 = p

/-! ### One node more -/

variable {s} {source : N} {port : ℕ}

theorem Joins.ends {p n : N} {l : L} (h : s.Joins p l n) : (s.link l).node1 = n ∨ (s.link l).node2 = n := by
  obtain ⟨-, h⟩ | ⟨-, h⟩ := h
  · exact .inr h
  · exact .inl h

theorem Leaves.joins {l : L} {n : N} (h : s.Leaves source port l n) : s.Joins source l n := by
  obtain ⟨h1, -, h2⟩ | ⟨h1, -, h2⟩ := h
  · exact .inl ⟨h1, h2⟩
  · exact .inr ⟨h1, h2⟩

variable (s source port) in
/-- What has been found is part of the subnet, with one link for each node behind the first. -/
structure Found (b : SubnetSearch N L) : Prop where
  nodup_nodes : b.nodes.Nodup
  nodup_links : b.links.Nodup
  count : b.links.length + 1 = b.nodes.length
  ends : ∀ l ∈ b.links, (s.link l).node1 ∈ b.nodes ∧ (s.link l).node2 ∈ b.nodes
  nodes : ∀ n ∈ b.nodes, s.InSubnet source port n
  links : ∀ l ∈ b.links, s.SubnetLink source port l
  pending : ∀ p ∈ b.pending, p ∈ b.nodes ∧ s.vgige p = true

variable (s) in
/-- Nodes are added, and the vgiges among them are pending behind those that were. -/
structure Extends (b b' : SubnetSearch N L) : Prop where
  nodes : ∀ n ∈ b.nodes, n ∈ b'.nodes
  pending : b.pending <+: b'.pending
  fresh : ∀ n ∈ b'.nodes, n ∈ b.nodes ∨ (s.vgige n = true → n ∈ b'.pending)

theorem Extends.refl (b : SubnetSearch N L) : s.Extends b b := ⟨fun _ h => h, List.prefix_refl _, fun _ h => .inl h⟩

theorem Extends.trans {b b' b'' : SubnetSearch N L} (h : s.Extends b b') (h' : s.Extends b' b'') :
    s.Extends b b'' where
  nodes n hn := h'.nodes n (h.nodes n hn)
  pending := h.pending.trans h'.pending
  fresh n hn := by
    obtain hn | hn := h'.fresh n hn
    · exact (h.fresh n hn).imp_right fun hp hv => h'.pending.subset (hp hv)
    · exact .inr hn

variable [DecidableEq N] [DecidableEq L]

/-- A link from a node that has been found. -/
theorem found_seeNode {b : SubnetSearch N L} {p n : N} {l : L} (h : Found s source port b) (hp : p ∈ b.nodes)
    (hj : s.Joins p l n) (hn : s.InSubnet source port n) (hl : s.SubnetLink source port l) :
    Found s source port (s.seeNode b n l) ∧ s.Extends b (s.seeNode b n l) ∧ n ∈ (s.seeNode b n l).nodes := by
  unfold seeNode
  by_cases hmem : n ∈ b.nodes
  · rw [if_pos hmem]
    exact ⟨h, .refl b, hmem⟩
  rw [if_neg hmem]
  -- one end of the link is new, so the link is
  have hnew : l ∉ b.links := by
    intro hlb
    obtain ⟨h1, h2⟩ := h.ends l hlb
    obtain rfl | rfl := hj.ends
    · exact hmem h1
    · exact hmem h2
  have hpend : n ∉ b.pending := fun hb => hmem (h.pending n hb).1
  have hends : (s.link l).node1 ∈ b.nodes ++ [n] ∧ (s.link l).node2 ∈ b.nodes ++ [n] := by
    obtain ⟨h1, h2⟩ | ⟨h1, h2⟩ := hj
    · rw [h1, h2]
      exact ⟨List.mem_append_left _ hp, List.mem_append_right _ List.mem_cons_self⟩
    · rw [h1, h2]
      exact ⟨List.mem_append_right _ List.mem_cons_self, List.mem_append_left _ hp⟩
  simp only [if_neg hnew, hpend, not_false_eq_true, and_true]
  refine ⟨⟨?_, ?_, ?_, ?_, ?_, ?_, ?_⟩, ⟨?_, ?_, ?_⟩, List.mem_append_right _ List.mem_cons_self⟩
  · exact h.nodup_nodes.append (List.nodup_singleton n) (List.disjoint_singleton.mpr hmem)
  · exact h.nodup_links.append (List.nodup_singleton l) (List.disjoint_singleton.mpr hnew)
  · simp only [List.length_append, List.length_singleton, h.count]
  · intro k hk
    obtain hk | hk := List.mem_append.mp hk
    · obtain ⟨h1, h2⟩ := h.ends k hk
      exact ⟨List.mem_append_left _ h1, List.mem_append_left _ h2⟩
    · rw [List.mem_singleton.mp hk]
      exact hends
  · intro m hm
    obtain hm | hm := List.mem_append.mp hm
    · exact h.nodes m hm
    · rwa [List.mem_singleton.mp hm]
  · intro k hk
    obtain hk | hk := List.mem_append.mp hk
    · exact h.links k hk
    · rwa [List.mem_singleton.mp hk]
  · intro q hq
    split at hq
    · next hv =>
      obtain hq | hq := List.mem_append.mp hq
      · exact ⟨List.mem_append_left _ (h.pending q hq).1, (h.pending q hq).2⟩
      · rw [List.mem_singleton.mp hq]
        exact ⟨List.mem_append_right _ List.mem_cons_self, hv⟩
    · exact ⟨List.mem_append_left _ (h.pending q hq).1, (h.pending q hq).2⟩
  · exact fun m hm => List.mem_append_left _ hm
  · show b.pending <+: if s.vgige n = true then b.pending ++ [n] else b.pending
    split
    · exact List.prefix_append _ _
    · exact List.prefix_refl _
  · intro m hm
    obtain hm | hm := List.mem_append.mp hm
    · exact .inl hm
    · rw [List.mem_singleton.mp hm]
      refine .inr fun hv => ?_
      show n ∈ if s.vgige n = true then b.pending ++ [n] else b.pending
      rw [if_pos hv]
      exact List.mem_append_right _ List.mem_cons_self

/-! ### The links of one node -/

/-- The far ends of the links of a list, as far as they are looked at. -/
def seeEach (s : Scheduling N L) (far : L → Option N) (b : SubnetSearch N L) (ls : List L) : SubnetSearch N L :=
  ls.foldl (fun b l => (far l).elim b fun n => s.seeNode b n l) b

theorem found_seeEach {far : L → Option N} {p : N} {ls : List L}
    (hfar : ∀ l ∈ ls, ∀ n ∈ far l, s.Joins p l n ∧ s.InSubnet source port n ∧ s.SubnetLink source port l)
    {b : SubnetSearch N L} (h : Found s source port b) (hp : p ∈ b.nodes) :
    Found s source port (s.seeEach far b ls) ∧ s.Extends b (s.seeEach far b ls) ∧
      ∀ l ∈ ls, ∀ n ∈ far l, n ∈ (s.seeEach far b ls).nodes := by
  induction ls generalizing b with
  | nil => exact ⟨h, .refl b, nofun⟩
  | cons l ls ih =>
    have hrest : ∀ k ∈ ls, ∀ n ∈ far k, s.Joins p k n ∧ s.InSubnet source port n ∧ s.SubnetLink source port k :=
      fun k hk => hfar k (List.mem_cons_of_mem _ hk)
    show Found s source port (s.seeEach far ((far l).elim b fun n => s.seeNode b n l) ls) ∧ _ ∧ _
    cases hl : far l with
    | none =>
      obtain ⟨hf, he, hall⟩ := ih hrest h hp
      refine ⟨hf, by simpa [seeEach, hl] using he, fun k hk n hn => ?_⟩
      have hk' : k ∈ ls := (List.mem_cons.mp hk).resolve_left fun hkl => by rw [hkl, hl] at hn; cases hn
      simpa [seeEach, hl] using hall k hk' n hn
    | some m =>
      obtain ⟨hj, hm, hsl⟩ := hfar l List.mem_cons_self m hl
      obtain ⟨hf, he, hmem⟩ := found_seeNode h hp hj hm hsl
      obtain ⟨hf', he', hall⟩ := ih hrest hf (he.nodes p hp)
      refine ⟨hf', by simpa [seeEach, hl] using he.trans he', fun k hk n hn => ?_⟩
      obtain rfl | hk := List.mem_cons.mp hk
      · obtain rfl : m = n := Option.some.inj (hl.symm.trans hn)
        simpa [seeEach, hl] using he'.nodes m hmem
      · simpa [seeEach, hl] using hall k hk n hn

/-- The other end of a link of a node. -/
def farEnd (s : Scheduling N L) (p : N) (l : L) : N := if (s.link l).node1 = p then (s.link l).node2 else (s.link l).node1

omit [DecidableEq L] in
theorem joins_farEnd (hs : s.Linked) {p : N} {l : L} (hl : l ∈ (s.node p).links) : s.Joins p l (s.farEnd p l) := by
  unfold farEnd
  split
  · next h => exact .inl ⟨h, rfl⟩
  · next h => exact .inr ⟨((hs l p).mp hl).resolve_left h, rfl⟩

omit [DecidableEq L] in
theorem Joins.farEnd_eq {p n : N} {l : L} (h : s.Joins p l n) : s.farEnd p l = n := by
  unfold farEnd
  obtain ⟨h1, h2⟩ | ⟨h1, h2⟩ := h
  · rw [if_pos h1, h2]
  · split
    · next hp => rw [h1, ← hp, h2]
    · exact h2

omit [DecidableEq N] [DecidableEq L] in
theorem Joins.mem_links (hs : s.Linked) {p n : N} {l : L} (h : s.Joins p l n) : l ∈ (s.node p).links :=
  (hs l p).mpr (h.imp And.left And.left)

/-- The far end of a link that leaves by the port. -/
def leavesTo (s : Scheduling N L) (source : N) (port : ℕ) (l : L) : Option N :=
  if (s.link l).node1 = source ∧ (s.link l).node1Port = port then some (s.link l).node2
  else if (s.link l).node2 = source ∧ (s.link l).node2Port = port then some (s.link l).node1
  else none

omit [DecidableEq L] in
theorem leaves_of_leavesTo {l : L} {n : N} (h : s.leavesTo source port l = some n) : s.Leaves source port l n := by
  unfold leavesTo at h
  split at h
  · next h1 => exact .inl ⟨h1.1, h1.2, Option.some.inj h⟩
  · split at h
    · next h2 => exact .inr ⟨h2.1, h2.2, Option.some.inj h⟩
    · cases h

omit [DecidableEq L] in
theorem Leaves.leavesTo_eq {l : L} {n : N} (h : s.Leaves source port l n) : s.leavesTo source port l = some n := by
  unfold leavesTo
  obtain ⟨h1, h2, h3⟩ | ⟨h1, h2, h3⟩ := h
  · rw [if_pos ⟨h1, h2⟩, h3]
  · split
    · next h4 => rw [h1, ← h4.1, h3]
    · rw [if_pos ⟨h1, h2⟩, h3]

theorem subnetVisit_eq (b : SubnetSearch N L) (p : N) :
    s.subnetVisit b p = s.seeEach (fun l => some (s.farEnd p l)) b (s.node p).links := rfl

theorem subnetStart_eq (hv : s.vgige source = false) :
    s.subnetStart source port = s.seeEach (s.leavesTo source port) { nodes := [source] } (s.node source).links := by
  rw [subnetStart, hv, if_neg Bool.false_ne_true, seeEach]
  apply congrArg (fun f => List.foldl f _ _)
  funext b l
  simp only [leavesTo]
  split
  · rfl
  · split
    · rfl
    · rfl

/-! ### The search -/

variable (s source port) in
/-- The search in the middle: the links of the vgiges that are not pending have been looked at, and those that leave
by the port. -/
structure Searching (b : SubnetSearch N L) : Prop where
  found : Found s source port b
  start : source ∈ b.nodes
  left : s.vgige source = false → ∀ l n, s.Leaves source port l n → n ∈ b.nodes
  passed : ∀ p ∈ b.nodes, s.vgige p = true → p ∈ b.pending ∨ ∀ l n, s.Joins p l n → n ∈ b.nodes

theorem searching_start (hs : s.Linked) : Searching s source port (s.subnetStart source port) := by
  have hfirst (pending : List N) (hp : ∀ p ∈ pending, p ∈ [source] ∧ s.vgige p = true) :
      Found s source port { nodes := [source], pending } := by
    refine ⟨List.nodup_singleton _, List.nodup_nil, rfl, (by intros; contradiction), fun n hn => ?_, (by intros; contradiction), hp⟩
    rw [List.mem_singleton.mp hn]
    exact .source
  cases hv : s.vgige source with
  | true =>
    have heq : s.subnetStart source port = { nodes := [source], pending := [source] } := by rw [subnetStart, if_pos hv]
    rw [heq]
    refine ⟨hfirst _ fun p hp => ⟨hp, by rwa [List.mem_singleton.mp hp]⟩, List.mem_cons_self, ?_, fun p hp _ => .inl hp⟩
    intro hf
    rw [hv] at hf
    cases hf
  | false =>
    rw [subnetStart_eq hv]
    have hfar : ∀ l ∈ (s.node source).links, ∀ n ∈ s.leavesTo source port l,
        s.Joins source l n ∧ s.InSubnet source port n ∧ s.SubnetLink source port l := by
      intro l _ n hn
      have hl := leaves_of_leavesTo hn
      exact ⟨hl.joins, .leave hv hl, .inl ⟨hv, n, hl⟩⟩
    obtain ⟨hf, he, hall⟩ := found_seeEach hfar (hfirst [] (by intros; contradiction)) List.mem_cons_self
    refine ⟨hf, he.nodes source List.mem_cons_self, fun _ l n hl => ?_, fun p hp hvp => ?_⟩
    · exact hall l (hl.joins.mem_links hs) n hl.leavesTo_eq
    · obtain hp | hp := he.fresh p hp
      · rw [List.mem_singleton.mp hp, hv] at hvp
        cases hvp
      · exact .inl (hp hvp)

/-- The first pending vgige is done. -/
theorem Searching.visit (hs : s.Linked) {b : SubnetSearch N L} (h : Searching s source port b) {p : N} {rest : List N}
    (hp : b.pending = p :: rest) :
    Searching s source port { s.subnetVisit b p with pending := (s.subnetVisit b p).pending.tail } := by
  have hmem : p ∈ b.pending := by rw [hp]; exact List.mem_cons_self
  obtain ⟨hnode, hv⟩ := h.found.pending p hmem
  have hin := h.found.nodes p hnode
  have hfar : ∀ l ∈ (s.node p).links, ∀ n ∈ some (s.farEnd p l),
      s.Joins p l n ∧ s.InSubnet source port n ∧ s.SubnetLink source port l := by
    intro l hl n hn
    have hj := joins_farEnd hs hl
    rw [Option.some.inj hn] at hj
    exact ⟨hj, .pass hin hv hj, .inr ⟨p, n, hin, hv, hj⟩⟩
  obtain ⟨hf, he, hall⟩ := found_seeEach hfar h.found hnode
  rw [← subnetVisit_eq] at hf he hall
  obtain ⟨new, hnew⟩ := he.pending
  have htail : (s.subnetVisit b p).pending.tail = rest ++ new := by rw [← hnew, hp]; rfl
  have hdone : ∀ l n, s.Joins p l n → n ∈ (s.subnetVisit b p).nodes := fun l n hj =>
    hall l (hj.mem_links hs) n (congrArg some hj.farEnd_eq)
  rw [htail]
  refine ⟨⟨hf.nodup_nodes, hf.nodup_links, hf.count, hf.ends, hf.nodes, hf.links, fun q hq => hf.pending q ?_⟩,
    he.nodes _ h.start, fun hv' l n hl => he.nodes n (h.left hv' l n hl), fun q hq hvq => ?_⟩
  · rw [← hnew, hp]
    exact List.mem_cons_of_mem _ hq
  · have hsplit : q ∈ (s.subnetVisit b p).pending → q ∈ rest ++ new ∨
        ∀ l n, s.Joins q l n → n ∈ (s.subnetVisit b p).nodes := by
      intro hq
      rw [← hnew, hp] at hq
      obtain rfl | hq := List.mem_cons.mp hq
      · exact .inr hdone
      · exact .inl hq
    obtain hq | hq := he.fresh q hq
    · obtain hq | hq := h.passed q hq hvq
      · exact hsplit (he.pending.subset hq)
      · exact .inr fun l n hj => he.nodes n (hq l n hj)
    · exact hsplit (hq hvq)

theorem subnetLoop_searching (hs : s.Linked) {rounds : ℕ} {b : SubnetSearch N L} {subnet : SubnetInfo N L}
    (h : Searching s source port b) (hl : s.subnetLoop rounds b = some subnet) :
    ∃ b', Searching s source port b' ∧ b'.pending = [] ∧ b'.toSubnetInfo = subnet := by
  induction rounds generalizing b with
  | zero => cases hl
  | succ rounds ih =>
    rw [subnetLoop] at hl
    split at hl
    · next hnil => exact ⟨b, h, hnil, Option.some.inj hl⟩
    · next p rest hp => exact ih (h.visit hs hp) hl

omit [DecidableEq N] [DecidableEq L] in
/-- When nothing is pending, nothing is left out. -/
theorem Searching.complete {b : SubnetSearch N L} (h : Searching s source port b) (hp : b.pending = []) {n : N}
    (hn : s.InSubnet source port n) : n ∈ b.nodes := by
  induction hn with
  | source => exact h.start
  | leave hv hl => exact h.left hv _ _ hl
  | pass _ hv hl ih =>
    obtain hq | hq := h.passed _ ih hv
    · rw [hp] at hq
      cases hq
    · exact hq _ _ hl

/-- The search ends with all nodes of the subnet and with links of it, one fewer than nodes. -/
theorem getSubnet_spec [Fintype N] (hs : s.Linked) {rounds : ℕ} (hrounds : Fintype.card N + 1 ≤ rounds) (source : N)
    (port : ℕ) :
    ∃ subnet, s.getSubnet rounds source port = some subnet ∧ subnet.nodes.Nodup ∧ subnet.links.Nodup ∧
      (∀ n, n ∈ subnet.nodes ↔ s.InSubnet source port n) ∧ (∀ l ∈ subnet.links, s.SubnetLink source port l) ∧
      subnet.links.length + 1 = subnet.nodes.length := by
  obtain ⟨subnet, hsub⟩ := Option.isSome_iff_exists.mp (getSubnet_isSome (s := s) hrounds source port)
  obtain ⟨b, hb, hnil, rfl⟩ := subnetLoop_searching hs (searching_start hs) hsub
  exact ⟨_, hsub, hb.found.nodup_nodes, hb.found.nodup_links, fun n => ⟨hb.found.nodes n, hb.complete hnil⟩,
    hb.found.links, hb.found.count⟩

/-- All links of the subnet are found if and only if there is one for each node but the first: no link of the subnet
closes a cycle, and no two are parallel. -/
theorem getSubnet_collects_iff [Fintype N] (hs : s.Linked) {rounds : ℕ} (hrounds : Fintype.card N + 1 ≤ rounds)
    (source : N) (port : ℕ) :
    (∃ subnet, s.getSubnet rounds source port = some subnet ∧ s.Collects source port subnet) ↔
      Set.ncard {l | s.SubnetLink source port l} + 1 = Set.ncard {n | s.InSubnet source port n} := by
  obtain ⟨subnet, hsub, hnodes, hlinks, hmem, hsound, hcount⟩ := getSubnet_spec hs hrounds source port
  have hnodeSet : {n | s.InSubnet source port n} = (subnet.nodes.toFinset : Set N) := by
    ext n
    rw [Set.mem_ofPred_eq, Finset.mem_coe, List.mem_toFinset, hmem]
  have hnodeCard : Set.ncard {n | s.InSubnet source port n} = subnet.nodes.length := by
    rw [hnodeSet, Set.ncard_coe_finset, List.toFinset_card_of_nodup hnodes]
  have hlinkCard : Set.ncard (subnet.links.toFinset : Set L) = subnet.links.length := by
    rw [Set.ncard_coe_finset, List.toFinset_card_of_nodup hlinks]
  have hsubset : (subnet.links.toFinset : Set L) ⊆ {l | s.SubnetLink source port l} := by
    intro l hl
    exact hsound l (List.mem_toFinset.mp (Finset.mem_coe.mp hl))
  -- a link of the subnet is in the list of one of its nodes
  have hfinite : Set.Finite {l | s.SubnetLink source port l} := by
    apply Set.Finite.subset (List.finite_toSet (subnet.nodes.flatMap fun n => (s.node n).links))
    rintro l (⟨-, n, hl⟩ | ⟨p, n, hp, -, hj⟩)
    · exact List.mem_flatMap.mpr ⟨source, (hmem _).mpr .source, hl.joins.mem_links hs⟩
    · exact List.mem_flatMap.mpr ⟨p, (hmem p).mpr hp, hj.mem_links hs⟩
  rw [hnodeCard, ← hcount, Nat.add_right_cancel_iff]
  constructor
  · rintro ⟨subnet', hsub', hcoll⟩
    obtain rfl : subnet = subnet' := Option.some.inj (hsub.symm.trans hsub')
    have hset : {l | s.SubnetLink source port l} = (subnet.links.toFinset : Set L) := by
      ext l
      rw [Set.mem_ofPred_eq, Finset.mem_coe, List.mem_toFinset, hcoll.mem_links]
    rw [hset, hlinkCard]
  · intro hcard
    have hset := Set.eq_of_subset_of_ncard_le hsubset (by rw [hcard, hlinkCard]) hfinite
    refine ⟨subnet, hsub, hnodes, hlinks, hmem, fun l => ⟨hsound l, fun hl => ?_⟩⟩
    have hl' : l ∈ (subnet.links.toFinset : Set L) := by
      rw [hset]
      exact hl
    exact List.mem_toFinset.mp (Finset.mem_coe.mp hl')

/-- Two vgiges with the links `ls` between them. -/
def twoVgiges (L : Type) (ls : List L) : Scheduling Bool L where
  node _ := { type := "vgige", links := ls }
  link _ := { node1 := false, node2 := true }

/-- The second of two parallel links is lost. -/
theorem parallelLinks_not_collected :
    (twoVgiges Bool [false, true]).Linked ∧
      ¬∃ subnet, (twoVgiges Bool [false, true]).getSubnet 3 false 0 = some subnet ∧
        (twoVgiges Bool [false, true]).Collects false 0 subnet := by
  refine ⟨show ∀ l p : Bool, l ∈ [false, true] ↔ false = p ∨ true = p by decide, ?_⟩
  rintro ⟨subnet, hsub, hcoll⟩
  have heval : (twoVgiges Bool [false, true]).getSubnet 3 false 0 = some ⟨[false, true], [false]⟩ := rfl
  obtain rfl : (⟨[false, true], [false]⟩ : SubnetInfo Bool Bool) = subnet := Option.some.inj (heval.symm.trans hsub)
  have hlink : (twoVgiges Bool [false, true]).SubnetLink false 0 true :=
    .inr ⟨false, true, .source, rfl, .inl ⟨rfl, rfl⟩⟩
  exact absurd ((hcoll.mem_links true).mpr hlink) (by decide)

theorem oneLink_collected :
    ∃ subnet, (twoVgiges Unit [()]).getSubnet 3 false 0 = some subnet ∧
      (twoVgiges Unit [()]).Collects false 0 subnet := by
  have hlinked : (twoVgiges Unit [()]).Linked := show ∀ (l : Unit) (p : Bool), l ∈ [()] ↔ false = p ∨ true = p by decide
  apply (getSubnet_collects_iff hlinked (by decide) false 0).mpr
  have hjoins : (twoVgiges Unit [()]).Joins false () true := .inl ⟨rfl, rfl⟩
  have hlinks : {l | (twoVgiges Unit [()]).SubnetLink false 0 l} = Set.univ :=
    Set.eq_univ_of_forall fun _ => .inr ⟨false, true, .source, rfl, hjoins⟩
  have hnodes : {n | (twoVgiges Unit [()]).InSubnet false 0 n} = Set.univ := by
    apply Set.eq_univ_of_forall
    intro n
    cases n with
    | false => exact .source
    | true => exact .pass .source rfl hjoins
  rw [hlinks, hnodes, Set.ncard_univ, Set.ncard_univ, Nat.card_eq_fintype_card, Nat.card_eq_fintype_card]
  rfl

end Scheduling

end OnlDaemons.Onldb

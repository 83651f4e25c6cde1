import Mathlib.Algebra.Order.Ring.Int
import OnlDaemons.Lib.NextFit
import OnlDaemons.Onldb.NeighborMapping

/-!
# The node that is found in a cluster

`find_available_node` goes through the nodes of a cluster and takes the first one with room for the node of the
request. A host with nodes of the request on it may be taken again for a hosted node. A node that is fixed is looked
for by its name, and a vgige takes the cluster itself.

Whether the links to the nodes that are mapped already can be mapped is asked of that node alone.

## Main definitions

- `Scheduling.StandsFor` — the base node that a node of the cluster stands for
- `Scheduling.RoomFor` — what is asked of the base node
- `Scheduling.portReads` — what the loop over the ports reads

## Main results

- `findAvailableNode_spec`
- `none_mem_portReads_iff`
-/

namespace OnlDaemons.Onldb

open OnlDaemons.Lib

namespace Scheduling

variable {N L : Type} [DecidableEq N] [DecidableEq L] (s : Scheduling N L)

/-- A node of the cluster is of the type or hosts it, or its parent is of the type. A fixed node is one by name. -/
def StandsFor (node : N) (fixed : Bool) (c n : N) : Prop :=
  if fixed then
    (s.node n).node = (s.node node).node ∧
      (n = c ∨ (s.node c).node ≠ (s.node node).node ∧ (s.node c).parent = some n)
  else
    ((s.node c).type = (s.node node).type ∨ (s.node c).hostedType = (s.node node).type) ∧ n = c ∨
      ¬((s.node c).type = (s.node node).type ∨ (s.node c).hostedType = (s.node node).type) ∧
        (s.node c).parent = some n ∧ (s.node n).type = (s.node node).type

/-- The used ports of the node go into the ports of the base node, both in their order. -/
def PortsPack (node n : N) : Prop :=
  Packs 0 ((s.node node).portCapacities.map Prod.snd) ((s.node n).portCapacities.map Prod.snd)

/-- The base node is free, unless a hosted node is looked for, and has the capacities. -/
structure RoomFor (cluster : MappingCluster N) (node : N) (fixed : Bool) (n : N) : Prop where
  unmarked : fixed = false → s.nodeHosted node = false → (s.node n).marked = false
  unused : s.nodeHosted node = false → n ∉ cluster.rnodesUsed
  cores : 0 < (s.node n).potentialCorecap ∧ (s.node node).coreCapacity ≤ (s.node n).potentialCorecap
  memory : (s.node node).memCapacity ≤ (s.node n).potentialMemcap
  ports : s.nodeHosted node = true ∨ (s.node n).hasVport = true ∧ (s.node node).portCapacities ≠ [] →
    s.PortsPack node n

/-- A node of the cluster stands for the base node, which has room. -/
def Available (cluster : MappingCluster N) (node : N) (fixed : Bool) (cs : List N) (n : N) : Prop :=
  (∃ c ∈ cs, s.StandsFor node fixed c n) ∧ s.RoomFor cluster node fixed n

/-- What the search may return: a base node with room and a cost for its links, or nothing if there is none, or if one
has no cost. There is no result when the cost of one has none. -/
def Finds (rounds : ℕ) (cluster : MappingCluster N) (node : N) (fixed : Bool) (cs : List N) :
    Option (Option N × Scheduling N L) → Prop
  | none => ∃ n, s.Available cluster node fixed cs n ∧ s.computePathCosts rounds node n = none
  | some (some n, s') => s.Available cluster node fixed cs n ∧
      ∃ cost, 0 ≤ cost ∧ s.computePathCosts rounds node n = some (cost, s')
  | some (none, s') => (∀ n, ¬s.Available cluster node fixed cs n) ∨
      ∃ n cost, s.Available cluster node fixed cs n ∧ cost < 0 ∧ s.computePathCosts rounds node n = some (cost, s')

/-! ### The ports -/

variable {s}

theorem packs_of_skipPorts {u : ℤ} {us : List ℤ} {used : ℤ} {rports : List (ℤ × ℤ)}
    (h : Packs (skipPorts u (used + u) rports).1 us ((skipPorts u (used + u) rports).2.map Prod.snd)) :
    Packs used (u :: us) (rports.map Prod.snd) := by
  induction rports generalizing used with
  | nil => exact absurd rfl h.ne_nil
  | cons r rs ih =>
    unfold skipPorts at h
    split at h
    · rw [show skipPorts u u rs = skipPorts u (0 + u) rs by rw [zero_add]] at h
      exact .close (ih h)
    · next hfit => exact .item (not_lt.mp hfit) h

theorem skipPorts_of_packs {u : ℤ} {us : List ℤ} {used : ℤ} {rports : List (ℤ × ℤ)} (hu : 0 ≤ u)
    (h : Packs used (u :: us) (rports.map Prod.snd)) :
    Packs (skipPorts u (used + u) rports).1 us ((skipPorts u (used + u) rports).2.map Prod.snd) := by
  induction rports generalizing used with
  | nil => exact absurd rfl h.ne_nil
  | cons r rs ih =>
    unfold skipPorts
    split
    · next hfit =>
      rw [show skipPorts u u rs = skipPorts u (0 + u) rs by rw [zero_add]]
      exact ih (h.later hfit)
    · exact h.put hu

theorem packs_of_enoughPorts {used : ℤ} {uports rports : List (ℤ × ℤ)} (h : enoughPorts used uports rports = true) :
    Packs used (uports.map Prod.snd) (rports.map Prod.snd) := by
  induction uports generalizing used rports with
  | nil =>
    cases rports with
    | nil => cases h
    | cons r rs => exact .done
  | cons u us ih =>
    unfold enoughPorts at h
    exact packs_of_skipPorts (ih ((Bool.and_eq_true _ _).mp h).2)

theorem enoughPorts_of_packs {used : ℤ} {uports rports : List (ℤ × ℤ)} (hcap : ∀ u ∈ uports, 0 ≤ u.2)
    (h : Packs used (uports.map Prod.snd) (rports.map Prod.snd)) : enoughPorts used uports rports = true := by
  induction uports generalizing used rports with
  | nil =>
    cases rports with
    | nil => exact absurd rfl h.ne_nil
    | cons r rs => rfl
  | cons u us ih =>
    have hskip := skipPorts_of_packs (hcap u List.mem_cons_self) h
    unfold enoughPorts
    refine (Bool.and_eq_true _ _).mpr ⟨?_, ih (fun x hx => hcap x (List.mem_cons_of_mem _ hx)) hskip⟩
    cases hrest : (skipPorts u.2 (used + u.2) rports).2 with
    | nil =>
      rw [hrest] at hskip
      exact absurd rfl hskip.ne_nil
    | cons r rs => rfl

/-- What the test of the inner loop reads; none is behind the last port. -/
def skipReads (cap : ℤ) : ℤ → List (ℤ × ℤ) → List (Option (ℤ × ℤ))
  | _, [] => [none]
  | total, r :: rs => some r :: if r.2 < total then skipReads cap cap rs else []

/-- What the two loops over the ports read of the base node. -/
def portReads : ℤ → List (ℤ × ℤ) → List (ℤ × ℤ) → List (Option (ℤ × ℤ))
  | _, [], _ => []
  | total, u :: uports, rports =>
    let r := skipPorts u.2 (total + u.2) rports
    skipReads u.2 (total + u.2) rports ++ if r.2.isEmpty then [] else portReads r.1 uports r.2

theorem none_mem_skipReads_iff {cap total : ℤ} {rports : List (ℤ × ℤ)} :
    none ∈ skipReads cap total rports ↔ (skipPorts cap total rports).2 = [] := by
  induction rports generalizing total with
  | nil => exact ⟨fun _ => rfl, fun _ => List.mem_singleton_self _⟩
  | cons r rs ih =>
    unfold skipReads skipPorts
    rw [List.mem_cons, or_iff_right (by exact fun h => by cases h)]
    split
    · exact ih
    · exact ⟨fun h => absurd h List.not_mem_nil, fun h => by cases h⟩

/-- The loop reads behind the last port when the ports do not suffice, and only then. -/
theorem none_mem_portReads_iff {total : ℤ} {uports rports : List (ℤ × ℤ)} (hne : uports ≠ []) :
    none ∈ portReads total uports rports ↔ enoughPorts total uports rports = false := by
  induction uports generalizing total rports with
  | nil => exact absurd rfl hne
  | cons u us ih =>
    unfold portReads enoughPorts
    dsimp only
    rw [List.mem_append, none_mem_skipReads_iff]
    cases hrest : (skipPorts u.2 (total + u.2) rports).2 with
    | nil => exact ⟨fun _ => rfl, fun _ => .inl rfl⟩
    | cons r rs =>
      rw [or_iff_right (List.cons_ne_nil _ _)]
      show none ∈ portReads _ us (r :: rs) ↔ enoughPorts _ us (r :: rs) = false
      cases us with
      | nil => exact ⟨fun h => absurd h List.not_mem_nil, fun h => by cases h⟩
      | cons v vs => exact ih (List.cons_ne_nil _ _)

/-- The second port of the node does not fit on the one port there is. -/
theorem none_mem_portReads_two :
    none ∈ portReads 0 [(0, 5), (1, 5)] [(0, 6)] ↔ enoughPorts 0 [(0, 5), (1, 5)] [(0, 6)] = false :=
  none_mem_portReads_iff (by decide)

/-! ### The loop over the nodes -/

variable {cluster : MappingCluster N} {node c n : N} {fixed : Bool} {rounds : ℕ}

omit [DecidableEq N] [DecidableEq L] in
/-- A node that is marked is passed over, unless a hosted node or a fixed one is looked for. -/
theorem nodeFor_eq_some_iff : s.nodeFor node fixed c = some n ↔
    s.StandsFor node fixed c n ∧ (fixed = false → s.nodeHosted node = false → (s.node n).marked = false) := by
  unfold nodeFor StandsFor
  cases fixed with
  | true =>
    simp only [if_true, Bool.true_eq_false, false_implies, and_true]
    by_cases hname : (s.node c).node = (s.node node).node
    · rw [if_pos hname, Option.some_inj]
      constructor
      · rintro rfl
        exact ⟨hname, .inl rfl⟩
      · rintro ⟨-, rfl | ⟨hno, -⟩⟩
        · rfl
        · exact absurd hname hno
    · rw [if_neg hname, Option.filter_eq_some_iff, decide_eq_true_iff]
      constructor
      · exact fun h => ⟨h.2, .inr ⟨hname, h.1⟩⟩
      · rintro ⟨hn, rfl | ⟨-, hparent⟩⟩
        · exact absurd hn hname
        · exact ⟨hparent, hn⟩
  | false =>
    simp only [Bool.false_eq_true, if_false, true_implies]
    rw [Option.filter_eq_some_iff, Bool.or_eq_true, Bool.not_eq_true']
    refine and_congr ?_ ?_
    · by_cases hfits : (s.node c).type = (s.node node).type ∨ (s.node c).hostedType = (s.node node).type
      · rw [if_pos hfits, Option.some_inj]
        constructor
        · rintro rfl
          exact .inl ⟨hfits, rfl⟩
        · rintro (⟨-, rfl⟩ | ⟨hno, -⟩)
          · rfl
          · exact absurd hfits hno
      · rw [if_neg hfits, Option.filter_eq_some_iff, decide_eq_true_iff]
        rw [not_or] at hfits
        constructor
        · exact fun h => .inr ⟨not_or.mpr hfits, h.1, h.2.resolve_right hfits.2⟩
        · rintro (⟨hyes, -⟩ | ⟨-, hparent, htype⟩)
          · exact absurd hyes (not_or.mpr hfits)
          · exact ⟨hparent, .inl htype⟩
    · cases s.nodeHosted node with
      | true => exact ⟨fun _ => nofun, fun _ => .inl rfl⟩
      | false => exact ⟨fun h _ => h.resolve_left nofun, fun h => .inr (h rfl)⟩

omit [DecidableEq N] [DecidableEq L] in
/-- What the loop asks of a base node is that it has room. -/
theorem roomFor_iff (hcap : ∀ u ∈ (s.node node).portCapacities, 0 ≤ u.2)
    (hm : fixed = false → s.nodeHosted node = false → (s.node n).marked = false) :
    s.RoomFor cluster node fixed n ↔ ¬(n ∈ cluster.rnodesUsed ∧ s.nodeHosted node = false) ∧
      (0 < (s.node n).potentialCorecap ∧ (s.node node).coreCapacity ≤ (s.node n).potentialCorecap ∧
        (s.node node).memCapacity ≤ (s.node n).potentialMemcap ∧
        ((s.nodeHosted node ∨ (s.node n).hasVport ∧ (s.node node).portCapacities ≠ []) →
          enoughPorts 0 (s.node node).portCapacities (s.node n).portCapacities)) := by
  constructor
  · intro h
    exact ⟨fun hused => h.unused hused.2 hused.1, h.cores.1, h.cores.2, h.memory,
      fun hports => enoughPorts_of_packs hcap (h.ports hports)⟩
  · rintro ⟨hused, hcore, hcores, hmem, hports⟩
    exact ⟨hm, fun hhosted hin => hused ⟨hin, hhosted⟩, ⟨hcore, hcores⟩, hmem,
      fun h => packs_of_enoughPorts (hports h)⟩

omit [DecidableEq N] [DecidableEq L] in
theorem Available.cons {cs : List N} (h : s.Available cluster node fixed cs n) :
    s.Available cluster node fixed (c :: cs) n :=
  ⟨h.1.imp fun _ hc => ⟨List.mem_cons_of_mem _ hc.1, hc.2⟩, h.2⟩

/-- The rest of the list decides when the first node does not stand for one with room. -/
theorem Finds.cons {cs : List N} {r : Option (Option N × Scheduling N L)} (h : s.Finds rounds cluster node fixed cs r)
    (hno : ∀ n, s.StandsFor node fixed c n → ¬s.RoomFor cluster node fixed n) :
    s.Finds rounds cluster node fixed (c :: cs) r := by
  match r with
  | none =>
    obtain ⟨n, hn, hnone⟩ := h
    exact ⟨n, hn.cons, hnone⟩
  | some (some n, s') => exact ⟨h.1.cons, h.2⟩
  | some (none, s') =>
    obtain hnone | ⟨n, cost, hn, hcost⟩ := h
    · refine .inl fun n hn => ?_
      obtain ⟨⟨c', hc', hstands⟩, hroom⟩ := hn
      obtain rfl | hc' := List.mem_cons.mp hc'
      · exact hno n hstands hroom
      · exact hnone n ⟨⟨c', hc', hstands⟩, hroom⟩
    · exact .inr ⟨n, cost, hn.cons, hcost⟩

/-- The loop takes the first base node with room. -/
theorem findAvailableLoop_finds (hcap : ∀ u ∈ (s.node node).portCapacities, 0 ≤ u.2) {cs : List N}
    (hname : fixed = true → ∀ c ∈ cs, ∀ c' ∈ cs, ∀ n n', s.StandsFor node fixed c n → s.StandsFor node fixed c' n' →
      n = n') :
    s.Finds rounds cluster node fixed cs (s.findAvailableLoop rounds cluster node fixed cs) := by
  induction cs with
  | nil =>
    refine .inl fun n h => ?_
    obtain ⟨c, hc, -⟩ := h.1
    exact List.not_mem_nil hc
  | cons c cs ih =>
    have ih := ih fun hf c₁ h₁ c₂ h₂ => hname hf c₁ (List.mem_cons_of_mem c h₁) c₂ (List.mem_cons_of_mem c h₂)
    unfold findAvailableLoop
    cases hfor : s.nodeFor node fixed c with
    | none =>
      refine ih.cons fun n hstands hroom => ?_
      rw [nodeFor_eq_some_iff.mpr ⟨hstands, hroom.unmarked⟩] at hfor
      cases hfor
    | some n =>
      obtain ⟨hstands, hm⟩ := nodeFor_eq_some_iff.mp hfor
      have honly : ∀ n', s.StandsFor node fixed c n' → s.RoomFor cluster node fixed n' → n' = n := by
        intro n' hstands' hroom'
        rw [nodeFor_eq_some_iff.mpr ⟨hstands', hroom'.unmarked⟩] at hfor
        exact Option.some.inj hfor
      have hiff : s.RoomFor cluster node fixed n ↔ _ := roomFor_iff hcap hm
      dsimp only
      split
      · next hused => exact ih.cons fun n' hs' hr' => (hiff.mp (honly n' hs' hr' ▸ hr')).1 hused
      next hused =>
      split
      · next hroom =>
        have havail : s.Available cluster node fixed (c :: cs) n :=
          ⟨⟨c, List.mem_cons_self, hstands⟩, hiff.mpr ⟨hused, hroom⟩⟩
        cases hcost : s.computePathCosts rounds node n with
        | none => exact ⟨n, havail, hcost⟩
        | some r =>
          obtain ⟨cost, s'⟩ := r
          rw [Option.map_some]
          by_cases hneg : cost < 0
          · rw [if_pos hneg]
            exact .inr ⟨n, cost, havail, hneg, hcost⟩
          · rw [if_neg hneg]
            exact ⟨havail, cost, not_lt.mp hneg, hcost⟩
      next hroom =>
      have hno : ¬s.RoomFor cluster node fixed n := fun hr => hroom (hiff.mp hr).2
      split
      · next hfixed =>
        refine .inl fun n' hn' => ?_
        obtain ⟨⟨c', hc', hstands'⟩, hroom'⟩ := hn'
        have heq := hname hfixed c' hc' c List.mem_cons_self n' n hstands' hstands
        exact hno (heq ▸ hroom')
      · exact ih.cons fun n' hs' hr' => hno (honly n' hs' hr' ▸ hr')

/-- A vgige is given the cluster. For another node, the search returns a base node that a node of the cluster stands
for and that has room, and returns nothing only if there is no such base node, or one whose links cannot be mapped. -/
theorem findAvailableNode_spec (s : Scheduling N L) (rounds : ℕ) (cluster : MappingCluster N) (node : N) (fixed : Bool)
    (hcap : ∀ u ∈ (s.node node).portCapacities, 0 ≤ u.2)
    (hname : fixed = true → ∀ c ∈ cluster.nodes, ∀ c' ∈ cluster.nodes, ∀ n n', s.StandsFor node fixed c n →
      s.StandsFor node fixed c' n' → n = n') :
    if s.vgige node = true ∧ cluster.cluster ∉ cluster.rnodesUsed then
      s.findAvailableNode rounds cluster node fixed = some (some cluster.cluster, s)
    else s.Finds rounds cluster node fixed cluster.nodes (s.findAvailableNode rounds cluster node fixed) := by
  unfold findAvailableNode
  split
  · rfl
  · exact findAvailableLoop_finds hcap hname

local instance neZero_hosts : NeZero 4 := ⟨by decide⟩

local instance neZero_ports : NeZero 1 := ⟨by decide⟩

/-- A node of the request, a node of the base topology without links, and a link of the request to a node that is
mapped. -/
def nodeAndBase (x y : SchedNode (Fin 4) (Fin 1)) : Scheduling (Fin 4) (Fin 1) where
  node n := match n with
    | 0 => x
    | 1 => y
    | 2 => { type := "pc", marked := true, mappedNode := some 3 }
    | 3 => { type := "pc" }
  link _ := { node1 := 0, node2 := 2 }

def oneNodeCluster : MappingCluster (Fin 4) := { cluster := 1, nodes := [1] }

/-- A virtual machine, and a host with a mark. -/
def oneHost : Scheduling (Fin 4) (Fin 1) :=
  nodeAndBase { type := "vm", devType := "hosted", coreCapacity := 1, portCapacities := [(0, 100)] }
    { type := "pc", hostedType := "vm", marked := true, potentialCorecap := 4, portCapacities := [(0, 1000)] }

/-- Two computers, the first with a link. -/
def linkedComputer : Scheduling (Fin 4) (Fin 1) :=
  nodeAndBase { type := "pc", links := [0] } { type := "pc", potentialCorecap := 1 }

theorem findAvailableNode_oneHost :
    if oneHost.vgige 0 = true ∧ oneNodeCluster.cluster ∉ oneNodeCluster.rnodesUsed then
      oneHost.findAvailableNode 1 oneNodeCluster 0 false = some (some oneNodeCluster.cluster, oneHost)
    else oneHost.Finds 1 oneNodeCluster 0 false oneNodeCluster.nodes
      (oneHost.findAvailableNode 1 oneNodeCluster 0 false) :=
  findAvailableNode_spec oneHost 1 oneNodeCluster 0 false (by decide) nofun

theorem linkedComputer_available : linkedComputer.Available oneNodeCluster 0 false oneNodeCluster.nodes 1 := by
  refine ⟨⟨1, List.mem_cons_self, .inl ⟨.inl rfl, rfl⟩⟩, ?_⟩
  constructor
  case unmarked => exact fun _ _ => rfl
  case unused => exact fun _ => List.not_mem_nil
  case cores => exact ⟨by decide, by decide⟩
  case memory => decide
  case ports =>
    rintro (h | ⟨h, -⟩)
    · exact absurd h (by decide)
    · exact absurd h (by decide)

/-- The host is found for the virtual machine although it is marked. A vgige is given a cluster that is marked, a fixed
node one of its name and of another type, a whole computer one without ports. No node is found for a computer whose link
cannot be mapped, although there is one with room. -/
theorem findAvailableNode_deviations :
    ((oneHost.findAvailableNode 1 oneNodeCluster 0 false).map Prod.fst = some (some 1) ∧
        (oneHost.node 1).marked = true) ∧
      ((nodeAndBase { type := "vgige" } { type := "switch", marked := true }).findAvailableNode 1 oneNodeCluster 0
        false).map Prod.fst = some (some 1) ∧
      ((nodeAndBase { type := "pc", node := "npr1" } { type := "npr", node := "npr1", potentialCorecap := 1
        }).findAvailableNode 1 oneNodeCluster 0 true).map Prod.fst = some (some 1) ∧
      ((nodeAndBase { type := "pc", portCapacities := [(0, 100)] } { type := "pc", potentialCorecap := 1
        }).findAvailableNode 1 oneNodeCluster 0 false).map Prod.fst = some (some 1) ∧
      (linkedComputer.findAvailableNode 2 oneNodeCluster 0 false).map Prod.fst = some none ∧
        linkedComputer.Available oneNodeCluster 0 false oneNodeCluster.nodes 1 :=
  ⟨⟨by decide, rfl⟩, by decide, by decide, by decide, by decide, linkedComputer_available⟩

end Scheduling

end OnlDaemons.Onldb

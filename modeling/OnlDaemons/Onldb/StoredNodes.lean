import Mathlib.Data.List.Dedup
import OnlDaemons.Onldb.StoredRows

/-!
# The stored nodes and the keys they are read with

Every node of a request is written under a name and a number. Those of a vswitch or a virtual
machine belong to it alone; two other nodes may be mapped to one base node.

## Main definitions

- `MappedNode.Reads` — a node that is read with this key has the same label mapping
- `MappedTopology.nodesRead` — the nodes in the order in which their rows are read
- `MappedTopology.keyRead` — the key a node is read with
-/

namespace OnlDaemons.Onldb

open Lib

/-! ### Numbers and names -/

theorem countP_take_lt {α : Type*} (p : α → Bool) (l : List α) {a b : ℕ} (hab : a < b)
    (ha : a < l.length) (hp : p l[a] = true) : (l.take a).countP p < (l.take b).countP p := by
  have hone : (l.take (a + 1)).countP p = (l.take a).countP p + 1 := by
    rw [List.take_add_one, List.getElem?_eq_getElem ha, List.countP_append]
    simp [hp]
  have hsub : (l.take (a + 1)).countP p ≤ (l.take b).countP p :=
    (List.take_sublist_take_left hab).countP_le
  omega

theorem toString_inj {m n : ℕ} (h : toString m = toString n) : m = n := by
  have h' : (Nat.toDigits 10 m) = Nat.toDigits 10 n := by
    simpa using congrArg String.toList h
  have := congrArg (fun l => Nat.ofDigitChars 10 l 0) h'
  simpa using this

theorem vgige_inj {m n : ℕ} (h : "vgige" ++ toString m = "vgige" ++ toString n) : m = n := by
  apply toString_inj
  have := congrArg String.toList h
  rw [String.toList_append, String.toList_append] at this
  exact String.toList_inj.mp (List.append_cancel_left this)

namespace MappedNode

/-- A node that is neither a vswitch nor a virtual machine has its base node for itself. -/
def isWhole (n : MappedNode) : Bool := !n.isVswitch && !n.isVm

/-- A node that reads back with the key `k` has the same label mapping. -/
def Reads (n : MappedNode) (k : Key) : Prop :=
  k.1 = n.node ∧ if n.isVswitch then k.2.2 = "vgige" else k.2.2 ≠ "vgige" ∧ k.2.1 = n.vmid

instance (n : MappedNode) (k : Key) : Decidable (n.Reads k) :=
  inferInstanceAs (Decidable (_ ∧ _))

end MappedNode

namespace MappedTopology

variable {t : MappedTopology} {a b : ℕ}

theorem isVswitch_out (ha : a < t.nodes.length) :
    (t.out a).isVswitch = (t.node a).isVswitch := by
  simp only [MappedNode.isVswitch, out_type ha]

theorem out_devType (ha : a < t.nodes.length) : (t.out a).devType = (t.node a).devType := by
  rw [t.out_eq ha]
  split_ifs <;> rfl

theorem isCluster_out (ha : a < t.nodes.length) :
    (t.out a).isCluster = (t.node a).isCluster := by
  simp only [MappedNode.isCluster, out_type ha, out_devType ha]

theorem out_vswitch (ha : a < t.nodes.length) (hv : (t.node a).isVswitch = true) :
    (t.out a).node = "vgige" ++ toString (t.vswitchNumber a) ∧
      (t.out a).vmid = t.vswitchNumber a := by
  have hv' : (t.node a).type = "vgige" := by simpa [MappedNode.isVswitch] using hv
  rw [t.out_eq ha, if_pos hv']
  exact ⟨rfl, rfl⟩

theorem out_node (ha : a < t.nodes.length) (hv : (t.node a).isVswitch = false) :
    (t.out a).node = (t.node a).node := by
  have hv' : (t.node a).type ≠ "vgige" := by simpa [MappedNode.isVswitch] using hv
  rw [t.out_eq ha, if_neg hv']
  split_ifs <;> rfl

theorem out_vmid (hw : t.Wf) (ha : a < t.nodes.length) (hv : (t.node a).isVswitch = false) :
    (t.out a).vmid = if (t.node a).isVm then t.vmNumber a else 0 := by
  have hv' : (t.node a).type ≠ "vgige" := by simpa [MappedNode.isVswitch] using hv
  rw [t.out_eq ha, if_neg hv']
  by_cases hc : (t.node a).devType = "hwcluster"
  · simpa [hc, MappedNode.isVm] using hw.cluster a ha (by simp [MappedNode.isCluster, hv', hc])
  · by_cases hh : (t.node a).devType = "hosted"
    · simp [hh, hv', MappedNode.isVm]
    · simp [hc, hh, MappedNode.isVm]

theorem getElem_node (ha : a < t.nodes.length) : t.nodes[a] = t.node a := by
  rw [node, List.getD_eq_getElem _ _ ha]

theorem vswitchNumber_le (ha : a < t.nodes.length) : t.vswitchNumber a ≤ t.nodes.length := by
  have := (t.nodes.take a).countP_le_length (p := MappedNode.isVswitch)
  rw [List.length_take, min_eq_left ha.le] at this
  unfold vswitchNumber
  omega

theorem vmNumber_le (ha : a < t.nodes.length) (hv : (t.node a).isVm = true) :
    t.vmNumber a ≤ t.nodes.length := by
  have hlt := countP_take_lt MappedNode.isVm t.nodes ha ha (by rwa [getElem_node ha])
  rw [List.take_length] at hlt
  -- no node is both a vswitch and a virtual machine
  have hsum : ∀ ns : List MappedNode,
      ns.countP MappedNode.isVswitch + ns.countP MappedNode.isVm ≤ ns.length := by
    intro ns
    induction ns with
    | nil => simp
    | cons n ns ih =>
      have : ¬(n.isVswitch = true ∧ n.isVm = true) := by
        simp only [MappedNode.isVswitch, MappedNode.isVm, decide_eq_true_eq]
        tauto
      rw [List.countP_cons, List.countP_cons, List.length_cons]
      split_ifs <;> first | omega | tauto
  have := hsum t.nodes
  unfold vmNumber
  omega

/-- Numbers counted by a property are different for different nodes that have it. -/
theorem countP_take_inj (p : MappedNode → Bool) (ha : a < t.nodes.length)
    (hb : b < t.nodes.length) (hpa : p (t.node a) = true) (hpb : p (t.node b) = true)
    (h : (t.nodes.take a).countP p = (t.nodes.take b).countP p) : a = b := by
  rcases lt_trichotomy a b with hab | hab | hab
  · have := countP_take_lt p t.nodes hab ha (by rwa [getElem_node ha])
    omega
  · exact hab
  · have := countP_take_lt p t.nodes hab hb (by rwa [getElem_node hb])
    omega

/-- The name and number a node is written with belong to no other node, but for nodes that have
their base node for themselves. -/
theorem out_inj (hw : t.Wf) (ha : a < t.nodes.length) (hb : b < t.nodes.length)
    (hk : (t.node b).isVswitch = (t.node a).isVswitch) (hname : (t.out b).node = (t.out a).node)
    (hvmid : (t.node a).isVswitch = false → (t.out b).vmid = (t.out a).vmid) :
    b = a ∨ (t.node a).isWhole = true ∧ (t.node b).isWhole = true := by
  by_cases hv : (t.node a).isVswitch = true
  · left
    rw [(out_vswitch ha hv).1, (out_vswitch hb (hk.trans hv)).1] at hname
    refine countP_take_inj MappedNode.isVswitch hb ha (hk.trans hv) hv ?_
    have := vgige_inj hname
    unfold vswitchNumber at this
    omega
  · have hv' : (t.node a).isVswitch = false := by simpa using hv
    have hvb : (t.node b).isVswitch = false := hk.trans hv'
    have h := hvmid hv'
    rw [out_vmid hw ha hv', out_vmid hw hb hvb] at h
    by_cases hma : (t.node a).isVm = true <;> by_cases hmb : (t.node b).isVm = true
    · left
      rw [if_pos hma, if_pos hmb] at h
      refine countP_take_inj MappedNode.isVm hb ha hmb hma ?_
      unfold vmNumber at h
      omega
    · rw [if_pos hma, if_neg hmb, vmNumber] at h
      omega
    · rw [if_neg hma, if_pos hmb, vmNumber] at h
      omega
    · right
      simp [MappedNode.isWhole, hv', hvb, hma, hmb]

/-- The nodes in the order in which their rows are read. -/
def nodesRead (db : Database) (t : MappedTopology) : List ℕ :=
  db.select ((List.range t.nodes.length).filter (fun a => (t.out a).isCluster)) ++
    db.select ((List.range t.nodes.length).filter (fun a => (t.out a).isVswitch)) ++
    db.select ((List.range t.nodes.length).filter (fun a =>
      !(t.out a).isVswitch && !(t.out a).isCluster))

/-- The key a node reads back with. -/
def keyRead (db : Database) (t : MappedTopology) (a : ℕ) : Key :=
  if (t.out a).isVswitch then ((t.out a).node, 0, "vgige")
  else if (t.out a).isCluster then
    ((t.out a).node, 0, Topology.lowercase ((db.hwclusters (t.out a).node).elim "" (·.tid)))
  else
    ((t.out a).node, smallint (t.out a).vmid,
      Topology.lowercase ((db.nodes (t.out a).node).elim "" (·.tid)))

end MappedTopology

theorem Database.select_perm {α : Type} (db : Database) (l : List α) : (db.select l).Perm l :=
  arrange_perm (db.order_perm _)

theorem Database.select_map {α β : Type} (db : Database) (f : α → β) (l : List α) :
    db.select (l.map f) = (db.select l).map f := by
  rw [select, arrange_map, List.length_map, select]

namespace Stored

variable {db : Database} {t : MappedTopology}

/-- Each node is read once. -/
theorem nodesRead_perm (db : Database) (t : MappedTopology) :
    (t.nodesRead db).Perm (List.range t.nodes.length) := by
  have hall : ∀ l : List ℕ, (l.filter (fun a => (t.out a).isCluster) ++
      l.filter (fun a => (t.out a).isVswitch) ++
      l.filter (fun a => !(t.out a).isVswitch && !(t.out a).isCluster)).Perm l := by
    intro l
    have hcv : ∀ n : MappedNode, n.isVswitch = true → n.isCluster = false := by
      intro n hv
      simp only [MappedNode.isVswitch, decide_eq_true_eq] at hv
      simp [MappedNode.isCluster, hv]
    have hcount : ∀ (p : ℕ → Bool) (x : ℕ),
        (l.filter p).count x = if p x then l.count x else 0 := by
      intro p x
      split
      · exact List.count_filter ‹_›
      · exact List.count_eq_zero.mpr (fun hx => ‹¬_› (List.mem_filter.mp hx).2)
    rw [List.perm_iff_count]
    intro x
    simp only [List.count_append, hcount]
    cases hv : (t.out x).isVswitch <;> cases hc : (t.out x).isCluster
    · simp
    · simp
    · simp
    · rw [hcv _ hv] at hc
      cases hc
  refine List.Perm.trans ?_ (hall _)
  exact ((db.select_perm _).append (db.select_perm _)).append (db.select_perm _)

theorem nodesRead_lt {a : ℕ} (ha : a ∈ t.nodesRead db) : a < t.nodes.length :=
  List.mem_range.mp ((nodesRead_perm db t).mem_iff.mp ha)

/-- What a node reads back with. -/
theorem keyRead_spec (h : Stored db t) (hw : t.Wf) (hf : t.Fits) {a : ℕ}
    (ha : a < t.nodes.length) : (t.keyRead db a).1 = (t.out a).node ∧
      ((t.keyRead db a).2.2 = "vgige" ↔ (t.node a).isVswitch = true) ∧
      ((t.node a).isVswitch = false → (t.keyRead db a).2.1 = (t.out a).vmid) := by
  unfold MappedTopology.keyRead
  rw [MappedTopology.isVswitch_out ha, MappedTopology.isCluster_out ha]
  by_cases hv : (t.node a).isVswitch = true
  · simp [hv]
  · have hv' : (t.node a).isVswitch = false := by simpa using hv
    rw [if_neg hv, MappedTopology.out_node ha hv']
    have hvmid := MappedTopology.out_vmid hw ha hv'
    by_cases hc : (t.node a).isCluster = true
    · obtain ⟨e, he⟩ := Option.isSome_iff_exists.mp (h.cluster a ha hc)
      have hvm : (t.node a).isVm = false := by
        simp only [MappedNode.isCluster, decide_eq_true_eq] at hc
        simp [MappedNode.isVm, hc]
      simp [hc, he, hv', db.hwclusters_type _ _ he, hvmid, hvm]
    · obtain ⟨e, he⟩ := Option.isSome_iff_exists.mp (h.node a ha hv hc)
      have hsmall : (t.out a).vmid < 65536 := by
        have := hf.nodes
        rw [hvmid]
        split
        · exact lt_of_le_of_lt (MappedTopology.vmNumber_le ha ‹_›) hf.nodes
        · omega
      simp [hc, he, hv', db.nodes_type _ _ he, smallint_of_lt hsmall]

/-- The keys that `get_topology` gives to the nodes. -/
theorem keys_eq (h : Stored db t) {order : List ℕ} (ho : t.Written order) (hf : t.Fits) :
    db.keys (addReservation t) = (t.nodesRead db).map (t.keyRead db) := by
  have hmem : ∀ {p : ℕ → Bool} {a : ℕ},
      a ∈ db.select ((List.range t.nodes.length).filter p) → a < t.nodes.length ∧ p a = true := by
    intro p a ha
    have := List.mem_filter.mp ((db.select_perm _).mem_iff.mp ha)
    exact ⟨List.mem_range.mp this.1, this.2⟩
  have hclusters : (addReservation t).hwclusterschedule =
      ((List.range t.nodes.length).filter (fun a => (t.out a).isCluster)).map
        (fun a => ⟨(t.out a).node, (t.out a).fixed⟩) := by
    change (t.scheduled.filter _).map _ = _
    rw [t.scheduled_eq_map, List.filter_map, List.map_map]
    rfl
  have hnodes : (addReservation t).nodeschedule =
      ((List.range t.nodes.length).filter (fun a =>
        !(t.out a).isVswitch && !(t.out a).isCluster)).map (fun a =>
          ⟨(t.out a).node, (t.out a).fixed, smallint (t.out a).vmid, smallint (t.out a).coreCapacity,
            smallint (t.out a).memCapacity⟩) := by
    change (t.scheduled.filter _).map _ = _
    rw [t.scheduled_eq_map, List.filter_map, List.map_map]
    congr 1
    apply List.filter_congr
    intro a _
    by_cases hv : (t.out a).type = "vgige" <;> by_cases hc : (t.out a).devType = "hwcluster" <;>
      simp [MappedNode.isVswitch, MappedNode.isCluster, hv, hc]
  have hvmid : ∀ a < t.nodes.length, (t.out a).isVswitch = true →
      smallint (t.out a).vmid = t.vswitchNumber a := by
    intro a ha hv
    rw [MappedTopology.isVswitch_out ha] at hv
    rw [(MappedTopology.out_vswitch ha hv).2]
    exact smallint_of_lt (lt_of_le_of_lt (MappedTopology.vswitchNumber_le ha) hf.nodes)
  have hvswitches : ((addReservation t).vswitchschedule.map (·.vlanid)).dedup =
      ((List.range t.nodes.length).filter (fun a => (t.out a).isVswitch)).map
        t.vswitchNumber := by
    rw [ho.vswitches, t.scheduled_eq_map, List.filter_map, List.map_map]
    have heq : ((List.range t.nodes.length).filter (MappedNode.isVswitch ∘ t.out)).map
        ((fun n => smallint n.vmid) ∘ t.out) =
        ((List.range t.nodes.length).filter (fun a => (t.out a).isVswitch)).map
          t.vswitchNumber := by
      apply List.map_congr_left
      intro a ha
      have := List.mem_filter.mp ha
      exact hvmid a (List.mem_range.mp this.1) this.2
    rw [heq, List.dedup_eq_self]
    refine List.Nodup.map_on ?_ (List.nodup_range.filter _)
    intro a ha b hb hab
    have ha' := List.mem_filter.mp ha
    have hb' := List.mem_filter.mp hb
    have hal := List.mem_range.mp ha'.1
    have hbl := List.mem_range.mp hb'.1
    have hva := ha'.2
    have hvb := hb'.2
    simp only [MappedTopology.isVswitch_out hal, MappedTopology.isVswitch_out hbl] at hva hvb
    refine MappedTopology.countP_take_inj MappedNode.isVswitch hal hbl hva hvb ?_
    unfold MappedTopology.vswitchNumber at hab
    omega
  unfold Database.keys MappedTopology.nodesRead
  rw [hclusters, hnodes, hvswitches, Database.select_map, Database.select_map,
    Database.select_map, List.map_append, List.map_append, List.filterMap_map, List.map_map,
    List.filterMap_map]
  congr 1
  · congr 1
    · rw [← List.filterMap_eq_map]
      apply List.filterMap_congr
      intro a ha
      obtain ⟨hlt, hc⟩ := hmem ha
      have hc' := hc
      rw [MappedTopology.isCluster_out hlt] at hc'
      have hv : (t.node a).isVswitch = false := by
        simp only [MappedNode.isCluster, decide_eq_true_eq] at hc'
        simp [MappedNode.isVswitch, hc'.1]
      obtain ⟨e, he⟩ := Option.isSome_iff_exists.mp (h.cluster a hlt hc')
      rw [← MappedTopology.out_node hlt hv] at he
      rw [← MappedTopology.isVswitch_out hlt] at hv
      simp [clusterKey, MappedTopology.keyRead, hc, hv, he]
    · apply List.map_congr_left
      intro a ha
      obtain ⟨hlt, hv⟩ := hmem ha
      have hv' := hv
      rw [MappedTopology.isVswitch_out hlt] at hv'
      simp [vswitchKey, MappedTopology.keyRead, hv, (MappedTopology.out_vswitch hlt hv').1]
  · rw [← List.filterMap_eq_map]
    apply List.filterMap_congr
    intro a ha
    obtain ⟨hlt, hp⟩ := hmem ha
    simp only [Bool.and_eq_true, Bool.not_eq_true'] at hp
    have hv := hp.1
    have hc := hp.2
    rw [MappedTopology.isVswitch_out hlt] at hv
    rw [MappedTopology.isCluster_out hlt] at hc
    obtain ⟨e, he⟩ := Option.isSome_iff_exists.mp (h.node a hlt (by simp [hv]) (by simp [hc]))
    rw [← MappedTopology.out_node hlt hv] at he
    simp [nodeKey, MappedTopology.keyRead, hp.1, hp.2, he]

end Stored

end OnlDaemons.Onldb

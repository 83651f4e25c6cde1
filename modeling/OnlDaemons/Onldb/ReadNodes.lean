import OnlDaemons.Onldb.GetTopology

/-!
# The nodes that are read back

The reader labels its nodes from 1 on as it goes through the clusters, the vswitches and the
nodes, and finds the ends of links by `get_label`: the first node that answers to a name.

## Main definitions

- `Named t ks` — the nodes of a topology are labelled in order and have the keys `ks`
- `Database.keys` — the keys in the order they are read
-/

namespace OnlDaemons.Onldb

open Lib

/-- The name, the number and the type of a node. -/
abbrev Key := String × ℕ × String

def NodeResource.key (n : NodeResource) : Key := (n.node, n.vmid, n.type)

/-- The nodes have the labels from 1 on and the given keys. -/
structure Named (t : Topology) (ks : List Key) : Prop where
  keys : t.nodes.map NodeResource.key = ks
  label : ∀ i < t.nodes.length, (t.node i).label = i + 1

/-- The test of `get_label`. -/
def Key.Answers (k : Key) (name : String) (vmid : ℕ) : Prop :=
  k.1 = name ∧ (k.2.1 = vmid ∨ vmid = 0 ∨ k.2.2 = "vgige")

instance (k : Key) (name : String) (vmid : ℕ) : Decidable (k.Answers name vmid) :=
  inferInstanceAs (Decidable (_ ∧ _))

theorem Named.key {t : Topology} {ks : List Key} (h : Named t ks) {i : ℕ}
    (hi : i < t.nodes.length) : ks[i]? = some (t.node i).key := by
  rw [← h.keys, List.getElem?_map, List.getElem?_eq_getElem hi, Topology.node,
    List.getD_eq_getElem _ _ hi, Option.map_some]

/-- `get_label` finds the first node that answers. -/
theorem Named.getLabel {t : Topology} {ks : List Key} (h : Named t ks) {name : String} {vmid : ℕ}
    {k : Key} (hk : ks.find? (fun k => k.Answers name vmid) = some k) :
    ∃ i < t.nodes.length, t.getLabel name vmid = i + 1 ∧ (t.node i).key = k := by
  rw [← h.keys, List.find?_map, Option.map_eq_some_iff] at hk
  obtain ⟨n, hn, rfl⟩ := hk
  obtain ⟨-, i, hi, hni, -⟩ := List.find?_eq_some_iff_getElem.mp hn
  have hnode : t.node i = n := by rw [Topology.node, List.getD_eq_getElem _ _ hi, hni]
  refine ⟨i, hi, ?_, by rw [hnode]⟩
  have hfind : t.nodes.find? (fun n => n.node = name ∧
      (n.vmid = vmid ∨ vmid = 0 ∨ n.type = "vgige")) = some n := hn
  rw [Topology.getLabel, hfind, ← hnode]
  exact h.label i hi

/-- The name of the node that a label of `get_label` belongs to. -/
theorem Named.name_of_getLabel {t : Topology} {ks : List Key} (h : Named t ks) {name : String}
    {vmid i : ℕ} (hi : i < t.nodes.length) (hl : t.getLabel name vmid = i + 1) :
    (t.node i).node = name := by
  unfold Topology.getLabel at hl
  split at hl
  · rename_i n hn
    obtain ⟨hp, j, hj, hnj, -⟩ := List.find?_eq_some_iff_getElem.mp hn
    have hnode : t.node j = n := by rw [Topology.node, List.getD_eq_getElem _ _ hj, hnj]
    rw [← hnode, h.label j hj] at hl
    obtain rfl : j = i := by omega
    rw [hnode]
    exact (decide_eq_true_iff.mp hp).1
  · omega

theorem setBack_append (t : Topology) (nodes : List NodeResource) (n : NodeResource)
    (f : NodeResource → NodeResource) (h : t.nodes = nodes ++ [n]) :
    (t.setBack f).nodes = nodes ++ [f n] := by
  have hlen : t.nodes.length - 1 = nodes.length := by simp [h]
  rw [Topology.setBack, hlen, h]
  apply List.ext_getElem
  · simp
  · intro i h₁ h₂
    rw [List.getElem_modify]
    by_cases hi : i < nodes.length
    · rw [if_neg (by omega), List.getElem_append_left hi, List.getElem_append_left hi]
    · obtain rfl : i = nodes.length := by simp at h₂; omega
      simp

/-- A node is added under the next label and its fields are filled in. -/
theorem Named.addNode {t t' : Topology} {ks : List Key} (h : Named t ks) {type : String}
    {parentLabel : ℕ} {hasVport : Bool} {cores mem : ℕ} {f : NodeResource → NodeResource} {k : Key}
    (hadd : t.addNode type (ks.length + 1) parentLabel hasVport cores mem = .ok t')
    (hf : ∀ n : NodeResource, n.vmid = 0 → n.type = Topology.lowercase type →
      (f n).label = n.label ∧ (f n).key = k) :
    Named (t'.setBack f) (ks ++ [k]) ∧ (t'.setBack f).links = t.links := by
  have hlen : t.nodes.length = ks.length := by rw [← h.keys, List.length_map]
  -- only a parent changes among the old nodes, and neither its key nor its label
  have key : ∃ (nodes : List NodeResource) (n : NodeResource), t'.nodes = nodes ++ [n] ∧
      t'.links = t.links ∧ nodes.length = t.nodes.length ∧
      (∀ i < t.nodes.length, (nodes.getD i default).label = (t.node i).label ∧
        (nodes.getD i default).key = (t.node i).key) ∧
      n.vmid = 0 ∧ n.type = Topology.lowercase type ∧ n.label = ks.length + 1 := by
    unfold Topology.addNode at hadd
    split at hadd
    · cases hadd
    split at hadd
    · cases hadd
      exact ⟨t.nodes, _, rfl, rfl, rfl, fun i _ => ⟨rfl, rfl⟩, rfl, rfl, rfl⟩
    · split at hadd
      · cases hadd
      · rename_i p hp
        cases hadd
        refine ⟨_, _, rfl, rfl, by simp, fun i hi => ?_, rfl, rfl, rfl⟩
        rw [Topology.getD_modify _ _ _ _ hi]
        split <;> exact ⟨rfl, rfl⟩
  obtain ⟨nodes, n, hnodes, hlinks, hl, hold, hvmid, htype, hlabel⟩ := key
  obtain ⟨hfl, hfk⟩ := hf n hvmid htype
  have hback := setBack_append t' nodes n f hnodes
  refine ⟨⟨?_, ?_⟩, hlinks⟩
  · rw [hback, List.map_append, List.map_singleton, hfk]
    congr 1
    rw [← h.keys]
    apply List.ext_getElem
    · simp [hl]
    · intro i h₁ h₂
      have hi : i < t.nodes.length := by simpa using h₂
      have := (hold i hi).2
      rw [List.getD_eq_getElem _ _ (by omega), Topology.node, List.getD_eq_getElem _ _ hi] at this
      simpa using this
  · intro i hi
    rw [Topology.node, hback]
    rw [hback, List.length_append, List.length_singleton, hl] at hi
    by_cases hit : i < t.nodes.length
    · rw [List.getD_append _ _ _ _ (by omega), (hold i hit).1]
      exact h.label i hit
    · obtain rfl : i = t.nodes.length := by omega
      rw [← hl, List.getD_append_right _ _ _ _ le_rfl, Nat.sub_self]
      simp [hfl, hlabel, hl, hlen]

/-- The keys under which the rows of each table are read. -/
def clusterKey (db : Database) (row : ClusterRow) : Option Key :=
  (db.hwclusters row.cluster).map (fun e => (row.cluster, 0, Topology.lowercase e.tid))

def vswitchKey (vlanid : ℕ) : Key := ("vgige" ++ toString vlanid, 0, "vgige")

def nodeKey (db : Database) (row : NodeRow) : Option Key :=
  (db.nodes row.node).map (fun e => (row.node, row.vmid, Topology.lowercase e.tid))

theorem readClusters_named {db : Database} {rows : List ClusterRow} {t t' : Topology}
    {ks : List Key} {hwid : ℕ} (h : Named t ks)
    (hread : readClusters db rows (ks.length + 1) t = .ok (hwid, t')) :
    Named t' (ks ++ rows.filterMap (clusterKey db)) ∧ t'.links = t.links ∧
      hwid = (ks ++ rows.filterMap (clusterKey db)).length + 1 := by
  induction rows generalizing t ks with
  | nil =>
    cases hread
    simpa using h
  | cons row rows ih =>
    unfold readClusters at hread
    split at hread
    · rename_i hnone
      rw [List.filterMap_cons_none (by simp [clusterKey, hnone])]
      exact ih h hread
    · rename_i e he
      split at hread
      · cases hread
      · rename_i t₁ hadd
        rw [List.filterMap_cons_some (b := (row.cluster, 0, Topology.lowercase e.tid))
          (by simp [clusterKey, he])]
        obtain ⟨hnamed, hlinks⟩ := h.addNode (k := (row.cluster, 0, Topology.lowercase e.tid))
          (f := fillCluster row e) hadd
          (fun n hv ht => ⟨rfl, by simp [NodeResource.key, fillCluster, hv, ht]⟩)
        have hread' : readClusters db rows ((ks ++ [(row.cluster, 0,
            Topology.lowercase e.tid)]).length + 1) (t₁.setBack (fillCluster row e)) = .ok (hwid, t') := by
          simpa using hread
        obtain ⟨h1, h2, h3⟩ := ih hnamed hread'
        rw [List.append_assoc, List.singleton_append] at h1 h3
        exact ⟨h1, h2.trans hlinks, h3⟩

theorem readVswitches_named {vs : List ℕ} {t t' : Topology} {ks : List Key} {hwid : ℕ}
    (h : Named t ks) (hread : readVswitches vs (ks.length + 1) t = .ok (hwid, t')) :
    Named t' (ks ++ vs.map vswitchKey) ∧ t'.links = t.links ∧
      hwid = (ks ++ vs.map vswitchKey).length + 1 := by
  induction vs generalizing t ks with
  | nil =>
    cases hread
    simpa using h
  | cons v vs ih =>
    unfold readVswitches at hread
    split at hread
    · cases hread
    · rename_i t₁ hadd
      obtain ⟨hnamed, hlinks⟩ := h.addNode (k := vswitchKey v)
        (f := fillVswitch v) hadd (fun n hv ht => ⟨rfl, by
          have hlow : Topology.lowercase "vgige" = "vgige" := by decide
          simp [NodeResource.key, fillVswitch, vswitchKey, hv, ht, hlow]⟩)
      have hread' : readVswitches vs ((ks ++ [vswitchKey v]).length + 1)
          (t₁.setBack (fillVswitch v)) = .ok (hwid, t') := by
        simpa using hread
      obtain ⟨h1, h2, h3⟩ := ih hnamed hread'
      rw [List.append_assoc, List.singleton_append] at h1 h3
      exact ⟨h1, h2.trans hlinks, h3⟩

theorem readNodes_named {db : Database} {rows : List NodeRow} {t t' : Topology}
    {ks : List Key} {hwid : ℕ} (h : Named t ks)
    (hread : readNodes db rows (ks.length + 1) t = .ok (hwid, t')) :
    Named t' (ks ++ rows.filterMap (nodeKey db)) ∧ t'.links = t.links := by
  induction rows generalizing t ks with
  | nil =>
    cases hread
    simpa using h
  | cons row rows ih =>
    unfold readNodes at hread
    split at hread
    · rename_i hnone
      rw [List.filterMap_cons_none (by simp [nodeKey, hnone])]
      exact ih h hread
    · rename_i e he
      simp only at hread
      split at hread
      · cases hread
      split at hread
      · cases hread
      rename_i tp htp
      split at hread
      · cases hread
      · rename_i t₁ hadd
        rw [List.filterMap_cons_some (b := (row.node, row.vmid, Topology.lowercase e.tid))
          (by simp [nodeKey, he])]
        obtain ⟨hnamed, hlinks⟩ := h.addNode (k := (row.node, row.vmid, Topology.lowercase e.tid))
          (f := fillNode row e tp) hadd
          (fun n _ ht => ⟨rfl, by simp [NodeResource.key, fillNode, ht]⟩)
        have hread' : readNodes db rows ((ks ++ [(row.node, row.vmid,
            Topology.lowercase e.tid)]).length + 1) (t₁.setBack (fillNode row e tp)) = .ok (hwid, t') := by
          simpa using hread
        obtain ⟨h1, h2⟩ := ih hnamed hread'
        rw [List.append_assoc, List.singleton_append] at h1
        exact ⟨h1, h2.trans hlinks⟩

/-- The keys of all nodes in the order they are read. -/
def Database.keys (db : Database) (tb : Tables) : List Key :=
  (db.select tb.hwclusterschedule).filterMap (clusterKey db) ++
    (db.select (tb.vswitchschedule.map (·.vlanid)).dedup).map vswitchKey ++
    (db.select tb.nodeschedule).filterMap (nodeKey db)

/-- What is left to read once the nodes are read. -/
theorem getTopology_nodes {db : Database} {u : Uninitialised} {tb : Tables} {t' : Topology}
    (h : getTopology db u tb = .ok t') :
    ∃ t, Named t (db.keys tb) ∧ t.links = [] ∧
      ((db.selectByLinkid tb.connschedule).filterMap (ConnRow.join db) = [] ∧ t' = t ∨
        ∃ row rows, (db.selectByLinkid tb.connschedule).filterMap (ConnRow.join db) = row :: rows ∧
          readLinks db tb (db.select tb.linkschedule) (row :: rows) 1
            ((Reading.first u row).lookup t (db.select tb.linkschedule)) t = .ok t') := by
  unfold getTopology at h
  have hempty : Named {} [] := ⟨rfl, by simp⟩
  cases h₁ : readClusters db (db.select tb.hwclusterschedule) 1 {} with
  | error e => simp [h₁, bind, Except.bind] at h
  | ok p₁ =>
    obtain ⟨hw₁, t₁⟩ := p₁
    obtain ⟨hn₁, hl₁, rfl⟩ := readClusters_named hempty h₁
    simp only [h₁, bind, Except.bind] at h
    split at h
    · cases h
    · rename_i p₂ h₂
      obtain ⟨hw₂, t₂⟩ := p₂
      obtain ⟨hn₂, hl₂, rfl⟩ := readVswitches_named hn₁ h₂
      simp only at h
      split at h
      · cases h
      · rename_i p₃ h₃
        obtain ⟨hw₃, t₃⟩ := p₃
        obtain ⟨hn₃, hl₃⟩ := readNodes_named hn₂ h₃
        refine ⟨t₃, by simpa [Database.keys] using hn₃, ?_, ?_⟩
        · rw [hl₃, hl₂, hl₁]
        · simp only at h
          cases hrows : (db.selectByLinkid tb.connschedule).filterMap (ConnRow.join db) with
          | nil =>
            rw [hrows] at h
            cases h
            exact Or.inl ⟨rfl, rfl⟩
          | cons row rows =>
            rw [hrows] at h
            exact Or.inr ⟨row, rows, rfl, h⟩

end OnlDaemons.Onldb

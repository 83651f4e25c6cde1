import OnlDaemons.Onldb.ReadLinks
import OnlDaemons.Onldb.ReservationQueries

/-!
# What a reservation is read back to take

An operation that has read a reservation looks at its nodes one by one. The nodes that are read
are the clusters, the vswitches and the nodes of its rows, and a cluster is marked as a parent as
soon as one of its nodes is read. Reading the links changes none of this.

## Main definitions

- `NodeResource.topNode` — what the operations on the schedule look at of a node
- `ReadTops` — the nodes read so far, and the clusters that have a node among them

## Main result

- `getTopology_tops` — the nodes that `get_topology` reads
-/

namespace OnlDaemons.Onldb

open Lib

/-- `get_topology` leaves `dev_type` empty. -/
def NodeResource.topNode (n : NodeResource) : TopNode where
  type := n.type
  devType := ""
  node := n.node
  fixed := n.fixed
  hasParent := n.parent.isSome
  isParent := n.isParent
  vmid := n.vmid
  coreCapacity := .ofNat n.coreCapacity
  memCapacity := .ofNat n.memCapacity

/-- A node apart from whether it has children. -/
def TopNode.alone (hw : TopNode) : TopNode := { hw with isParent := false }

/-- The nodes that are made from the rows of each table. -/
def clusterTop (db : Database) (row : ClusterRow) : Option TopNode :=
  (db.hwclusters row.cluster).map fun e =>
    ⟨Topology.lowercase e.tid, "", row.cluster, row.fixed, false, false, 0, 1, 1⟩

def vswitchTop (vlanid : ℕ) : TopNode :=
  ⟨"vgige", "", "vgige" ++ toString vlanid, false, false, false, 0, 1, 1⟩

def nodeTop (db : Database) (row : NodeRow) : Option TopNode :=
  (db.nodes row.node).map fun e =>
    ⟨Topology.lowercase e.tid, "", row.node, row.fixed, e.cluster.isSome, false, row.vmid,
      .ofNat row.cores, .ofNat row.memory⟩

/-- The nodes that are read are `tops`, and the parents among them have the names `parents`. -/
structure ReadTops (t : Topology) (tops : List TopNode) (parents : List String) : Prop where
  tops : t.nodes.map (fun n => n.topNode.alone) = tops
  label : ∀ i < t.nodes.length, (t.node i).label = i + 1
  name : ∀ n ∈ t.nodes, n.isParent = true → n.node ∈ parents
  parent : ∀ c ∈ parents, ∃ n ∈ t.nodes, n.node = c ∧ n.isParent = true

theorem readTops_empty : ReadTops {} [] [] where
  tops := rfl
  label := by simp
  name := by simp
  parent := by simp

/-- The node that `add_node` makes. -/
def newNode (type : String) (label : ℕ) (hasVport : Bool) (cores mem : ℕ) : NodeResource where
  type := Topology.lowercase type
  label := label
  hasVport := hasVport
  coreCapacity := cores
  memCapacity := mem

/-- What `add_node` does to the list of nodes. -/
theorem addNode_nodes {t t' : Topology} {type : String} {label parentLabel : ℕ} {hasVport : Bool}
    {cores mem : ℕ} (h : t.addNode type label parentLabel hasVport cores mem = .ok t') :
    parentLabel = 0 ∧ t'.nodes = t.nodes ++ [newNode type label hasVport cores mem] ∨
      ∃ p, t.findNode parentLabel = some p ∧ t'.nodes = t.nodes.modify p (fun n =>
        { n with isParent := true, nodeChildren := n.nodeChildren ++ [t.nodes.length] }) ++
          [{ newNode type label hasVport cores mem with parent := some p }] := by
  unfold Topology.addNode at h
  split at h
  · cases h
  split at h
  · rename_i hzero
    cases h
    exact .inl ⟨hzero,rfl⟩
  split at h
  · cases h
  · rename_i p hp
    cases h
    exact .inr ⟨p,hp,rfl⟩

namespace ReadTops

variable {t t' : Topology} {tops : List TopNode} {parents : List String}

theorem length (h : ReadTops t tops parents) : t.nodes.length = tops.length := by
  rw [← h.tops,List.length_map]

theorem named (h : ReadTops t tops parents) : Named t (t.nodes.map NodeResource.key) :=
  ⟨rfl,h.label⟩

/-- Nodes that are put at the end, with nothing changed before but what a new child changes. -/
theorem snoc (h : ReadTops t tops parents) {nodes : List NodeResource} {n : NodeResource}
    {parents' : List String} (hnodes : t'.nodes = nodes ++ [n])
    (htops : nodes.map (fun n => n.topNode.alone) = t.nodes.map fun n => n.topNode.alone)
    (hlabel : ∀ i < t.nodes.length, (nodes.getD i default).label = (t.node i).label)
    (hname : ∀ n ∈ nodes, n.isParent = true → n.node ∈ parents')
    (hparent : ∀ c ∈ parents', ∃ n ∈ nodes, n.node = c ∧ n.isParent = true)
    (hn : n.label = tops.length + 1) (hleaf : n.isParent = false) :
    ReadTops t' (tops ++ [n.topNode.alone]) parents' where
  tops := by rw [hnodes,List.map_append,htops,h.tops,List.map_singleton]
  label := by
    have hlen : nodes.length = t.nodes.length := by simpa using congrArg List.length htops
    intro i hi
    rw [hnodes,List.length_append,List.length_singleton,hlen] at hi
    rw [Topology.node,hnodes]
    by_cases hit : i < t.nodes.length
    · rw [List.getD_append _ _ _ _ (hlen ▸ hit),hlabel i hit]
      exact h.label i hit
    · obtain rfl : i = t.nodes.length := by omega
      rw [← hlen,List.getD_append_right _ _ _ _ le_rfl,Nat.sub_self]
      simp [hn,hlen,h.length]
  name := by
    intro m hm hp
    rw [hnodes,List.mem_append,List.mem_singleton] at hm
    rcases hm with hm | rfl
    · exact hname m hm hp
    · rw [hleaf] at hp
      cases hp
  parent := by
    intro c hc
    obtain ⟨m,hm,hmc⟩ := hparent c hc
    exact ⟨m,hnodes ▸ List.mem_append_left _ hm,hmc⟩

/-- A node without a parent is added and its fields are filled in. -/
theorem addRoot (h : ReadTops t tops parents) {type : String} {hasVport : Bool} {cores mem : ℕ}
    {f : NodeResource → NodeResource} {w : TopNode}
    (hadd : t.addNode type (tops.length + 1) 0 hasVport cores mem = .ok t')
    (hf : ∀ n : NodeResource, n.type = Topology.lowercase type → n.parent = none →
      n.vmid = 0 → n.fixed = false → n.coreCapacity = cores → n.memCapacity = mem →
      (f n).label = n.label ∧ (f n).isParent = n.isParent ∧ (f n).topNode.alone = w) :
    ReadTops (t'.setBack f) (tops ++ [w]) parents := by
  obtain ⟨-,hnodes⟩ | ⟨p,hp,-⟩ := addNode_nodes hadd
  · obtain ⟨hlabel,hleaf,htop⟩ :=
      hf (newNode type (tops.length + 1) hasVport cores mem) rfl rfl rfl rfl rfl rfl
    rw [← htop]
    exact h.snoc (setBack_append t' _ _ f hnodes) rfl (fun _ _ => rfl) h.name h.parent hlabel hleaf
  · have hlt := Topology.findNode_lt hp
    have hl := Topology.findNode_label hp
    rw [h.label p hlt] at hl
    omega

/-- A node with a parent is added and its fields are filled in. -/
theorem addChild (h : ReadTops t tops parents) {type c : String} {hasVport : Bool}
    {cores mem : ℕ} {f : NodeResource → NodeResource} {w : TopNode}
    (hadd : t.addNode type (tops.length + 1) (t.getLabel c 0) hasVport cores mem = .ok t')
    (hc : t.getLabel c 0 ≠ 0)
    (hf : ∀ n : NodeResource, n.type = Topology.lowercase type → n.parent.isSome = true →
      n.fixed = false → n.coreCapacity = cores → n.memCapacity = mem →
      (f n).label = n.label ∧ (f n).isParent = n.isParent ∧ (f n).topNode.alone = w) :
    ReadTops (t'.setBack f) (tops ++ [w]) (c :: parents) := by
  obtain ⟨hzero,-⟩ | ⟨p,hp,hnodes⟩ := addNode_nodes hadd
  · exact absurd hzero hc
  have hlt := Topology.findNode_lt hp
  have hpc : (t.node p).node = c := by
    have hlabel : t.getLabel c 0 = p + 1 := by
      rw [← Topology.findNode_label hp]
      exact h.label p hlt
    exact h.named.name_of_getLabel hlt hlabel
  have hmem : ∀ {m : NodeResource}, m ∈ t.nodes.modify p (fun n =>
      { n with isParent := true, nodeChildren := n.nodeChildren ++ [t.nodes.length] }) →
      ∃ i < t.nodes.length, m = if p = i then { t.node i with
        isParent := true
        nodeChildren := (t.node i).nodeChildren ++ [t.nodes.length] } else t.node i := by
    intro m hm
    obtain ⟨i,hi,rfl⟩ := List.getElem_of_mem hm
    rw [List.length_modify] at hi
    refine ⟨i,hi,?_⟩
    rw [List.getElem_modify,Topology.node,List.getD_eq_getElem _ _ hi]
  obtain ⟨hlabel,hleaf,htop⟩ := hf
    { newNode type (tops.length + 1) hasVport cores mem with parent := some p } rfl rfl rfl rfl rfl
  rw [← htop]
  refine h.snoc (setBack_append t' _ _ f hnodes) ?_ ?_ ?_ ?_ hlabel hleaf
  · apply List.ext_getElem
    · simp
    · intro i h₁ h₂
      rw [List.getElem_map,List.getElem_modify,List.getElem_map]
      split <;> rfl
  · intro i hi
    rw [Topology.getD_modify _ _ _ _ hi]
    split <;> rfl
  · intro m hm hmp
    obtain ⟨i,hi,rfl⟩ := hmem hm
    split
    · rename_i hpi
      subst hpi
      exact hpc ▸ List.mem_cons_self
    · rename_i hpi
      rw [if_neg hpi] at hmp
      refine List.mem_cons_of_mem _ (h.name _ ?_ hmp)
      rw [Topology.node,List.getD_eq_getElem _ _ hi]
      exact List.getElem_mem hi
  · intro d hd
    have hget : ∀ i < t.nodes.length, (t.nodes.modify p (fun n =>
        { n with isParent := true, nodeChildren := n.nodeChildren ++ [t.nodes.length] })).getD i
          default ∈ t.nodes.modify p fun n =>
            { n with isParent := true, nodeChildren := n.nodeChildren ++ [t.nodes.length] } := by
      intro i hi
      rw [List.getD_eq_getElem _ _ (by simpa using hi)]
      exact List.getElem_mem _
    rcases List.mem_cons.1 hd with rfl | hd
    · refine ⟨_,hget p hlt,?_⟩
      rw [Topology.getD_modify _ _ _ _ hlt,if_pos rfl]
      exact ⟨hpc,rfl⟩
    · obtain ⟨n,hn,hnd,hnp⟩ := h.parent d hd
      obtain ⟨i,hi,rfl⟩ := List.getElem_of_mem hn
      refine ⟨_,hget i hi,?_⟩
      rw [Topology.getD_modify _ _ _ _ hi,List.getD_eq_getElem _ _ hi]
      split
      · exact ⟨hnd,rfl⟩
      · exact ⟨hnd,hnp⟩

/-- A change that the operations do not see. -/
theorem congr (h : ReadTops t tops parents)
    (hsame : t'.nodes.map (fun n => (n.topNode,n.label)) =
      t.nodes.map fun n => (n.topNode,n.label)) : ReadTops t' tops parents := by
  have hlen : t'.nodes.length = t.nodes.length := by simpa using congrArg List.length hsame
  have hnode : ∀ i (hi' : i < t'.nodes.length) (hi : i < t.nodes.length),
      t'.nodes[i].topNode = t.nodes[i].topNode ∧ t'.nodes[i].label = t.nodes[i].label := by
    intro i hi' hi
    have hget := List.getElem_of_eq hsame (by simpa using hi')
    simpa using hget
  constructor
  · rw [← h.tops]
    apply List.ext_getElem
    · simpa using hlen
    · intro i h₁ h₂
      simp only [List.length_map] at h₁ h₂
      rw [List.getElem_map,List.getElem_map,(hnode i h₁ h₂).1]
  · intro i hi
    rw [Topology.node,List.getD_eq_getElem _ _ hi,(hnode i hi (hlen ▸ hi)).2,
      ← h.label i (hlen ▸ hi),Topology.node,List.getD_eq_getElem _ _ (hlen ▸ hi)]
  · intro n hn hp
    obtain ⟨i,hi,rfl⟩ := List.getElem_of_mem hn
    have htop := (hnode i hi (hlen ▸ hi)).1
    have hp' := congrArg TopNode.isParent htop
    rw [show t'.nodes[i].node = _ from congrArg TopNode.node htop]
    exact h.name _ (List.getElem_mem _) (hp'.symm.trans hp)
  · intro c hc
    obtain ⟨n,hn,hnc,hp⟩ := h.parent c hc
    obtain ⟨i,hi,rfl⟩ := List.getElem_of_mem hn
    have htop := (hnode i (hlen ▸ hi) hi).1
    exact ⟨_,List.getElem_mem (hlen ▸ hi),(congrArg TopNode.node htop).trans hnc,
      (congrArg TopNode.isParent htop).trans hp⟩

end ReadTops

/-! ### The three loops -/

section loops

variable {db : Database} {t t' : Topology} {tops : List TopNode} {parents : List String}
  {hwid : ℕ}

theorem readClusters_tops {rows : List ClusterRow} (h : ReadTops t tops parents)
    (hread : readClusters db rows (tops.length + 1) t = .ok (hwid,t')) :
    ReadTops t' (tops ++ rows.filterMap (clusterTop db)) parents ∧
      hwid = (tops ++ rows.filterMap (clusterTop db)).length + 1 := by
  induction rows generalizing t tops with
  | nil =>
    cases hread
    simpa using h
  | cons row rows ih =>
    unfold readClusters at hread
    split at hread
    · rename_i hnone
      rw [List.filterMap_cons_none (by simp [clusterTop,hnone])]
      exact ih h hread
    · rename_i e he
      split at hread
      · cases hread
      · rename_i t₁ hadd
        have hnext := h.addRoot (f := fillCluster row e)
          (w := ⟨Topology.lowercase e.tid,"",row.cluster,row.fixed,false,false,0,1,1⟩) hadd
          (fun n ht hp hv _ hc hm => ⟨rfl,rfl,by
            simp [NodeResource.topNode,TopNode.alone,fillCluster,ht,hp,hv,hc,hm]⟩)
        rw [List.filterMap_cons_some (b := ⟨Topology.lowercase e.tid,"",row.cluster,row.fixed,
          false,false,0,1,1⟩) (by simp [clusterTop,he]),List.append_cons]
        exact ih hnext (by simpa using hread)

theorem readVswitches_tops {vs : List ℕ} (h : ReadTops t tops parents)
    (hread : readVswitches vs (tops.length + 1) t = .ok (hwid,t')) :
    ReadTops t' (tops ++ vs.map vswitchTop) parents ∧
      hwid = (tops ++ vs.map vswitchTop).length + 1 := by
  induction vs generalizing t tops with
  | nil =>
    cases hread
    simpa using h
  | cons v vs ih =>
    unfold readVswitches at hread
    split at hread
    · cases hread
    · rename_i t₁ hadd
      have hlow : Topology.lowercase "vgige" = "vgige" := by decide
      have hnext := h.addRoot (f := fillVswitch v) (w := vswitchTop v) hadd
        (fun n ht hp hv hf hc hm => ⟨rfl,rfl,by
          simp [NodeResource.topNode,TopNode.alone,fillVswitch,vswitchTop,ht,hp,hv,hf,hc,hm,hlow]⟩)
      rw [List.map_cons,List.append_cons]
      exact ih hnext (by simpa using hread)

/-- The clusters of the nodes in some rows. -/
def clustersOf (db : Database) (rows : List NodeRow) : List String :=
  rows.filterMap fun row => (db.nodes row.node).bind (·.cluster)

theorem readNodes_tops {rows : List NodeRow} (h : ReadTops t tops parents)
    (hread : readNodes db rows (tops.length + 1) t = .ok (hwid,t')) :
    ∃ parents', ReadTops t' (tops ++ rows.filterMap (nodeTop db)) parents' ∧
      ∀ c, c ∈ parents' ↔ c ∈ parents ∨ c ∈ clustersOf db rows := by
  induction rows generalizing t tops parents with
  | nil =>
    cases hread
    exact ⟨parents,by simpa using h,by simp [clustersOf]⟩
  | cons row rows ih =>
    unfold readNodes at hread
    split at hread
    · rename_i hnone
      rw [List.filterMap_cons_none (by simp [nodeTop,hnone])]
      obtain ⟨parents',hr,hp⟩ := ih h hread
      exact ⟨parents',hr,by simpa [clustersOf,hnone] using hp⟩
    · rename_i e he
      simp only at hread
      split at hread
      · cases hread
      rename_i hparent
      split at hread
      · cases hread
      rename_i tp htp
      split at hread
      · cases hread
      rename_i t₁ hadd
      have htop : nodeTop db row = some ⟨Topology.lowercase e.tid,"",row.node,row.fixed,
          e.cluster.isSome,false,row.vmid,.ofNat row.cores,.ofNat row.memory⟩ := by
        simp [nodeTop,he]
      rw [List.filterMap_cons_some htop,List.append_cons]
      cases hcl : e.cluster with
      | none =>
        rw [hcl] at hadd
        have hnext := h.addRoot (f := fillNode row e tp)
          (w := ⟨Topology.lowercase e.tid,"",row.node,row.fixed,false,false,row.vmid,
            .ofNat row.cores,.ofNat row.memory⟩) hadd
          (fun n ht hp _ _ hc hm => ⟨rfl,rfl,by
            simp [NodeResource.topNode,TopNode.alone,fillNode,ht,hp,hc,hm]⟩)
        obtain ⟨parents',hr,hp⟩ := ih hnext (by simpa using hread)
        exact ⟨parents',hr,by simpa [clustersOf,he,hcl] using hp⟩
      | some c =>
        rw [hcl] at hadd hparent
        have hc : t.getLabel c 0 ≠ 0 := fun hz => hparent ⟨rfl,hz⟩
        have hnext := h.addChild (f := fillNode row e tp)
          (w := ⟨Topology.lowercase e.tid,"",row.node,row.fixed,true,false,row.vmid,
            .ofNat row.cores,.ofNat row.memory⟩) hadd hc
          (fun n ht hp _ hc hm => ⟨rfl,rfl,by
            simp [NodeResource.topNode,TopNode.alone,fillNode,ht,hp,hc,hm]⟩)
        obtain ⟨parents',hr,hp⟩ := ih hnext (by simpa using hread)
        refine ⟨parents',hr,fun d => ?_⟩
        rw [hp d]
        simp only [clustersOf,List.filterMap_cons,he,Option.bind_some,hcl,List.mem_cons]
        tauto

end loops

/-! ### The links change nothing -/

section links

variable {db : Database} {tb : Tables} {t t' : Topology}

theorem addLink_seen {label capacity l1 p1 l2 p2 rload lload c1 c2 : ℕ} {r1 r2 : ℤ}
    (h : t.addLink label capacity l1 p1 r1 l2 p2 r2 rload lload c1 c2 = .ok t') :
    t'.nodes.map (fun n => (n.topNode,n.label)) = t.nodes.map fun n => (n.topNode,n.label) := by
  have hpush : ∀ (nodes : List NodeResource) a l,
      (Topology.pushLink nodes a l).map (fun n => (n.topNode,n.label)) =
        nodes.map fun n => (n.topNode,n.label) := by
    intro nodes a l
    apply List.ext_getElem
    · simp
    · intro i h₁ h₂
      simp only [Topology.pushLink,List.getElem_map,List.getElem_modify]
      split <;> rfl
  unfold Topology.addLink at h
  split at h
  · cases h
  split at h
  · cases h
  · cases h
  · cases h
    simp only [hpush]

theorem finish_seen {linkid : ℕ} {r : Reading} (h : r.finish db tb t linkid = .ok t') :
    t'.nodes.map (fun n => (n.topNode,n.label)) = t.nodes.map fun n => (n.topNode,n.label) := by
  unfold Reading.finish at h
  split at h
  · cases h
  split at h
  · cases h
  · rename_i t₁ hadd
    have hseen := addLink_seen hadd
    cases h
    exact hseen

theorem readLinks_seen {vps : List LinkRow} {rows : List LinkInfo} {linkid : ℕ} {r : Reading}
    (h : readLinks db tb vps rows linkid r t = .ok t') :
    t'.nodes.map (fun n => (n.topNode,n.label)) = t.nodes.map fun n => (n.topNode,n.label) := by
  induction rows generalizing t linkid r with
  | nil => exact finish_seen h
  | cons row rows ih =>
    unfold readLinks at h
    split at h
    · cases hf : r.finish db tb t linkid with
      | error er => simp [hf,bind,Except.bind] at h
      | ok t₁ =>
        simp only [hf,bind,Except.bind] at h
        split at h
        · cases h
        · exact (ih h).trans (finish_seen hf)
    · cases hr : r.row db t row with
      | error er => simp [hr,bind,Except.bind] at h
      | ok r₁ =>
        simp only [hr,bind,Except.bind] at h
        exact ih h

end links

/-- The nodes that `get_topology` reads, apart from which of them are parents. -/
def Database.tops (db : Database) (tb : Tables) : List TopNode :=
  (db.select tb.hwclusterschedule).filterMap (clusterTop db) ++
    (db.select (tb.vswitchschedule.map (·.vlanid)).dedup).map vswitchTop ++
    (db.select tb.nodeschedule).filterMap (nodeTop db)

/-- The parents among the nodes that are read are the clusters of the nodes. -/
theorem getTopology_tops {db : Database} {u : Uninitialised} {tb : Tables} {t : Topology}
    (h : getTopology db u tb = .ok t) :
    ∃ parents, ReadTops t (db.tops tb) parents ∧
      ∀ c, c ∈ parents ↔ c ∈ clustersOf db (db.select tb.nodeschedule) := by
  unfold getTopology at h
  cases h₁ : readClusters db (db.select tb.hwclusterschedule) 1 {} with
  | error e => simp [h₁,bind,Except.bind] at h
  | ok p₁ =>
    obtain ⟨hw₁,t₁⟩ := p₁
    obtain ⟨hr₁,rfl⟩ := readClusters_tops readTops_empty h₁
    simp only [h₁,bind,Except.bind] at h
    split at h
    · cases h
    · rename_i p₂ h₂
      obtain ⟨hw₂,t₂⟩ := p₂
      obtain ⟨hr₂,rfl⟩ := readVswitches_tops hr₁ h₂
      simp only at h
      split at h
      · cases h
      · rename_i p₃ h₃
        obtain ⟨hw₃,t₃⟩ := p₃
        obtain ⟨parents,hr₃,hp⟩ := readNodes_tops hr₂ h₃
        refine ⟨parents,?_,by simpa using hp⟩
        rw [Database.tops]
        simp only at h
        split at h
        · cases h
          simpa using hr₃
        · exact (by simpa using hr₃ : ReadTops t₃ _ _).congr (readLinks_seen h)

end OnlDaemons.Onldb

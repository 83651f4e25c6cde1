import OnlDaemons.Onldb.CarriedLoads
import OnlDaemons.Onldb.CheapestPath
import OnlDaemons.Onldb.TopologyEdits

/-!
# The base topology

`get_base_topology` makes the topology of the testbed with what the overlapping reservations have
left, and `add_special_node` adds a node that is in testing or repair. Capacities are stored in Gbps,
loads in Mbps. The rows that the queries deliver are parameters; a query that throws delivers the text
of the exception. A topology of a call that failed is thrown away by the caller. Sums of loads are
taken not to overflow.

## Main definitions

- `BaseRows`, `getBaseTopology`
- `SpecialRows`, `addSpecialNode`
- `Remaining` — a link has the capacity of its connection without the loads

## Main results

- `getBaseTopology_remaining`, `addSpecialNode_links` — what the links have
-/

namespace OnlDaemons.Onldb.BaseTopology
open OnlDaemons.Lib TopologyEdits

structure TypeInfo where
  tid : String
  hasvport : ℕ
  hostedtype : String
  corecapacity : ℕ
  memcapacity : ℕ
  numinterfaces : ℕ
  interfacebw : ℕ
  devtype : String

structure BaseCluster where
  cluster : String
  priority : ℕ
  tid : String

structure BaseNode where
  node : String
  priority : ℕ
  tid : String
  cluster : Option String

structure BaseNodeVm extends BaseNode where
  cores : ℕ
  memory : ℕ

/-- A row of `connections`, with the capacity in Gbps. -/
structure BaseLink where
  cid : ℕ
  capacity : UInt16
  node1 : String
  node1port : ℕ
  node2 : String
  node2port : ℕ

/-- The loads of a row of `connschedule`, in Mbps. -/
structure CapLoad where
  rload : UInt16
  lload : UInt16

/-- What the queries of `get_base_topology` deliver. The rows of `loads` are those of the reservations
that overlap the interval. -/
structure BaseRows where
  types : Except String (List TypeInfo)
  freeClusters : Except String (List BaseCluster)
  usedClusters : Except String (List BaseCluster)
  freeNodes : Except String (List BaseNode)
  usedNodes : Except String (List BaseNodeVm)
  connections : Except String (List BaseLink)
  loads : ℕ → Except String (List CapLoad)
  isInfrastructure : String → OnldbResp

def query {α : Type} (a : Except String α) : Except OnldbResp α := a.mapError fun er => ⟨-1,er⟩

def consistencyProblem {α : Type} (result : ℤ) : Except OnldbResp α :=
  .error ⟨result,"database consistency problem"⟩

def fillNodeInfo (types : List TypeInfo) (n : NodeObject) : NodeObject :=
  match types.find? fun it => it.tid = n.type with
  | none => n
  | some it => { n with
      hasVport := it.hasvport ≠ 0, hostedType := it.hostedtype, devType := it.devtype
      coreCapacity := it.corecapacity, memCapacity := it.memcapacity
      portCapacities := (List.range it.numinterfaces).foldl
        (fun m (i : ℕ) => PortMap.set m i it.interfacebw) n.portCapacities }

/-- `topology::get_label` for a name without a virtual machine. -/
def getLabel (t : Objects) (name : String) : ℕ :=
  match t.nodes.find? fun n => (t.nodeAt n).node = name with
  | some n => (t.nodeAt n).label
  | none => 0

def getNode (t : Objects) (name : String) : Option ℕ :=
  t.nodes.find? fun n => (t.nodeAt n).node = name

/-- `add_node` with the parameters that are not given at their defaults. -/
def addPlain (t : Objects) (tid : String) (hwid parentLabel : ℕ) : Objects × OnldbResp :=
  addNode t tid hwid parentLabel false 1 1 0 0 ""

/-- A node is added, and its fields are filled in. -/
def addFilled (t : Objects) (tid : String) (hwid parentLabel : ℕ) (fill : NodeObject → NodeObject) :
    Except OnldbResp Objects :=
  let (t',r) := addPlain t tid hwid parentLabel
  if r.result ≠ 1 then consistencyProblem (-1) else .ok (t'.modifyNode t.nextNode fill)

/-- One cluster. The state is the next label and the topology. -/
def addCluster (marked : Bool) (s : ℕ × Objects) (it : BaseCluster) : Except OnldbResp (ℕ × Objects) := do
  let t ← addFilled s.2 it.tid s.1 0 fun n =>
    { n with node := it.cluster, priority := it.priority, marked }
  pure (s.1 + 1,t)

/-- A switch is its own infrastructure node. -/
def markInfrastructure (db : BaseRows) (t : Objects) (a : ℕ) (name : String) : Except OnldbResp Objects :=
  let ri := db.isInfrastructure name
  if ri.result < 0 then consistencyProblem (-1)
  else if ri.result = 1 then .ok (t.modifyNode a fun n => { n with inCluster := n.label })
  else .ok t

/-- The label of the cluster of a node: 0 without one, none if the cluster is not in the topology. -/
def clusterLabel (t : Objects) : Option String → Option ℕ
  | none => some 0
  | some cluster => if getLabel t cluster = 0 then none else some (getLabel t cluster)

def addFreeNode (db : BaseRows) (types : List TypeInfo) (s : ℕ × Objects) (it : BaseNode) :
    Except OnldbResp (ℕ × Objects) :=
  match clusterLabel s.2 it.cluster with
  | none => .ok s
  | some parentLabel => do
    let t ← addFilled s.2 it.tid s.1 parentLabel fun n =>
      fillNodeInfo types { n with node := it.node, priority := it.priority, marked := false }
    let t ← markInfrastructure db t s.2.nextNode it.node
    pure (s.1 + 1,t)

/-- What a reservation leaves of a node. -/
def reserve (noreservations : Bool) (it : BaseNodeVm) (n : NodeObject) : NodeObject :=
  if noreservations then { n with marked := false }
  else if n.hostedType ≠ "" then { n with
    coreCapacity := n.coreCapacity - it.cores, memCapacity := n.memCapacity - it.memory, marked := false }
  else { n with coreCapacity := 0, memCapacity := 0, marked := true }

def addUsedNode (db : BaseRows) (types : List TypeInfo) (noreservations : Bool) (s : ℕ × Objects)
    (it : BaseNodeVm) : Except OnldbResp (ℕ × Objects) :=
  match clusterLabel s.2 it.cluster with
  | none => .ok s
  | some parentLabel =>
    match getNode s.2 it.node with
    | some current => .ok (s.1,s.2.modifyNode current (reserve noreservations it))
    | none => do
      let t ← addFilled s.2 it.tid s.1 parentLabel fun n =>
        fillNodeInfo types { n with node := it.node, priority := it.priority }
      let t ← markInfrastructure db t s.2.nextNode it.node
      pure (s.1 + 1,t.modifyNode s.2.nextNode (reserve noreservations it))

def modifyLink (t : Objects) (l : ℕ) (f : LinkObject → LinkObject) : Objects :=
  { t with linkAt := Function.update t.linkAt l (f (t.linkAt l)) }

/-- The capacity of a link whose first node has virtual ports is that of the port. -/
def usePortCapacity (t : Objects) (l : ℕ) : Objects :=
  let x := t.linkAt l
  if (t.nodeAt x.node1).hasVport then
    let t := t.modifyNode x.node1 fun n =>
      { n with portCapacities := PortMap.touch n.portCapacities x.node1Port }
    modifyLink t l fun x => { x with
      capacity := toUnsigned (PortMap.get (t.nodeAt x.node1).portCapacities x.node1Port) }
  else t

/-- The first node of a link is behind the switch with this label. -/
def putBehind (t : Objects) (node1 node2Label node1port : ℕ) (rl : ℤ) : Objects :=
  let t := t.modifyNode node1 fun n => { n with
    inCluster := node2Label
    portCapacities := PortMap.set n.portCapacities node1port (PortMap.get n.portCapacities node1port - rl) }
  (t.nodeAt node1).parent.elim t fun p => t.modifyNode p fun n => { n with inCluster := node2Label }

/-- The rows of `connschedule` that are taken into account. -/
def countedLoads (db : BaseRows) (noreservations : Bool) (cid : ℕ) : Except OnldbResp (List CapLoad) :=
  if noreservations then .ok [] else query (db.loads cid)

/-- The sum of the loads in one direction. -/
def sumLoads (loads : List CapLoad) (load : CapLoad → UInt16) : ℕ := (loads.map fun r => (load r).toNat).sum

/-- One connection. The state is the next link label and the topology. -/
def addBaseLink (db : BaseRows) (noreservations : Bool) (s : ℕ × Objects) (it : BaseLink) :
    Except OnldbResp (ℕ × Objects) :=
  if it.cid = 0 then .ok s
  else do
    let cap := it.capacity.toNat * 1000
    let loads ← countedLoads db noreservations it.cid
    let rl := sumLoads loads CapLoad.rload
    let ll := sumLoads loads CapLoad.lload
    if cap ≤ rl ∨ cap ≤ ll then return s
    if getLabel s.2 it.node1 = 0 ∨ getLabel s.2 it.node2 = 0 then return s
    let node2Label := getLabel s.2 it.node2
    let (t,r) := addLink s.2 {
      label := s.1, capacity := cap, node1Label := getLabel s.2 it.node1, node1Port := it.node1port
      node1Rport := it.node1port, node2Label, node2Port := it.node2port, node2Rport := it.node2port
      rload := rl, lload := ll }
    if r.result ≠ 1 then consistencyProblem (-1)
    else
      let l := s.2.nextLink
      let t := usePortCapacity (modifyLink t l fun x => { x with conns := x.conns ++ [(it.cid : ℤ)] }) l
      let ri := db.isInfrastructure it.node1
      if ri.result < 0 then consistencyProblem (-1)
      else if ri.result = 1 then pure (s.1 + 1,t)
      else pure (s.1 + 1,putBehind t (t.linkAt l).node1 node2Label it.node1port rl)

/-- `get_base_topology` for an empty topology. -/
def getBaseTopology (db : BaseRows) (noreservations : Bool) (t : Objects) : Except OnldbResp Objects := do
  let types ← query db.types
  let s ← (← query db.freeClusters).foldlM (addCluster false) (1,t)
  let s ← (← query db.usedClusters).foldlM (addCluster !noreservations) s
  let s ← (← query db.freeNodes).foldlM (addFreeNode db types) s
  let s ← (← query db.usedNodes).foldlM (addUsedNode db types noreservations) s
  let s ← (← query db.connections).foldlM (addBaseLink db noreservations) (1,s.2)
  pure s.2

/-- What the queries of `add_special_node` deliver: the type of the node and its cluster if it is in
testing or repair, the nodes it is connected to, its connections, the type of a cluster, and the
nodes of a cluster with their types. -/
structure SpecialRows where
  types : Except String (List TypeInfo)
  special : String → Except String (List (String × Option String))
  neighbors : String → Except String (List String)
  connections : String → Except String (List BaseLink)
  clusterType : String → Except String (List String)
  clusterNodes : String → Except String (List (String × String))

/-- One connection of a special node; `convert` is what is done to the capacity. The result of
`add_link` is not looked at. -/
def addSpecialLink (convert : ℕ → ℕ) (hwid : ℕ) (s : ℕ × Objects) (cit : BaseLink) : ℕ × Objects :=
  if getLabel s.2 cit.node2 = 0 then s
  else
    let t := (addLink s.2 {
      label := s.1, capacity := convert cit.capacity.toNat, node1Label := hwid
      node1Port := cit.node1port, node1Rport := cit.node1port, node2Label := getLabel s.2 cit.node2
      node2Port := cit.node2port, node2Rport := cit.node2port }).1
    (s.1 + 1,t.links.getLast?.elim t fun l =>
      modifyLink t l fun x => { x with conns := x.conns ++ [(cit.cid : ℤ)] })

/-- The number after the largest label, or 2. -/
def nextLabel (labels : List ℕ) : ℕ := labels.foldl max 1 + 1

/-- One component of a cluster; the state is the next node label, the next link label and the
topology. -/
def addSpecialComponent (db : SpecialRows) (types : List TypeInfo) (node inCluster parentLabel : ℕ)
    (cluster : String) (s : ℕ × ℕ × Objects) (niit : String × String) :
    Except OnldbResp (ℕ × ℕ × Objects) := do
  let (t,r) := addPlain s.2.2 niit.2 s.1 parentLabel
  if r.result ≠ 1 then consistencyProblem 0
  else
    let t := t.modifyNode s.2.2.nextNode fun n => fillNodeInfo types { n with node := niit.1, inCluster }
    let t :=
      if niit.1 = (t.nodeAt node).node then
        let t := t.modifyNode s.2.2.nextNode fun n => { n with fixed := true }
        let t := t.modifyNode node fun n => { n with inCluster }
        (t.nodeAt node).parent.elim t fun p => t.modifyNode p fun n =>
          { n with fixed := true, inCluster, node := cluster }
      else t
    let bli ← query (db.connections niit.1)
    pure (s.1 + 1,bli.foldl (addSpecialLink id s.1) (s.2.1,t))

/-- `add_special_node`; `node` is a node of the request. -/
def addSpecialNode (db : SpecialRows) (t : Objects) (node : ℕ) : Except OnldbResp Objects := do
  let hwid := nextLabel (t.nodes.map fun n => (t.nodeAt n).label)
  let linkid := nextLabel (t.links.map fun l => (t.linkAt l).label)
  let name := (t.nodeAt node).node
  let types ← query db.types
  match ← query (db.special name) with
  | [] => .error ⟨0,"node " ++ name ++ " is not available"⟩
  | (tid,cluster) :: _ =>
    match ← query (db.neighbors name) with
    | [node2] =>
      let inCluster := (getNode t node2).elim 0 fun n => (t.nodeAt n).inCluster
      if inCluster = 0 then consistencyProblem 0
      else match cluster with
      | none =>
        let t' := (addPlain t tid hwid 0).1
        let t' := t'.modifyNode t.nextNode fun n =>
          fillNodeInfo types { n with node := name, fixed := true, inCluster }
        let t' := t'.modifyNode node fun n => { n with inCluster }
        let bli ← query (db.connections name)
        pure (bli.foldl (addSpecialLink (· * 1000) hwid) (linkid,t')).2
      | some cluster =>
        match ← query (db.clusterType cluster) with
        | [ctype] =>
          let t' := (addPlain t ctype hwid 0).1
          let t' := t'.modifyNode t.nextNode fun n =>
            fillNodeInfo types { n with node := cluster, fixed := true, inCluster }
          let ni ← query (db.clusterNodes cluster)
          let s ← ni.foldlM (addSpecialComponent db types node inCluster hwid cluster)
            (hwid + 1,linkid,t')
          pure s.2.2
        | _ => consistencyProblem 0
    | _ => consistencyProblem 0

/-! ### The links while nodes are added -/

/-- The links are as before. -/
structure SameLinks (t t' : Objects) : Prop where
  links : t'.links = t.links
  linkAt : t'.linkAt = t.linkAt
  nextLink : t'.nextLink = t.nextLink

variable {t t' : Objects} {db : BaseRows} {types : List TypeInfo} {noreservations : Bool}

theorem SameLinks.refl (t : Objects) : SameLinks t t := ⟨rfl,rfl,rfl⟩

theorem SameLinks.trans {t'' : Objects} (h : SameLinks t t') (h' : SameLinks t' t'') :
    SameLinks t t'' :=
  ⟨h'.links.trans h.links,h'.linkAt.trans h.linkAt,h'.nextLink.trans h.nextLink⟩

theorem sameLinks_modifyNode (t : Objects) (a : ℕ) (f : NodeObject → NodeObject) :
    SameLinks t (t.modifyNode a f) := ⟨rfl,rfl,rfl⟩

theorem sameLinks_insertLoop (parentLabel hrp : ℕ) (ns : List ℕ) (found : Bool) (t : Objects) :
    SameLinks t (insertLoop parentLabel hrp ns found t).1 := by
  induction ns generalizing found t with
  | nil =>
    unfold insertLoop
    split
    · exact ⟨rfl,rfl,rfl⟩
    · exact .refl t
  | cons n ns ih =>
    unfold insertLoop
    split
    · exact .refl t
    · split
      · have hadopt : SameLinks t (t.adopt n hrp) := ⟨rfl,rfl,rfl⟩
        exact hadopt.trans (ih true _)
      · exact ih found t

theorem sameLinks_addPlain (t : Objects) (tid : String) (hwid parentLabel : ℕ) :
    SameLinks t (addPlain t tid hwid parentLabel).1 := by
  refine SameLinks.trans ?_ (sameLinks_insertLoop _ _ _ _ _)
  exact ⟨rfl,rfl,rfl⟩

theorem sameLinks_addFilled {tid : String} {hwid parentLabel : ℕ} {fill : NodeObject → NodeObject}
    (h : addFilled t tid hwid parentLabel fill = .ok t') : SameLinks t t' := by
  unfold addFilled at h
  have hadd := sameLinks_addPlain t tid hwid parentLabel
  revert h
  generalize addPlain t tid hwid parentLabel = r at hadd
  simp only
  split
  · exact fun h => nomatch h
  · intro h
    cases h
    exact hadd.trans (sameLinks_modifyNode _ _ _)

theorem sameLinks_markInfrastructure {a : ℕ} {name : String}
    (h : markInfrastructure db t a name = .ok t') : SameLinks t t' := by
  unfold markInfrastructure at h
  simp only at h
  split at h
  · cases h
  · split at h
    · cases h
      exact sameLinks_modifyNode _ _ _
    · cases h
      exact .refl t

theorem bind_eq_ok {ε α β : Type} {x : Except ε α} {f : α → Except ε β} {b : β}
    (h : (x >>= f) = .ok b) : ∃ a, x = .ok a ∧ f a = .ok b := by
  cases x with
  | error e => cases h
  | ok a => exact ⟨a,rfl,h⟩

theorem query_eq_ok {α : Type} {a : Except String α} {x : α} (h : query a = .ok x) : a = .ok x := by
  cases a with
  | error e => cases h
  | ok y =>
    cases h
    rfl

theorem sameLinks_addCluster {marked : Bool} {s s' : ℕ × Objects} {it : BaseCluster}
    (h : addCluster marked s it = .ok s') : SameLinks s.2 s'.2 := by
  obtain ⟨t,ht,h⟩ := bind_eq_ok h
  cases h
  exact sameLinks_addFilled ht

theorem sameLinks_addFreeNode {s s' : ℕ × Objects} {it : BaseNode}
    (h : addFreeNode db types s it = .ok s') : SameLinks s.2 s'.2 := by
  unfold addFreeNode at h
  split at h
  · cases h
    exact .refl s.2
  · obtain ⟨t,ht,h⟩ := bind_eq_ok h
    obtain ⟨t',ht',h⟩ := bind_eq_ok h
    cases h
    exact (sameLinks_addFilled ht).trans (sameLinks_markInfrastructure ht')

theorem sameLinks_addUsedNode {s s' : ℕ × Objects} {it : BaseNodeVm}
    (h : addUsedNode db types noreservations s it = .ok s') : SameLinks s.2 s'.2 := by
  unfold addUsedNode at h
  split at h
  · cases h
    exact .refl s.2
  · split at h
    · cases h
      exact sameLinks_modifyNode _ _ _
    · obtain ⟨t,ht,h⟩ := bind_eq_ok h
      obtain ⟨t',ht',h⟩ := bind_eq_ok h
      cases h
      exact ((sameLinks_addFilled ht).trans (sameLinks_markInfrastructure ht')).trans
        (sameLinks_modifyNode _ _ _)

/-! ### The links of the base topology -/

/-- The link has the capacity of its connection, in Mbps, without the loads that are taken into
account. -/
def Remaining (db : BaseRows) (noreservations : Bool) (it : BaseLink) (x : LinkObject) : Prop :=
  x.conns = [(it.cid : ℤ)] ∧ ∃ loads, countedLoads db noreservations it.cid = .ok loads ∧
    (x.potentialRcap : ℤ) = 1000 * it.capacity.toNat - sumLoads loads CapLoad.rload ∧
    (x.potentialLcap : ℤ) = 1000 * it.capacity.toNat - sumLoads loads CapLoad.lload

theorem minus_eq {a b : ℕ} (hb : b < a) (ha : a < 2 ^ 32) : (minus a b : ℤ) = a - b := by
  unfold minus
  rw [Nat.mod_eq_of_lt (hb.trans ha)]
  omega

/-- The capacity of the link may be that of a port, but nothing else of a link has changed. -/
theorem usePortCapacity_links (t : Objects) (l : ℕ) :
    (usePortCapacity t l).links = t.links ∧ (usePortCapacity t l).nextLink = t.nextLink ∧
    ∃ c, (usePortCapacity t l).linkAt =
      Function.update t.linkAt l { t.linkAt l with capacity := c } := by
  unfold usePortCapacity
  simp only
  split
  · exact ⟨rfl,rfl,_,rfl⟩
  · exact ⟨rfl,rfl,(t.linkAt l).capacity,(Function.update_eq_self l t.linkAt).symm⟩

theorem sameLinks_elim (t : Objects) (par : Option ℕ) (f : NodeObject → NodeObject) :
    SameLinks t (par.elim t fun p => t.modifyNode p f) := by
  cases par with
  | none => exact .refl t
  | some p => exact sameLinks_modifyNode t p f

theorem sameLinks_putBehind (t : Objects) (node1 node2Label node1port : ℕ) (rl : ℤ) :
    SameLinks t (putBehind t node1 node2Label node1port rl) :=
  (sameLinks_modifyNode _ _ _).trans (sameLinks_elim _ _ _)

/-- Each link is an object, and has what is left of a connection. -/
def Linked (db : BaseRows) (noreservations : Bool) (rows : List BaseLink) (t : Objects) : Prop :=
  ∀ l ∈ t.links, l < t.nextLink ∧ ∃ it ∈ rows, Remaining db noreservations it (t.linkAt l)

theorem Linked.congr {rows : List BaseLink} (h : Linked db noreservations rows t)
    (hs : SameLinks t t') : Linked db noreservations rows t' := by
  intro l hl
  rw [hs.links] at hl
  rw [hs.nextLink,hs.linkAt]
  exact h l hl

/-- Either nothing has been added, or one link. -/
theorem addLink_cases (t : Objects) (x : LinkArgs) :
    ((addLink t x).1 = t ∧ (addLink t x).2.result = -1) ∨
    ∃ a b, let r := (addLink t x).1
      r.links = t.links ++ [t.nextLink] ∧ r.nextLink = t.nextLink + 1 ∧
      r.linkAt = Function.update t.linkAt t.nextLink (x.link a b) := by
  obtain he | ⟨a,b,_,_,_,_,he⟩ := insertLink_cases t x.label x.node1Label x.node2Label x.link
  · exact .inl he
  · refine .inr ⟨a,b,?_⟩
    rw [show (addLink t x).1 = _ from he]
    exact ⟨rfl,rfl,rfl⟩

/-- What `add_link` makes of the links, once the connection has been put on the new one. -/
theorem addLink_links {x : LinkArgs} (hr : (addLink t x).2.result = 1) (cid : ℤ) :
    let t' := modifyLink (addLink t x).1 t.nextLink fun y => { y with conns := y.conns ++ [cid] }
    t'.links = t.links ++ [t.nextLink] ∧ t'.nextLink = t.nextLink + 1 ∧
    ∃ y : LinkObject, t'.linkAt = Function.update t.linkAt t.nextLink y ∧ y.conns = [cid] ∧
      y.capacity = x.capacity ∧ y.potentialRcap = minus x.capacity x.rload ∧
      y.potentialLcap = minus x.capacity x.lload := by
  intro t'
  obtain ⟨_,hne⟩ | ⟨a,b,hl,hn,hat⟩ := addLink_cases t x
  · rw [hr] at hne
    exact absurd hne (by decide)
  · refine ⟨hl,hn,{ x.link a b with conns := [cid] },?_,rfl,rfl,rfl,rfl⟩
    show Function.update (addLink t x).1.linkAt t.nextLink _ = _
    rw [hat,Function.update_idem,Function.update_self]
    rfl

/-- A new link with what is left of a connection. -/
theorem Linked.push {rows : List BaseLink} (h : Linked db noreservations rows t)
    (hl : t'.links = t.links ++ [t.nextLink]) (hn : t'.nextLink = t.nextLink + 1) {y : LinkObject}
    (hat : t'.linkAt = Function.update t.linkAt t.nextLink y) {it : BaseLink} (hit : it ∈ rows)
    (hy : Remaining db noreservations it y) : Linked db noreservations rows t' := by
  intro l hm
  rw [hl] at hm
  rw [hn,hat]
  obtain hm | hm := List.mem_append.mp hm
  · obtain ⟨hlt,hrow⟩ := h l hm
    rw [Function.update_of_ne (Nat.ne_of_lt hlt)]
    exact ⟨Nat.lt_succ_of_lt hlt,hrow⟩
  · rw [List.mem_singleton.mp hm,Function.update_self]
    exact ⟨Nat.lt_succ_self _,it,hit,hy⟩

/-- A link may get another capacity. -/
theorem Linked.usePortCapacity {rows : List BaseLink} (h : Linked db noreservations rows t) (l : ℕ) :
    Linked db noreservations rows (usePortCapacity t l) := by
  obtain ⟨hlinks,hnext,c,hat⟩ := usePortCapacity_links t l
  intro l' hm
  rw [hlinks] at hm
  obtain ⟨hlt,it,hit,hrem⟩ := h l' hm
  rw [hnext,hat]
  refine ⟨hlt,it,hit,?_⟩
  by_cases hll : l' = l
  · subst hll
    rw [Function.update_self]
    exact hrem
  · rw [Function.update_of_ne hll]
    exact hrem

/-- One connection: it is left out, or what is left of it becomes a link. -/
theorem Linked.addBaseLink {rows : List BaseLink} {s s' : ℕ × Objects} {it : BaseLink}
    (h : Linked db noreservations rows s.2) (hit : it ∈ rows)
    (hadd : addBaseLink db noreservations s it = .ok s') : Linked db noreservations rows s'.2 := by
  unfold BaseTopology.addBaseLink at hadd
  split at hadd
  · cases hadd
    exact h
  obtain ⟨loads,hloads,hadd⟩ := bind_eq_ok hadd
  simp only at hadd
  split at hadd
  · cases hadd
    exact h
  next hroom =>
  split at hadd
  · cases hadd
    exact h
  split at hadd
  · cases hadd
  next hr =>
  have hcap : it.capacity.toNat * 1000 < 2 ^ 32 := by
    have := it.capacity.toNat_lt
    omega
  have hminus : ∀ n < it.capacity.toNat * 1000,
      (minus (it.capacity.toNat * 1000) n : ℤ) = 1000 * it.capacity.toNat - n := by
    intro n hlt
    rw [minus_eq (by omega) hcap]
    push_cast
    omega
  obtain ⟨hl,hn,y,hat,hconns,_,hrcap,hlcap⟩ := addLink_links (not_not.mp hr) it.cid
  have hlinked := h.push hl hn hat hit ⟨hconns,loads,hloads,?_,?_⟩
  · have hport := hlinked.usePortCapacity s.2.nextLink
    split at hadd
    · cases hadd
    · split at hadd
      · cases hadd
        exact hport
      · cases hadd
        exact hport.congr (sameLinks_putBehind _ _ _ _ _)
  · rw [hrcap]
    exact hminus (sumLoads loads CapLoad.rload) (by omega)
  · rw [hlcap]
    exact hminus (sumLoads loads CapLoad.lload) (by omega)

/-- A loop that adds no links. -/
theorem links_of_foldlM {γ : Type} {step : ℕ × Objects → γ → Except OnldbResp (ℕ × Objects)}
    (hstep : ∀ s c s', step s c = .ok s' → SameLinks s.2 s'.2) {cs : List γ} {s s' : ℕ × Objects}
    (h : cs.foldlM step s = .ok s') : SameLinks s.2 s'.2 :=
  Topology.of_foldlM (P := fun s' => SameLinks s.2 s'.2)
    (fun s₁ c s₂ h₁ h₂ => h₁.trans (hstep s₁ c s₂ h₂)) (.refl s.2) h

/-- The links of a base topology have what the reservations that are taken into account have left of
their connections. -/
theorem getBaseTopology_remaining (ht : t.links = [])
    (h : getBaseTopology db noreservations t = .ok t') :
    ∃ rows, db.connections = .ok rows ∧ Linked db noreservations rows t' := by
  obtain ⟨types,_,h⟩ := bind_eq_ok h
  obtain ⟨rows₁,_,h⟩ := bind_eq_ok h
  obtain ⟨s₁,h₁,h⟩ := bind_eq_ok h
  obtain ⟨rows₂,_,h⟩ := bind_eq_ok h
  obtain ⟨s₂,h₂,h⟩ := bind_eq_ok h
  obtain ⟨rows₃,_,h⟩ := bind_eq_ok h
  obtain ⟨s₃,h₃,h⟩ := bind_eq_ok h
  obtain ⟨rows₄,_,h⟩ := bind_eq_ok h
  obtain ⟨s₄,h₄,h⟩ := bind_eq_ok h
  obtain ⟨rows,hrows,h⟩ := bind_eq_ok h
  obtain ⟨s₅,h₅,h⟩ := bind_eq_ok h
  cases h
  have hsame : SameLinks t s₄.2 :=
    (((links_of_foldlM (fun _ _ _ => sameLinks_addCluster) h₁).trans
      (links_of_foldlM (fun _ _ _ => sameLinks_addCluster) h₂)).trans
      (links_of_foldlM (fun _ _ _ => sameLinks_addFreeNode) h₃)).trans
      (links_of_foldlM (fun _ _ _ => sameLinks_addUsedNode) h₄)
  have hstart : Linked db noreservations rows s₄.2 := by
    intro l hl
    rw [hsame.links,ht] at hl
    exact absurd hl List.not_mem_nil
  exact ⟨rows,query_eq_ok hrows,Topology.of_foldlM_mem (P := fun s => Linked db noreservations rows s.2)
    (fun _ _ hit _ hs hadd => hs.addBaseLink hit hadd) hstart h₅⟩

/-! ### The links of a special node -/

/-- A row of the connections of some node. -/
def SpecialRows.Connection (rows : SpecialRows) (it : BaseLink) : Prop :=
  ∃ node bli, rows.connections node = .ok bli ∧ it ∈ bli

/-- The link `x` was the link `l` of `t`, or has been made of a connection, with this capacity and
without loads. -/
def LinkKind (rows : SpecialRows) (convert : ℕ → ℕ) (t : Objects) (l : ℕ) (x : LinkObject) : Prop :=
  (l ∈ t.links ∧ x.capacity = (t.linkAt l).capacity ∧ x.potentialRcap = (t.linkAt l).potentialRcap ∧
    x.potentialLcap = (t.linkAt l).potentialLcap) ∨
  ∃ it, rows.Connection it ∧ x.node1Port = it.node1port ∧ x.node2Port = it.node2port ∧
    x.capacity = convert it.capacity.toNat ∧ x.potentialRcap = convert it.capacity.toNat ∧
    x.potentialLcap = convert it.capacity.toNat

/-- All links are of one of the two kinds. -/
def Extends (rows : SpecialRows) (convert : ℕ → ℕ) (t t' : Objects) : Prop :=
  ∀ l ∈ t'.links, l < t'.nextLink ∧ LinkKind rows convert t l (t'.linkAt l)

variable {sp : SpecialRows} {convert : ℕ → ℕ}

theorem Extends.refl (hv : ∀ l ∈ t.links, l < t.nextLink) : Extends sp convert t t :=
  fun l hl => ⟨hv l hl,.inl ⟨hl,rfl,rfl,rfl⟩⟩

theorem Extends.congr {t'' : Objects} (h : Extends sp convert t t') (hs : SameLinks t' t'') :
    Extends sp convert t t'' := by
  intro l hl
  rw [hs.links] at hl
  rw [hs.nextLink,hs.linkAt]
  exact h l hl

/-- The connections that are put on a link change nothing else of it. -/
theorem Extends.conns (h : Extends sp convert t t') (l : ℕ) (cs : List ℤ) :
    Extends sp convert t (modifyLink t' l fun x => { x with conns := x.conns ++ cs }) := by
  intro l' hl'
  obtain ⟨hlt,hkind⟩ := h l' hl'
  refine ⟨hlt,?_⟩
  show LinkKind sp convert t l' (Function.update t'.linkAt l _ l')
  by_cases hll : l' = l
  · subst hll
    rw [Function.update_self]
    exact hkind
  · rw [Function.update_of_ne hll]
    exact hkind

theorem minus_zero {a : ℕ} (ha : a < 2 ^ 32) : minus a 0 = a := by
  unfold minus
  omega

theorem Extends.addLink (hconv : ∀ c : UInt16, convert c.toNat < 2 ^ 32) {cit : BaseLink}
    (h : Extends sp convert t t') (hcit : sp.Connection cit) {x : LinkArgs}
    (hcap : x.capacity = convert cit.capacity.toNat) (hp1 : x.node1Port = cit.node1port)
    (hp2 : x.node2Port = cit.node2port) (hr : x.rload = 0) (hl : x.lload = 0) :
    Extends sp convert t (addLink t' x).1 := by
  obtain ⟨he,_⟩ | ⟨a,b,hlinks,hnext,hat⟩ := addLink_cases t' x
  · rw [he]
    exact h
  intro l hm
  rw [hlinks] at hm
  rw [hnext,hat]
  obtain hm | hm := List.mem_append.mp hm
  · obtain ⟨hlt,hkind⟩ := h l hm
    rw [Function.update_of_ne (Nat.ne_of_lt hlt)]
    exact ⟨Nat.lt_succ_of_lt hlt,hkind⟩
  · rw [List.mem_singleton.mp hm,Function.update_self]
    have hminus : minus x.capacity 0 = convert cit.capacity.toNat :=
      hcap ▸ minus_zero (hcap ▸ hconv cit.capacity)
    refine ⟨Nat.lt_succ_self _,.inr ⟨cit,hcit,hp1,hp2,hcap,?_,?_⟩⟩
    · show minus x.capacity x.rload = _
      rw [hr,hminus]
    · show minus x.capacity x.lload = _
      rw [hl,hminus]

theorem Extends.addSpecialLink (hconv : ∀ c : UInt16, convert c.toNat < 2 ^ 32) {hwid : ℕ}
    {s : ℕ × Objects} {cit : BaseLink} (h : Extends sp convert t s.2) (hcit : sp.Connection cit) :
    Extends sp convert t (addSpecialLink convert hwid s cit).2 := by
  unfold BaseTopology.addSpecialLink
  split
  · exact h
  simp only
  have hadd := h.addLink hconv hcit (x := {
    label := s.1, capacity := convert cit.capacity.toNat, node1Label := hwid
    node1Port := cit.node1port, node1Rport := cit.node1port, node2Label := getLabel s.2 cit.node2
    node2Port := cit.node2port, node2Rport := cit.node2port }) rfl rfl rfl rfl rfl
  revert hadd
  generalize (TopologyEdits.addLink s.2 _).1 = r
  intro hadd
  cases r.links.getLast? with
  | none => exact hadd
  | some l => exact hadd.conns l _

/-- The loop over the connections of one node. -/
theorem Extends.foldl (hconv : ∀ c : UInt16, convert c.toNat < 2 ^ 32) {hwid : ℕ}
    {bli : List BaseLink} (hbli : ∀ it ∈ bli, sp.Connection it) {s : ℕ × Objects}
    (h : Extends sp convert t s.2) :
    Extends sp convert t (bli.foldl (BaseTopology.addSpecialLink convert hwid) s).2 := by
  induction bli generalizing s with
  | nil => exact h
  | cons it bli ih =>
    exact ih (fun it hm => hbli it (List.mem_cons_of_mem _ hm))
      (h.addSpecialLink hconv (hbli it List.mem_cons_self))

theorem Extends.addSpecialComponent {node inCluster parentLabel : ℕ} {cluster : String}
    {s s' : ℕ × ℕ × Objects} {niit : String × String} (h : Extends sp id t s.2.2)
    (hadd : addSpecialComponent sp types node inCluster parentLabel cluster s niit = .ok s') :
    Extends sp id t s'.2.2 := by
  unfold BaseTopology.addSpecialComponent at hadd
  have hplain := h.congr (sameLinks_addPlain s.2.2 niit.2 s.1 parentLabel)
  revert hadd
  generalize addPlain s.2.2 niit.2 s.1 parentLabel = r at hplain
  simp only
  split
  · exact fun h => nomatch h
  intro hadd
  obtain ⟨bli,hbli,hadd⟩ := bind_eq_ok hadd
  cases hadd
  refine Extends.foldl (fun c => c.toNat_lt.trans (by decide))
    (fun it hm => ⟨niit.1,bli,query_eq_ok hbli,hm⟩) ?_
  simp only
  split
  · refine hplain.congr (SameLinks.trans ?_ (sameLinks_elim _ _ _))
    exact ⟨rfl,rfl,rfl⟩
  · exact hplain.congr (sameLinks_modifyNode _ _ _)

/-- The node is in a cluster. -/
def SpecialRows.InCluster (rows : SpecialRows) (name : String) : Prop :=
  ∃ tid cluster rest, rows.special name = .ok ((tid,some cluster) :: rest)

/-- The capacities of a node that is in no cluster are converted. -/
theorem addSpecialNode_extends {node : ℕ} (hv : ∀ l ∈ t.links, l < t.nextLink)
    (h : addSpecialNode sp t node = .ok t') :
    (sp.InCluster (t.nodeAt node).node ∧ Extends sp id t t') ∨
      ¬sp.InCluster (t.nodeAt node).node ∧ Extends sp (· * 1000) t t' := by
  obtain ⟨types,_,h⟩ := bind_eq_ok h
  obtain ⟨special,hspecial,h⟩ := bind_eq_ok h
  have hspecial := query_eq_ok hspecial
  match special,hspecial,h with
  | [],_,h => cases h
  | (tid,cluster) :: rest,hspecial,h =>
    obtain ⟨neighbors,_,h⟩ := bind_eq_ok h
    match neighbors,h with
    | [],h => cases h
    | _ :: _ :: _,h => cases h
    | [node2],h =>
      simp only at h
      split at h
      · cases h
      have hadd : ∀ convert ty hwid, Extends sp convert t (addPlain t ty hwid 0).1 :=
        fun convert ty hwid => (Extends.refl hv).congr (sameLinks_addPlain t ty hwid 0)
      match cluster,hspecial,h with
      | none,hspecial,h =>
        obtain ⟨bli,hbli,h⟩ := bind_eq_ok h
        cases h
        refine .inr ⟨?_,Extends.foldl (fun c => ?_) (fun it hm => ⟨_,bli,query_eq_ok hbli,hm⟩)
          ((hadd _ tid _).congr ⟨rfl,rfl,rfl⟩)⟩
        · rintro ⟨tid',cluster,rest',he⟩
          rw [hspecial] at he
          cases he
        · have := c.toNat_lt
          show c.toNat * 1000 < 2 ^ 32
          omega
      | some cluster,hspecial,h =>
        obtain ⟨ctypes,_,h⟩ := bind_eq_ok h
        match ctypes,h with
        | [],h => cases h
        | _ :: _ :: _,h => cases h
        | [ctype],h =>
          obtain ⟨ni,_,h⟩ := bind_eq_ok h
          obtain ⟨s,hs,h⟩ := bind_eq_ok h
          cases h
          refine .inl ⟨⟨tid,cluster,rest,hspecial⟩,?_⟩
          exact Topology.of_foldlM (P := fun s : ℕ × ℕ × Objects => Extends sp id t s.2.2)
            (fun _ _ _ hext hc => hext.addSpecialComponent hc)
            ((hadd id ctype _).congr ⟨rfl,rfl,rfl⟩) hs

end OnlDaemons.Onldb.BaseTopology

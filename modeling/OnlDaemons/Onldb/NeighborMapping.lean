import OnlDaemons.Onldb.PathCosts

/-!
# Mapping the neighbours of a node to a cluster

The neighbours of a node of the request are mapped one by one to nodes of a cluster. If some could not be mapped and
the load of the others is too much for the link to another cluster, the last ones are given up again.

## Main definitions

- `MappingCluster`, `NeighborMapping`
- `Scheduling.findAvailableNode`
- `Scheduling.mapNeighbors`, `Scheduling.giveUp` — the two loops of `find_neighbor_mapping`
- `Scheduling.findNeighborMapping`
-/

namespace OnlDaemons.Onldb

/-- `node_load_resource`. An object is in a list once. -/
structure NodeLoad (N : Type) where
  node : N
  load : ℤ := 0
deriving DecidableEq

/-- `mapping_cluster_resource`. -/
structure MappingCluster (N : Type) where
  cluster : N
  nodesUsed : List (NodeLoad N) := []
  rnodesUsed : List N := []
  nodes : List N := []
  load : ℤ := 0
  used : Bool := false
  mapped : Bool := false

/-- A neighbour that is mapped by the call, with what was there when it was first tried. -/
structure Tried (N L : Type) where
  candidate : NodeLoad N
  available : N
  cluster : MappingCluster N
  state : Scheduling N L

/-- The variables of `find_neighbor_mapping`. `tried` is what the call has mapped so far. -/
structure NeighborMapping (N L : Type) where
  cluster : MappingCluster N
  unmappedNodes : List (NodeLoad N) := []
  totalLoad : ℤ := 0
  state : Scheduling N L
  tried : List (Tried N L) := []

namespace Scheduling

variable {N L : Type} [DecidableEq N] [DecidableEq L] (s : Scheduling N L)

/-! ### `find_available_node` -/

/-- The node of the base topology that a node of the cluster stands for, if it is one for `node`. -/
def nodeFor (node : N) (fixed : Bool) (c : N) : Option N :=
  let x := s.node c
  if fixed then
    if x.node = (s.node node).node then some c
    else x.parent.filter fun p => (s.node p).node = (s.node node).node
  else
    let type := (s.node node).type
    let found :=
      if x.type = type ∨ x.hostedType = type then some c
      else x.parent.filter fun p => (s.node p).type = type ∨ x.hostedType = type
    found.filter fun n => s.nodeHosted node || !(s.node n).marked

/-- The ports of the real node from the first one with room on. -/
def skipPorts (cap : ℤ) : ℤ → List (ℤ × ℤ) → ℤ × List (ℤ × ℤ)
  | total, [] => (total, [])
  | total, r :: rs => if r.2 < total then skipPorts cap cap rs else (total, r :: rs)

def enoughPorts : ℤ → List (ℤ × ℤ) → List (ℤ × ℤ) → Bool
  | _, [], rports => !rports.isEmpty
  | total, u :: uports, rports =>
    let r := skipPorts u.2 (total + u.2) rports
    !r.2.isEmpty && enoughPorts r.1 uports r.2

def findAvailableLoop (rounds : ℕ) (cluster : MappingCluster N) (node : N) (fixed : Bool) :
    List N → Scheduling N L → Option (Option N × Scheduling N L)
  | [], s => some (none, s)
  | c :: cs, s =>
    match s.nodeFor node fixed c with
    | none => findAvailableLoop rounds cluster node fixed cs s
    | some n =>
      let x := s.node node
      let y := s.node n
      if n ∈ cluster.rnodesUsed ∧ s.nodeHosted node = false then findAvailableLoop rounds cluster node fixed cs s
      else if 0 < y.potentialCorecap ∧ x.coreCapacity ≤ y.potentialCorecap ∧ x.memCapacity ≤ y.potentialMemcap ∧
          ((s.nodeHosted node ∨ y.hasVport ∧ x.portCapacities ≠ []) →
            enoughPorts 0 x.portCapacities y.portCapacities) then
        (s.computePathCosts rounds node n).map fun r => (if r.1 < 0 then none else some n, r.2)
      else if fixed then some (none, s)
      else findAvailableLoop rounds cluster node fixed cs s

def findAvailableNode (rounds : ℕ) (cluster : MappingCluster N) (node : N) (fixed : Bool) :
    Option (Option N × Scheduling N L) :=
  if s.vgige node ∧ cluster.cluster ∉ cluster.rnodesUsed then some (some cluster.cluster, s)
  else s.findAvailableLoop rounds cluster node fixed cluster.nodes

/-! ### `find_neighbor_mapping` -/

/-- The capacities that are left when `node` is mapped to `n`. -/
def takeCapacity (node n : N) : Scheduling N L :=
  let y := s.node n
  s.setNode n (if s.nodeHosted node then
      { y with
        potentialCorecap := y.potentialCorecap - (s.node node).coreCapacity
        potentialMemcap := y.potentialMemcap - (s.node node).memCapacity }
    else { y with potentialCorecap := 0 })

/-- The capacities of `node` are added to those of `n`. -/
def addCapacity (node n : N) : Scheduling N L :=
  let y := s.node n
  s.setNode n { y with
    potentialCorecap := y.potentialCorecap + (s.node node).coreCapacity
    potentialMemcap := y.potentialMemcap + (s.node node).memCapacity }

/-- The node of the cluster for a neighbour. -/
def availableFor (rounds : ℕ) (cluster : MappingCluster N) (node : N) : Option (Option N × Scheduling N L) :=
  if (s.node node).fixed then
    if (s.node cluster.cluster).inNode = (s.node node).inNode then s.findAvailableNode rounds cluster node true
    else some (none, s)
  else s.findAvailableNode rounds cluster node false

/-- A neighbour that is not mapped yet. -/
def tryNeighbor (rounds : ℕ) (root : N) (m : NeighborMapping N L) (x : NodeLoad N) :
    Option (NeighborMapping N L) :=
  let cannot (s : Scheduling N L) := { m with unmappedNodes := m.unmappedNodes ++ [x], state := s }
  if (m.state.node root).isSplit = false ∨ m.totalLoad + x.load ≤ MAX_INTERCLUSTER_CAPACITY then
    (m.state.availableFor rounds m.cluster x.node).bind fun r =>
      match r.1 with
      | none => some (cannot r.2)
      | some n => (r.2.computePathCosts rounds x.node n).map fun c =>
        if c.1 < 0 then cannot c.2
        else {
          cluster := { m.cluster with
            nodesUsed := m.cluster.nodesUsed ++ [x], rnodesUsed := m.cluster.rnodesUsed ++ [n] }
          unmappedNodes := m.unmappedNodes
          totalLoad := m.totalLoad + x.load
          state := c.2.takeCapacity x.node n
          tried := m.tried ++ [{ candidate := x, available := n, cluster := m.cluster, state := m.state }] }
  else some (cannot m.state)

/-- The neighbour has been mapped before. -/
def mappedBefore (m : NeighborMapping N L) (x : NodeLoad N) : Bool :=
  (m.state.node x.node).marked || m.cluster.nodesUsed.any fun y => y.node = x.node

/-- The load of a neighbour that has been mapped to the cluster. -/
def loadBefore (m : NeighborMapping N L) (x : NodeLoad N) : ℤ :=
  let there (u : N) : Bool := (m.state.node u).inNode = (m.state.node m.cluster.cluster).inNode
  if (m.state.node x.node).marked && !((m.state.node x.node).mappedNode.any there) then 0 else x.load

def mapNeighbors (rounds : ℕ) (root : N) : List (NodeLoad N) → NeighborMapping N L → Option (NeighborMapping N L)
  | [], m => some m
  | x :: xs, m =>
    if mappedBefore m x then mapNeighbors rounds root xs { m with totalLoad := m.totalLoad + loadBefore m x }
    else (tryNeighbor rounds root m x).bind (mapNeighbors rounds root xs)

/-- A node that is given up is put before the first one that does not cost more. -/
def insertUnmapped (x : NodeLoad N) : List (NodeLoad N) → List (NodeLoad N)
  | [] => [x]
  | u :: us => if (s.node x.node).cost ≥ (s.node u.node).cost then x :: u :: us else u :: insertUnmapped x us

/-- The loop that gives up nodes, with the nodes in front of the reverse iterator, the last one first, and those
behind it. The iterator stands on the node before when its own has been removed, and it has no node then if it
was at the first. -/
def giveUp : List (NodeLoad N) → List (NodeLoad N) → NeighborMapping N L → Option (NeighborMapping N L)
  | [], _, m => some m
  | [_], _, _ => none
  | x :: y :: front, behind, m =>
    match m.cluster.rnodesUsed.getLast? with
    | none => none
    | some n =>
      let m : NeighborMapping N L := {
        cluster := { m.cluster with
          nodesUsed := front.reverse ++ y :: behind, rnodesUsed := m.cluster.rnodesUsed.dropLast }
        unmappedNodes := m.state.insertUnmapped x m.unmappedNodes
        totalLoad := m.totalLoad - x.load
        state := m.state.addCapacity y.node n
        tried := m.tried }
      if m.totalLoad ≤ MAX_INTERCLUSTER_CAPACITY then some m else giveUp front (y :: behind) m

/-- Nodes have to be given up. -/
def rollsBack (root : N) (m : NeighborMapping N L) : Bool :=
  m.state.vgige root && !m.unmappedNodes.isEmpty && decide (m.totalLoad > MAX_INTERCLUSTER_CAPACITY)

def rollBack (m : NeighborMapping N L) : Option (NeighborMapping N L) := giveUp m.cluster.nodesUsed.reverse [] m

def findNeighborMapping (rounds : ℕ) (cluster : MappingCluster N) (unmapped : List (NodeLoad N)) (root : N)
    (neighbors : List (NodeLoad N)) : Option (NeighborMapping N L) :=
  (mapNeighbors rounds root neighbors { cluster, unmappedNodes := unmapped, state := s }).bind fun m =>
    if rollsBack root m then rollBack m else some m

end Scheduling

end OnlDaemons.Onldb

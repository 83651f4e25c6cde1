import Mathlib
import OnlDaemons.Onldb.CheapestPath

/-!
# The cost of a mapping and the mapping itself

`compute_path_costs` looks for the paths that a node of the request would need and subtracts their loads from the
potential capacities. `map_edges` looks for the same paths when the node is mapped, and adds the loads.

## Main definitions

- `Scheduling.computePathCosts`, and `Scheduling.mappingPathCosts` for a node with its children
- `Scheduling.mapEdges`, and `Scheduling.mapNode` for a node with its children
-/

namespace OnlDaemons.Onldb

/-- `a - b` of `unsigned int`. -/
def unsignedSub (a b : ℕ) : ℕ := (a + 2 ^ 32 - b % 2 ^ 32) % 2 ^ 32

namespace Scheduling

variable {N L : Type} [DecidableEq N] [DecidableEq L] (s : Scheduling N L)

def setNode (n : N) (x : SchedNode N L) : Scheduling N L := { s with node := Function.update s.node n x }

def setLink (l : L) (x : SchedLink N L) : Scheduling N L := { s with link := Function.update s.link l x }

/-- What is left of the links of the base topology. -/
def initializeBasePotentialLoads (base : List L) : Scheduling N L :=
  { s with link := fun l =>
      let x := s.link l
      if l ∈ base then
        { x with
          potentialLcap := if x.lload < x.capacity then x.capacity - x.lload else 0
          potentialRcap := if x.rload < x.capacity then x.capacity - x.rload else 0 }
      else x }

/-- The ends of the path for a link of `node`, which is or would be mapped to `n`. -/
def pathEnds (node n : N) (l : L) : Option (PotentialPath N L) :=
  let x := s.link l
  let port (u : N) (p : ℕ) : ℤ := if s.vgige u then -1 else p
  let ends (source sink : N) : PotentialPath N L :=
    { node1 := source, node1Port := port x.node1 x.node1Port, node2 := sink, node2Port := port x.node2 x.node2Port }
  if x.node1 = node then (s.node x.node2).mappedNode.map fun sink => ends n sink
  else (s.node x.node1).mappedNode.map fun source => ends source n

/-! ### `compute_path_costs` -/

def clampedLoad (load : ℕ) : ℤ := min (toSigned load) MAX_INTERCLUSTER_CAPACITY

def lessCap (cap : ℕ) (load : ℤ) : ℕ := if cap < toUnsigned load then 0 else cap - toUnsigned load

/-- The loads are subtracted along the path. -/
def reservePath (rload lload : ℤ) : N → List L → Scheduling N L → Scheduling N L
  | _, [], s => s
  | last, f :: path, s =>
    let x := s.link f
    let subtract (r l : ℤ) :=
      s.setLink f { x with potentialRcap := lessCap x.potentialRcap r, potentialLcap := lessCap x.potentialLcap l }
    if x.node1 ≠ x.node2 then
      if x.node1 = last then reservePath rload lload x.node2 path (subtract rload lload)
      else if x.node2 = last then reservePath rload lload x.node1 path (subtract lload rload)
      else reservePath rload lload last path s
    else reservePath rload lload last path s

def pathCostsLoop (rounds : ℕ) (node n : N) :
    List L → List (PotentialPath N L) → ℤ → Scheduling N L → Option (ℤ × Scheduling N L)
  | [], _, cost, s => some (cost, s)
  | l :: ls, mapped, cost, s =>
    let x := s.link l
    if (x.node1 = node ∧ (s.node x.node2).marked = false) ∨ (x.node2 = node ∧ (s.node x.node1).marked = false) ∨
        x.marked then
      pathCostsLoop rounds node n ls mapped cost s
    else
      (s.pathEnds node n l).bind fun ends => (s.findCheapestPath rounds l ends mapped).bind fun p =>
        if p.cost < 0 then some (-1, s)
        else
          pathCostsLoop rounds node n ls (mapped ++ [{ ends with mappedPath := p.mappedPath }]) (cost + p.cost)
            (s.reservePath (clampedLoad x.rload) (clampedLoad x.lload) ends.node1 p.mappedPath)

def computePathCosts (rounds : ℕ) (node n : N) : Option (ℤ × Scheduling N L) :=
  s.pathCostsLoop rounds node n (s.node node).links [] 0

/-! ### `map_edges` -/

/-- The loads of a link in the two directions of the base link, whose loads end at its capacity. -/
def addLoad (x : SchedLink N L) (r l : ℕ) : SchedLink N L :=
  let rload := (x.rload + r) % 2 ^ 32
  let lload := (x.lload + l) % 2 ^ 32
  { x with
    rload := if rload > x.capacity then x.capacity else rload
    potentialRcap := if rload > x.capacity then 0 else unsignedSub x.potentialRcap r
    lload := if lload > x.capacity then x.capacity else lload
    potentialLcap := if lload > x.capacity then 0 else unsignedSub x.potentialLcap l }

/-- `port_capacities[port] -= load`. -/
def takePort (port : ℤ) (load : ℕ) : List (ℤ × ℤ) → List (ℤ × ℤ)
  | [] => [(port, -load)]
  | (p, c) :: ps =>
    if port = p then (p, c - load) :: ps
    else if port < p then (port, -load) :: (p, c) :: ps
    else (p, c) :: takePort port load ps

def takePortOf (n : N) (port load : ℕ) : Scheduling N L :=
  s.setNode n { s.node n with portCapacities := takePort port load (s.node n).portCapacities }

/-- The path becomes the mapped path of the link. -/
def mapPath (l : L) (source sink : N) : N → Bool → List L → Scheduling N L → Scheduling N L
  | _, _, [], s => s
  | last, sourceSeen, f :: path, s =>
    let x := s.link l
    let right : Bool := last = (s.link f).node1
    let s := s.setLink f (if right then addLoad (s.link f) x.rload x.lload else addLoad (s.link f) x.lload x.rload)
    let y := s.link f
    let near := if right then (y.node1Port, y.rload) else (y.node2Port, y.lload)
    let far := if right then (y.node2, y.node2Port, y.lload) else (y.node1, y.node1Port, y.rload)
    let s := s.setLink l { s.link l with
      mappedPath := (s.link l).mappedPath ++ [f], mpLinkdir := (s.link l).mpLinkdir ++ [right] }
    if last = source ∧ sourceSeen = false then
      mapPath l source sink far.1 true path
        ((s.setLink l { s.link l with node1Rport := near.1 }).takePortOf source near.1 near.2)
    else if far.1 = sink ∧ sourceSeen then
      mapPath l source sink far.1 sourceSeen path
        ((s.setLink l { s.link l with node2Rport := far.2.1 }).takePortOf sink far.2.1 far.2.2)
    else mapPath l source sink far.1 sourceSeen path s

def mapLink (l : L) (ends : PotentialPath N L) (path : List L) : Scheduling N L :=
  let s := s.mapPath l ends.node1 ends.node2 ends.node1 false path
  s.setLink l { s.link l with marked := true }

def mapEdgesLoop (rounds : ℕ) (unode rnode : N) : List L → Scheduling N L → Option (Scheduling N L)
  | [], s => some s
  | l :: ls, s =>
    let x := s.link l
    let other := if x.node1 = unode then x.node2 else x.node1
    if x.marked ∨ (s.node other).marked = false then mapEdgesLoop rounds unode rnode ls s
    else
      (s.pathEnds unode rnode l).bind fun ends => (s.findCheapestPath rounds l ends []).bind fun p =>
        mapEdgesLoop rounds unode rnode ls (if p.cost < 0 then s else s.mapLink l ends p.mappedPath)

def mapEdges (rounds : ℕ) (base : List L) (unode rnode : N) : Option (Scheduling N L) :=
  let s := s.initializeBasePotentialLoads base
  s.mapEdgesLoop rounds unode rnode (s.node unode).links

/-! ### A node with its children -/

/-- The children of a cluster of hardware are each compared with the first child of the real one that has its type
and has not been used. -/
def childCosts (rounds : ℕ) (reals : List N) : List N → List N → ℤ → Scheduling N L → Option (ℤ × Scheduling N L)
  | [], _, cost, s => some (cost, s)
  | u :: us, used, cost, s =>
    match reals.find? fun r => (s.node r).type = (s.node u).type ∧ r ∉ used with
    | none => some (-1, s)
    | some r => (s.computePathCosts rounds u r).bind fun c =>
      if c.1 < 0 then some (-1, c.2) else childCosts rounds reals us (used ++ [r]) (cost + c.1) c.2

/-- The part of `compute_mapping_cost` that looks for paths to the nodes that are mapped, when `node` would be
mapped to `n` at the cluster with the number `cin`. -/
def mappingPathCosts (rounds : ℕ) (base : List L) (cin : ℕ) (node n : N) : Option (ℤ × Scheduling N L) :=
  (s.getSubnet rounds node 0).bind fun subnet =>
    if s.vgige node && s.subnetMapped subnet cin [] none then some (-1, s)
    else
      let s := s.initializeBasePotentialLoads base
      if (s.node node).isParent then childCosts rounds (s.node n).nodeChildren (s.node node).nodeChildren [] 0 s
      else s.computePathCosts rounds node n

/-- A node of the request is mapped to a node of the base topology. -/
def markNode (node rnode : N) (cin : ℕ) : Scheduling N L :=
  let s := s.setNode node { s.node node with marked := true, mappedNode := some rnode, inNode := cin }
  s.setNode rnode { s.node rnode with
    marked := true
    coreCapacity := (s.node rnode).coreCapacity - (s.node node).coreCapacity
    memCapacity := (s.node rnode).memCapacity - (s.node node).memCapacity
    userNodes := (s.node rnode).userNodes ++ [node] }

def mapChildren (reals : List N) : List N → Scheduling N L → Scheduling N L
  | [], s => s
  | u :: us, s =>
    if (s.node u).marked then mapChildren reals us s
    else
      match reals.find? fun r => (s.node r).marked = false ∧ (s.node r).type = (s.node u).type with
      | none => mapChildren reals us s
      | some r => mapChildren reals us (s.markNode u r (s.node r).inNode)

/-- The links of the children. A child that is not mapped ends the call. -/
def mapChildEdges (rounds : ℕ) (base : List L) : List N → Scheduling N L → Option (Scheduling N L)
  | [], s => some s
  | u :: us, s =>
    match (s.node u).marked, (s.node u).mappedNode with
    | true, some r => (s.mapEdges rounds base u r).bind (mapChildEdges rounds base us)
    | _, _ => some s

/-- `map_node` with the node and its links. The neighbours are mapped after that. -/
def mapNode (rounds : ℕ) (base : List L) (cin : ℕ) (node n : N) : Option (Scheduling N L) :=
  let s := s.markNode node n cin
  if (s.node node).isParent then
    let s := mapChildren (s.node n).nodeChildren (s.node node).nodeChildren s
    mapChildEdges rounds base (s.node node).nodeChildren s
  else s.mapEdges rounds base node n

end Scheduling

end OnlDaemons.Onldb

import Mathlib
import OnlDaemons.Lib.Offers

/-!
# Paths through the base topology

A link of a request is mapped to a path of the base topology that goes from switch to switch and has room for
the load of the link. The search keeps the cheapest path to each node for one number of links after the other.

## Main definitions

- `Scheduling` — the nodes and links of the request and of the base topology
- `Scheduling.getSubnet`, `Scheduling.subnetMapped`
- `Scheduling.findCheapestPath`

The loops take a number of rounds and have no result when it is too small.
-/

namespace OnlDaemons.Onldb
open OnlDaemons.Lib

/-- `node_resource` as the scheduling uses it. `inNode` is the field `in`, and `portCapacities` is in the order of
the ports. -/
structure SchedNode (N L : Type) where
  type : String := ""
  devType : String := ""
  hostedType : String := ""
  node : String := ""
  isParent : Bool := false
  parent : Option N := none
  nodeChildren : List N := []
  links : List L := []
  userNodes : List N := []
  hasVport : Bool := false
  fixed : Bool := false
  marked : Bool := false
  inNode : ℕ := 0
  cost : ℕ := 0
  mappedNode : Option N := none
  isSplit : Bool := false
  coreCapacity : UInt32 := 0
  memCapacity : UInt32 := 0
  potentialCorecap : UInt32 := 0
  potentialMemcap : UInt32 := 0
  portCapacities : List (ℤ × ℤ) := []

/-- `link_resource` as the scheduling uses it. -/
structure SchedLink (N L : Type) where
  label : ℕ := 0
  capacity : ℕ := 0
  node1 : N
  node1Port : ℕ := 0
  node1Capacity : ℕ := 0
  node2 : N
  node2Port : ℕ := 0
  node2Capacity : ℕ := 0
  marked : Bool := false
  rload : ℕ := 0
  lload : ℕ := 0
  cost : ℤ := 0
  potentialRcap : ℕ := 0
  potentialLcap : ℕ := 0
  node1Rport : ℤ := 0
  node2Rport : ℤ := 0
  mappedPath : List L := []
  mpLinkdir : List Bool := []

/-- The nodes and links that are reached through pointers. -/
structure Scheduling (N L : Type) where
  node : N → SchedNode N L
  link : L → SchedLink N L

/-- The `link_resource` for a path that is looked for. Its label is never set. -/
structure PotentialPath (N L : Type) where
  label : ℕ := 0
  node1 : N
  node1Port : ℤ
  node2 : N
  node2Port : ℤ
  mappedPath : List L := []

structure SubnetInfo (N L : Type) where
  nodes : List N := []
  links : List L := []

/-- `link_path`. -/
structure LinkPath (N L : Type) where
  path : List L := []
  sink : N
  cost : ℤ := 0
  sinkPort : ℤ

/-- What a call of `find_cheapest_path` returns, with the path it has found. -/
structure CheapestPath (L : Type) where
  cost : ℤ
  mappedPath : List L := []
deriving DecidableEq

def MAX_INTERCLUSTER_CAPACITY : ℕ := 10000

/-- An `unsigned int` that is stored in an `int`. -/
def toSigned (n : ℕ) : ℤ := if n < 2 ^ 31 then n else (n : ℤ) - 2 ^ 32

/-- An `int` that is compared with an `unsigned int`. -/
def toUnsigned (z : ℤ) : ℕ := (z % 2 ^ 32).toNat

namespace Scheduling

variable {N L : Type} [DecidableEq N] [DecidableEq L] (s : Scheduling N L)

def infrastructure (n : N) : Bool := (s.node n).devType = "infrastructure"

def nodeHosted (n : N) : Bool := (s.node n).devType = "hosted"

def vgige (n : N) : Bool := (s.node n).type = "vgige"

/-! ### The subnet of a link -/

/-- The lists of `get_subnet`. -/
structure SubnetSearch (N L : Type) extends SubnetInfo N L where
  pending : List N := []

/-- A link leads to a node. -/
def seeNode (b : SubnetSearch N L) (n : N) (l : L) : SubnetSearch N L :=
  if n ∈ b.nodes then b
  else {
    nodes := b.nodes ++ [n]
    links := if l ∈ b.links then b.links else b.links ++ [l]
    pending := if s.vgige n ∧ n ∉ b.pending then b.pending ++ [n] else b.pending }

/-- The first nodes of the subnet. -/
def subnetStart (source : N) (port : ℕ) : SubnetSearch N L :=
  if s.vgige source then { nodes := [source], pending := [source] }
  else
    (s.node source).links.foldl (fun b l =>
      let x := s.link l
      if x.node1 = source ∧ x.node1Port = port then s.seeNode b x.node2 l
      else if x.node2 = source ∧ x.node2Port = port then s.seeNode b x.node1 l
      else b) { nodes := [source] }

/-- The links of a pending node. -/
def subnetVisit (b : SubnetSearch N L) (p : N) : SubnetSearch N L :=
  (s.node p).links.foldl (fun b l =>
    s.seeNode b (if (s.link l).node1 = p then (s.link l).node2 else (s.link l).node1) l) b

def subnetLoop : ℕ → SubnetSearch N L → Option (SubnetInfo N L)
  | 0, _ => none
  | rounds + 1, b =>
    match b.pending with
    | [] => some b.toSubnetInfo
    | p :: _ =>
      let b := s.subnetVisit b p
      subnetLoop rounds { b with pending := b.pending.tail }

def getSubnet (rounds : ℕ) (source : N) (port : ℕ) : Option (SubnetInfo N L) :=
  s.subnetLoop rounds (s.subnetStart source port)

/-- The path has two links with an end at the switch of the cluster. -/
def passes (path : List L) (cin : ℕ) : Bool :=
  let atSwitch (n : N) := (s.node n).inNode = cin ∧ s.infrastructure n
  1 < path.countP fun l => atSwitch (s.link l).node1 ∨ atSwitch (s.link l).node2

def subnetMapped (subnet : SubnetInfo N L) (cin : ℕ) (mappings : List (PotentialPath N L))
    (excluded : Option N) : Bool :=
  (subnet.nodes.any fun n =>
    (s.node n).marked ∧ s.vgige n ∧ (s.node n).inNode = cin ∧ excluded ≠ some n) ||
  (subnet.links.any fun l => (s.link l).marked ∧ s.passes (s.link l).mappedPath cin) ||
  mappings.any fun p => (subnet.links.any fun l => (s.link l).label = p.label) ∧ s.passes p.mappedPath cin

/-! ### The search -/

/-- The arguments of `find_cheapest_path`, and the subnet of the link. -/
structure PathQuery (N L : Type) where
  ulink : L
  ends : PotentialPath N L
  mappings : List (PotentialPath N L)
  subnet : SubnetInfo N L

variable (q : PathQuery N L)

def rloadOf : ℤ := min (toSigned (s.link q.ulink).rload) MAX_INTERCLUSTER_CAPACITY

def lloadOf : ℤ := min (toSigned (s.link q.ulink).lload) MAX_INTERCLUSTER_CAPACITY

/-- The other end of a link of the last node of a path: the node, its port, and whether the link is taken from
its first end to its second. -/
def otherEnd (p : LinkPath N L) (l : L) : Option (N × ℤ × Bool) :=
  let x := s.link l
  let leaves (port : ℕ) := p.sink ≠ q.ends.node1 ∨ p.sinkPort < 0 ∨ p.sinkPort = port ∨ (s.node p.sink).hasVport
  let portOf (n : N) (port : ℕ) : ℤ := if s.infrastructure n then -1 else port
  if x.node1 = p.sink ∧ leaves x.node1Port then some (x.node2, portOf x.node2 x.node2Port, true)
  else if x.node2 = p.sink ∧ leaves x.node2Port then some (x.node1, portOf x.node1 x.node1Port, false)
  else none

/-- The vgige or a link of the subnet is already at one of the two switches. -/
def switchTaken (node1 node2 : N) : Bool :=
  let excluded2 := if node2 = q.ends.node2 then some (s.link q.ulink).node2 else none
  let excluded1 := if node1 = q.ends.node1 then some (s.link q.ulink).node1 else none
  s.subnetMapped q.subnet (s.node node2).inNode q.mappings excluded2 ||
    s.subnetMapped q.subnet (s.node node1).inNode q.mappings excluded1

/-- A path with one more link, if the link can be taken. -/
def extendPath (seen : List N) (p : LinkPath N L) (l : L) : Option (LinkPath N L) :=
  match s.otherEnd q p l with
  | none => none
  | some (node2, port2, isRight) =>
    let sink := q.ends.node2
    if (node2 ∉ seen ∧ s.infrastructure node2) ∨
        (node2 = sink ∧ (port2 = q.ends.node2Port ∨ (s.node sink).hasVport)) then
      let x := s.link l
      let lcap := toSigned (if isRight then x.potentialLcap else x.potentialRcap)
      let rcap := toSigned (if isRight then x.potentialRcap else x.potentialLcap)
      let interswitch := s.infrastructure p.sink && s.infrastructure node2
      if interswitch && (rcap < s.rloadOf q || lcap < s.lloadOf q || s.switchTaken q p.sink node2) then none
      else
        let lcap := if interswitch then lcap - s.lloadOf q else lcap
        let rcap := if interswitch then rcap - s.rloadOf q else rcap
        let pcost := if interswitch then p.cost + ((s.link q.ulink).cost + (rcap + lcap) / 2) else p.cost
        if p.sink = q.ends.node1 ∧ (s.node q.ends.node1).hasVport ∧
            toUnsigned rcap < (s.link q.ulink).node1Capacity then none
        else if node2 = sink ∧ (s.node sink).hasVport ∧
            toUnsigned lcap < (s.link q.ulink).node2Capacity then none
        else some { path := p.path ++ [l], sink := node2, cost := pcost, sinkPort := port2 }
    else none

/-- A path is replaced in its place by a cheaper one to the same node. -/
def addPath : List (LinkPath N L) → LinkPath N L → List (LinkPath N L) := offer LinkPath.sink LinkPath.cost

/-- The links of the last node of a path. -/
def expandPath (seen : List N) (paths : List (LinkPath N L)) (p : LinkPath N L) : List (LinkPath N L) :=
  ((s.node p.sink).links.filterMap (s.extendPath q seen p)).foldl addPath paths

/-- As many paths are taken from the front as there were when the level began. -/
def expandLevel (seen : List N) : ℕ → List (LinkPath N L) → List (LinkPath N L)
  | n + 1, p :: paths => expandLevel seen n (s.expandPath q seen paths p)
  | _, paths => paths

/-- The nodes of a level other than the sink have been seen. -/
def seePaths (sink : N) (seen : List N) (paths : List (LinkPath N L)) : List N :=
  paths.foldl (fun seen p => if p.sink = sink ∨ p.sink ∈ seen then seen else seen ++ [p.sink]) seen

/-- The path to the sink, once there is one. -/
def searchLoop : ℕ → List N → List (LinkPath N L) → Option (Option (LinkPath N L))
  | 0, _, _ => none
  | rounds + 1, seen, paths =>
    if paths.isEmpty then some none
    else
      let paths := s.expandLevel q seen paths.length paths
      match (paths.filter fun p => p.sink = q.ends.node2).getLast? with
      | some p => some (some p)
      | none => searchLoop rounds (seePaths q.ends.node2 seen paths) paths

/-- The two ends are on one node, which connects them itself. -/
def sameHost (ulink : L) (ends : PotentialPath N L) : Bool :=
  let n1 := (s.link ulink).node1
  let n2 := (s.link ulink).node2
  ends.node1 = ends.node2 ∧
    (s.nodeHosted n1 ∧ s.nodeHosted n2 ∨ s.nodeHosted n1 ∧ s.vgige n2 ∨ s.vgige n1 ∧ s.nodeHosted n2)

def findCheapestPath (rounds : ℕ) (ulink : L) (ends : PotentialPath N L)
    (mappings : List (PotentialPath N L)) : Option (CheapestPath L) :=
  (s.getSubnet rounds (s.link ulink).node1 (s.link ulink).node1Port).bind fun subnet =>
    if s.sameHost ulink ends then some { cost := 0 }
    else
      let q : PathQuery N L := { ulink, ends, mappings, subnet }
      (s.searchLoop q rounds [] [{ sink := ends.node1, sinkPort := ends.node1Port }]).map fun
        | some p => { cost := p.cost, mappedPath := p.path }
        | none => { cost := -1 }

end Scheduling

end OnlDaemons.Onldb

import OnlDaemons.Onldb.AssignList

/-!
# Filling in a topology

`fill_in_topology` looks for the user's topology in the topology that was reserved: it takes
the subtopologies one by one, puts the first node of the rarest type on each reserved node of
that type in turn, and from there follows the links of both topologies together.

The search keeps what it writes into both topologies. Next to the fields of the source it
notes, for each user node and link, which reserved one its fields were copied from, and it
keeps a log of what it brought together at which level; no test of the code looks at these.

## Main definitions

- `Search` — the fields of both topologies that the search reads and writes
- `findMapping` — put one user node on one reserved node and follow its links
- `subsetAssign`, `fillInTopology`
-/

namespace OnlDaemons.Onldb

/-- What the search writes into a node of the user's topology. -/
structure UserNode where
  marked : Bool := false
  node : String := ""
  acl : String := "unused"
  cp : String := "unused"
  vmid : ℕ := 0
  rootOnly : Bool := false
  level : ℕ := 0
  /-- the reserved node whose fields these are -/
  res : ℕ := 0

/-- What the search writes into a link of the user's topology. -/
structure UserLink where
  marked : Bool := false
  conns : List ℤ := []
  node1Rport : ℤ := 0
  node2Rport : ℤ := 0
  /-- the reserved link whose connections these are -/
  res : ℕ := 0

/-- What the search writes into the nodes and links of the reserved topology. -/
structure Mark where
  marked : Bool := false
  level : ℕ := 0

/-- What the search brought together. -/
inductive Event
  /-- the user node took the fields of the reserved node -/
  | node (a r : ℕ)
  /-- the clusters of these two were compared, or the first took the name of the second -/
  | parent (p q : ℕ)
  /-- the user link took the connections of the reserved link, and `find_mapping` was called for
  the nodes at their other ends -/
  | link (l m a r : ℕ)
deriving DecidableEq

/-- The user node and the reserved node that an event brought together. -/
def Event.pair : Event → ℕ × ℕ
  | node a r => (a, r)
  | parent p q => (p, q)
  | link _ _ a r => (a, r)

structure Search where
  nodes : ℕ → UserNode
  links : ℕ → UserLink
  resNodes : ℕ → Mark
  resLinks : ℕ → Mark
  log : List (ℕ × Event)

namespace Search

variable (t res : Topology) (level : ℕ)

/-- Everything unmarked and cleared. -/
def start : Search where
  nodes a := { vmid := (t.node a).vmid, rootOnly := (t.node a).rootOnly }
  links l := { node1Rport := (t.link l).end1.rport, node2Rport := (t.link l).end2.rport }
  resNodes _ := {}
  resLinks _ := {}
  log := []

/-- The user node takes the fields of the reserved node. -/
def assign (s : Search) (a r : ℕ) : Search :=
  { s with
    nodes := Function.update s.nodes a
      { s.nodes a with
        marked := true
        node := (res.node r).node
        acl := (res.node r).acl
        cp := (res.node r).cp
        vmid := (res.node r).vmid
        rootOnly := (res.node r).rootOnly
        res := r }
    resNodes := Function.update s.resNodes r ⟨true, level⟩
    log := s.log ++ [(level, .node a r)] }

/-- A cluster that is not marked yet takes the name of the reserved cluster. -/
def adopt (s : Search) (p q : ℕ) : Search :=
  if (s.nodes p).marked then { s with log := s.log ++ [(level, .parent p q)] }
  else
    { s with
      nodes := Function.update s.nodes p
        { s.nodes p with marked := true, node := (res.node q).node, level, res := q }
      resNodes := Function.update s.resNodes q ⟨true, level⟩
      log := s.log ++ [(level, .parent p q)] }

/-- The two assignments that `find_mapping` makes before it looks at the links. -/
def place (s : Search) (a r : ℕ) : Search :=
  match (t.node a).parent, (res.node r).parent with
  | some p, some q => (s.assign res level a r).adopt res level p q
  | _, _ => s.assign res level a r

/-- The test on the clusters in `find_mapping`: none when it follows the null parent of a
reserved node outside any cluster. -/
def parentFits (s : Search) (a r : ℕ) : Option Bool :=
  match (t.node a).parent, (res.node r).parent with
  | none, _ => some true
  | some _, none => none
  | some p, some q => some (!(s.nodes p).marked || (s.nodes p).node == (res.node q).node)

end Search

/-- `abs_this_is_loopback`. -/
def Topology.isLoopback (t : Topology) (l : ℕ) : Bool :=
  (t.node (t.link l).end1.node).label = (t.node (t.link l).end2.node).label

/-- Which end of a user link is the one at `a`; true for the first. -/
def Topology.thisSide (t : Topology) (l a : ℕ) : Bool :=
  (t.node (t.link l).end1.node).label = (t.node a).label

/-- `res_this_is_loopback`: nodes are compared by label and virtual machine. -/
def Topology.resIsLoopback (res : Topology) (m : ℕ) : Bool :=
  (res.node (res.link m).end1.node).label = (res.node (res.link m).end2.node).label ∧
    (res.node (res.link m).end1.node).vmid = (res.node (res.link m).end2.node).vmid

/-- Which end of a reserved link is the one at `r`. The ends of a loopback link are switched if
the port of the second does not line up. -/
def Topology.resThisSide (res : Topology) (m r port : ℕ) : Bool :=
  if res.resIsLoopback m then port ≠ (res.link m).end2.port
  else (res.node (res.link m).end1.node).label = (res.node r).label ∧
    (res.node (res.link m).end1.node).vmid = (res.node r).vmid

/-- The type test on the other ends: the same type, or the reserved node hosts the type. -/
def TypeFits (t res : Topology) (a r : ℕ) : Prop :=
  (t.node a).type = (res.node r).type ∨ (res.node r).hostedType = (t.node a).type

instance (t res : Topology) (a r : ℕ) : Decidable (TypeFits t res a r) :=
  inferInstanceAs (Decidable (_ ∨ _))

/-- The inner loop of `find_mapping`: the first unmarked reserved link whose port and capacity
at this end suit the user link decides. It is returned with its side at this end if the other
ends suit too; none where `find_mapping` returns false. -/
def pickLink (t res : Topology) (resLinks : ℕ → Mark) (l a r : ℕ) : List ℕ → Option (ℕ × Bool)
  | [] => none
  | m :: ms =>
    let this := (t.link l).side (t.thisSide l a)
    let other := (t.link l).side (!t.thisSide l a)
    let resThis := (res.link m).side (res.resThisSide m r this.port)
    let resOther := (res.link m).side (!res.resThisSide m r this.port)
    if (resLinks m).marked then pickLink t res resLinks l a r ms
    else if t.isLoopback l ≠ res.resIsLoopback m then pickLink t res resLinks l a r ms
    else if this.port = resThis.port ∧
        (resThis.capacity = 0 ∨ resThis.capacity = this.capacity) then
      if ¬TypeFits t res other.node resOther.node then none
      else if other.port ≠ resOther.port then none
      else some (m, res.resThisSide m r this.port)
    else pickLink t res resLinks l a r ms

/-- The user link takes the connections and the physical interfaces of the reserved link. -/
def Search.join (t res : Topology) (level : ℕ) (s : Search) (l a m : ℕ) (side : Bool) : Search :=
  let this := (t.link l).side (t.thisSide l a)
  let resThis := (res.link m).side side
  let resOther := (res.link m).side (!side)
  let first := t.thisSide l a || (res.resIsLoopback m && this.port == (t.link l).end1.port)
  { s with
    links := Function.update s.links l
      { marked := true
        conns := (res.link m).conns
        node1Rport := if first then resThis.rport else resOther.rport
        node2Rport := if first then resOther.rport else resThis.rport
        res := m }
    resLinks := Function.update s.resLinks m ⟨true, level⟩
    log := s.log ++
      [(level, .link l m ((t.link l).side (!t.thisSide l a)).node resOther.node)] }

/-- The loop of `find_mapping` over the links of the user node. -/
def mapLinks (t res : Topology) (level : ℕ) (find : Search → ℕ → ℕ → Option (Bool × Search))
    (a r : ℕ) : List ℕ → Search → Option (Bool × Search)
  | [], s => some (true, s)
  | l :: ls, s =>
    if (s.links l).marked then mapLinks t res level find a r ls s
    else match pickLink t res s.resLinks l a r (res.node r).links with
      | none => some (false, s)
      | some (m, side) => do
        let (ok, s) ← find (s.join t res level l a m side)
          ((t.link l).side (!t.thisSide l a)).node ((res.link m).side (!side)).node
        if ok then mapLinks t res level find a r ls s else some (false, s)

/-- `find_mapping`; the fuel bounds the depth of the recursion. -/
def findMapping (t res : Topology) (level : ℕ) :
    ℕ → Search → ℕ → ℕ → Option (Bool × Search)
  | 0, _, _, _ => none
  | fuel + 1, s, a, r =>
    if (s.nodes a).marked then some (true, s)
    else if (s.resNodes r).marked then some (false, s)
    else match s.parentFits t res a r with
      | none => none
      | some false => some (false, s)
      | some true =>
        mapLinks t res level (findMapping t res level fuel) a r (t.node a).links
          (s.place t res level a r)

namespace Search

variable (t res : Topology) (level : ℕ)

/-- Unmark a reserved node of this level, with its cluster and its links. -/
def clearReserved (s : Search) (r : ℕ) : Search :=
  if (s.resNodes r).marked ∧ (s.resNodes r).level = level then
    let nodes := Function.update s.resNodes r {}
    { s with
      resNodes := match (res.node r).parent with
        | none => nodes
        | some q => if (nodes q).marked ∧ (nodes q).level = level then Function.update nodes q {}
          else nodes
      resLinks := (res.node r).links.foldl (fun marks m =>
        if (marks m).marked ∧ (marks m).level = level then Function.update marks m {}
        else marks) s.resLinks }
  else s

/-- Unmark and clear a user node, with its links; its cluster only if it is of this level. -/
def clearUser (s : Search) (a : ℕ) : Search :=
  let nodes := Function.update s.nodes a
    { s.nodes a with marked := false, node := "", acl := "unused", cp := "unused", vmid := 0 }
  { s with
    nodes := match (t.node a).parent with
      | none => nodes
      | some p => if (nodes p).marked ∧ (nodes p).level = level then
          Function.update nodes p { nodes p with marked := false, level := 0 }
        else nodes
    links := (t.node a).links.foldl (fun links l => Function.update links l
      { links l with marked := false, conns := [], node1Rport := -1, node2Rport := -1 }) s.links }

/-- What `subset_assign` does before the next try. -/
def cleanUp (rl al : List AssignInfo) (s : Search) : Search :=
  let s := (rl.flatMap (·.testbedNodes)).foldl (clearReserved res level) s
  let s := (al.flatMap (·.userNodes)).foldl (clearUser t level) s
  { s with log := s.log.filter (·.1 ≠ level) }

end Search

/-- The loop of `subset_assign` over the reserved nodes of one type. -/
def tryNodes (find : Search → ℕ → Option (Bool × Search)) (next : Search → Option (Bool × Search))
    (clean : Search → Search) : List ℕ → Search → Option (Bool × Search)
  | [], s => some (false, s)
  | r :: rs, s =>
    if (s.resNodes r).marked then tryNodes find next clean rs s
    else do
      let (found, s) ← find s r
      if found then
        let (ok, s) ← next s
        if ok then some (true, s) else tryNodes find next clean rs (clean s)
      else tryNodes find next clean rs (clean s)

/-- `subset_assign`. -/
def subsetAssign (t res : Topology) (fuel : ℕ) (rl : List AssignInfo) :
    List (List AssignInfo) → ℕ → Search → Option (Bool × Search)
  | [], _, s => some (true, s)
  | [] :: _, _, _ => none
  | (ai :: al) :: rest, level, s =>
    match ai.userNodes, rl.find? (fun ri => ai.type = ri.type) with
    | _, none => some (false, s)
    | [], some _ => none
    | a :: _, some ri =>
      tryNodes (fun s r => findMapping t res level fuel s a r)
        (fun s => subsetAssign t res fuel rl rest (level + 1) s)
        (Search.cleanUp t res level rl (ai :: al)) ri.testbedNodes s

/-- `num_abs`: how many nodes of the type the user wants. -/
def numAbs (lists : List (List AssignInfo)) (type : String) : ℕ :=
  ((lists.flatten.filter (fun ai => ai.type = type)).map (fun ai => ai.userNodes.length)).sum

/-- The two checks on the numbers of nodes of each type, with the text of the error. -/
def checkTypes (lists : List (List AssignInfo)) (rl : List AssignInfo) : Option String :=
  match rl.find? (fun ri => numAbs lists ri.type > ri.testbedNodes.length) with
  | some ri => some ("you requested more " ++ ri.type ++ "s than you reserved")
  | none => match lists.flatten.find? (fun ai => rl.all (fun ri => ai.type ≠ ri.type)) with
    | some ai => some ("you requested a type " ++ ai.type ++ "s that you didn't reserve")
    | none => none

/-- `fill_in_topology`, given the answer of `get_topology`. None stands for a null pointer
followed, or for fuel that does not suffice. -/
def fillInTopology (fuel : ℕ) (t : Topology) (reserved : Except (ℤ × String) Topology) :
    Option (Except (ℤ × String) Search) := do
  let lists ← assignLists t fuel (List.range t.nodes.length) ⟨fun _ => false, fun _ => false, []⟩
  match reserved with
  | .error e => some (.error e)
  | .ok res =>
    let rl := reservedList res (List.range res.nodes.length) []
    match checkTypes lists rl with
    | some msg => some (.error (0, msg))
    | none => do
      let (ok, s) ← subsetAssign t res fuel rl lists 1 (Search.start t)
      if ok then some (.ok s)
      else some (.error (0, "the requested topology does not match what was reserved"))

end OnlDaemons.Onldb

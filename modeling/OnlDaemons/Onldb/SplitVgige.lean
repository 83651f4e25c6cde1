import OnlDaemons.Onldb.EdgeLoads
import OnlDaemons.Onldb.NeighborMapping

/-!
# Splitting a vgige

The neighbours of a vgige that could not be mapped to its cluster are mapped to other clusters. In each round every
cluster that is not used yet is given as many of them as it can take. The cluster with the greatest load that has a path
to the vgige is used, and the others give their nodes back for the next round.

The lists of a cluster that gives its nodes back are not both cleared: `rnodes_used` stays as it is. A cluster that
would have been used, but for its path, gives nothing back. And resetting a cluster leaves its load.

## Main definitions

- `Scheduling.resetCluster`
- `Scheduling.splitRound`, `Scheduling.splitVgige`
- `Scheduling.SplitOk` — what the clusters that are used should be
- `Scheduling.Begins` — the states in which the rounds of a call begin
- `Scheduling.ChoosesFresh` — the cluster that is used has been given nothing before the round
-/

namespace OnlDaemons.Onldb

def CANT_SPLIT_VGIGE_COST : ℤ := 20

/-- `split_vgige` at the beginning of a round. -/
structure SplitState (N L : Type) where
  clusters : List (MappingCluster N)
  unodes : List (NodeLoad N)
  cost : ℤ := 0
  state : Scheduling N L

/-- What stays the same in a call. `lnk` is the new link from the vgige to itself. -/
structure SplitQuery (N L : Type) where
  lnk : L
  rload : ℕ
  root : N
  rnode : N
  base : List L

/-- The clusters that the second loop of a round has passed, with the best one between them. -/
structure SplitChoice (N L : Type) where
  before : List (MappingCluster N) := []
  best : Option (MappingCluster N) := none
  bestCost : ℤ := 0
  after : List (MappingCluster N) := []
  state : Scheduling N L

/-- A cluster gives its nodes back. -/
def MappingCluster.giveBack {N : Type} (c : MappingCluster N) : MappingCluster N :=
  { c with nodesUsed := [], load := 0 }

namespace Scheduling

variable {N L : Type} [DecidableEq N] [DecidableEq L] (s : Scheduling N L)

/-! ### `reset_cluster` -/

def resetCapacities (n : N) : Scheduling N L :=
  let y := s.node n
  s.setNode n { y with potentialCorecap := y.coreCapacity, potentialMemcap := y.memCapacity }

def resetNode (n : N) : Scheduling N L :=
  match (s.node n).parent with
  | none => s.resetCapacities n
  | some p => (s.resetCapacities n).resetCapacities p

/-- The load stays as it is. -/
def resetCluster (c : MappingCluster N) : MappingCluster N × Scheduling N L :=
  ({ c with
      used := false
      rnodesUsed := []
      nodesUsed := []
      mapped := c.mapped || c.nodes.any fun n => (s.node n).marked },
    c.nodes.foldl resetNode s)

/-! ### The first loop of a round -/

/-- The nodes that the cluster can take, until the load is too much. -/
def offerLoop (rounds : ℕ) :
    List (NodeLoad N) → MappingCluster N → Bool → Scheduling N L → Option (MappingCluster N × Bool × Scheduling N L)
  | [], c, found, s => some (c, found, s)
  | x :: xs, c, found, s =>
    if c.load + x.load > MAX_INTERCLUSTER_CAPACITY then some (c, found, s)
    else (s.findAvailableNode rounds c x.node (s.node x.node).fixed).bind fun r =>
      match r.1 with
      | some n => offerLoop rounds xs { c with
          nodesUsed := c.nodesUsed ++ [x], rnodesUsed := c.rnodesUsed ++ [n], load := c.load + x.load } true r.2
      | none => offerLoop rounds xs c found r.2

/-- The loop over the clusters, and whether one has taken a node. -/
def offerAll (rounds : ℕ) (unodes : List (NodeLoad N)) :
    List (MappingCluster N) → Bool → Scheduling N L → Option (List (MappingCluster N) × Bool × Scheduling N L)
  | [], found, s => some ([], found, s)
  | c :: cs, found, s =>
    if c.used then (offerAll rounds unodes cs found s).map fun r => (c :: r.1, r.2)
    else (offerLoop rounds unodes c found s).bind fun r =>
      (offerAll rounds unodes cs r.2.1 r.2.2).map fun t => (r.1 :: t.1, t.2)

/-! ### The second loop of a round -/

/-- The base topology when the path for a cluster with the load is looked for. -/
def splitSearch (q : SplitQuery N L) (load : ℤ) : Scheduling N L :=
  (s.setLink q.lnk {
    node1 := q.root
    node2 := q.root
    rload := q.rload
    lload := toUnsigned load
    cost := calculateEdgeCost (toSigned q.rload) (toSigned (toUnsigned load)) }).initializeBasePotentialLoads q.base

def splitPath (q : SplitQuery N L) (c : MappingCluster N) : PotentialPath N L :=
  { node1 := q.rnode, node1Port := -1, node2 := c.cluster, node2Port := -1 }

/-- The load is greater than that of the best cluster. -/
def beats (c : MappingCluster N) : Option (MappingCluster N) → Bool
  | none => 0 < c.load
  | some b => b.load < c.load

def chooseLoop (rounds : ℕ) (q : SplitQuery N L) :
    List (MappingCluster N) → SplitChoice N L → Option (SplitChoice N L)
  | [], m => some m
  | c :: cs, m =>
    if c.used then chooseLoop rounds q cs { m with after := m.after ++ [c] }
    else if beats c m.best then
      let t := m.state.splitSearch q c.load
      (t.findCheapestPath rounds q.lnk (splitPath q c) []).bind fun p =>
        if 0 ≤ p.cost then
          chooseLoop rounds q cs {
            before := m.before ++ (m.best.map MappingCluster.giveBack).toList ++ m.after
            best := some c
            bestCost := p.cost
            after := []
            state := t }
        else chooseLoop rounds q cs { m with after := m.after ++ [c], state := t }
    else chooseLoop rounds q cs { m with after := m.after ++ [c.giveBack] }

/-! ### The rounds -/

/-- A round, and whether another one follows. -/
def splitRound (rounds : ℕ) (q : SplitQuery N L) (st : SplitState N L) : Option (SplitState N L × Bool) :=
  (offerAll rounds st.unodes st.clusters false st.state).bind fun r =>
    if r.2.1 then
      (chooseLoop rounds q r.1 { state := r.2.2 }).map fun m =>
        match m.best with
        | some b =>
          let unodes := st.unodes.filter (· ∉ b.nodesUsed)
          ({ clusters := m.before ++ { b with used := true } :: m.after
             unodes
             cost := st.cost + m.bestCost
             state := m.state }, decide (1 < unodes.length))
        | none => ({ st with clusters := m.before ++ m.after, state := m.state }, false)
    else some ({ st with clusters := r.1, state := r.2.2 }, false)

def splitLoop (rounds : ℕ) (q : SplitQuery N L) : ℕ → SplitState N L → Option (SplitState N L)
  | 0, _ => none
  | turns + 1, st =>
    if st.unodes.isEmpty then some st
    else (splitRound rounds q st).bind fun r => if r.2 then splitLoop rounds q turns r.1 else some r.1

/-- The load of the new link towards the vgige. -/
def splitRload (root : N) (unmapped : List (NodeLoad N)) : ℕ :=
  let there (n : N) : Bool := unmapped.any fun x => x.node = n
  min MAX_INTERCLUSTER_CAPACITY ((s.node root).links.foldl (fun rload l =>
    let x := s.link l
    if x.node1 = root ∧ there x.node2 then (rload + x.lload) % 2 ^ 32
    else if x.node2 = root ∧ there x.node1 then (rload + x.rload) % 2 ^ 32
    else rload) 0)

def splitQuery (lnk : L) (unmapped : List (NodeLoad N)) (root rnode : N) (base : List L) : SplitQuery N L :=
  { lnk, rload := s.splitRload root unmapped, root, rnode, base }

/-- The cost, and what has become of the clusters. -/
def splitVgige (rounds turns : ℕ) (lnk : L) (clusters : List (MappingCluster N)) (unmapped : List (NodeLoad N))
    (root rnode : N) (base : List L) : Option (ℤ × SplitState N L) :=
  (splitLoop rounds (s.splitQuery lnk unmapped root rnode base) turns
    { clusters, unodes := unmapped, state := s }).map fun st =>
      (st.cost + CANT_SPLIT_VGIGE_COST * st.unodes.length, st)

/-! ### What the clusters should be -/

/-- The neighbour that `get_lneighbors` counts a link of the vgige for. -/
def leafOf (root : N) (l : L) : Option N :=
  let n := if (s.link l).node1 = root then (s.link l).node2 else (s.link l).node1
  if s.vgige n ∨ n = root then none else some ((s.node n).parent.getD n)

/-- The load of the links to a neighbour. -/
def linkLoad (root n : N) : ℤ :=
  (((s.node root).links.filter fun l => s.leafOf root l = some n).map fun l => ((s.link l).capacity : ℤ)).sum

/-- A base node that may be found in the cluster for a node of the request. -/
def FoundFor (c : MappingCluster N) (u n : N) : Prop :=
  s.vgige u = true ∧ n = c.cluster ∨ ∃ k ∈ c.nodes, s.nodeFor u (s.node u).fixed k = some n

/-- The load of a cluster is that of its nodes, and every node has its base node. -/
structure Matched (root : N) (c : MappingCluster N) : Prop where
  load : c.load = (c.nodesUsed.map fun x => s.linkLoad root x.node).sum
  bound : c.load ≤ MAX_INTERCLUSTER_CAPACITY
  paired : List.Forall₂ (fun x n => s.FoundFor c x.node n) c.nodesUsed c.rnodesUsed

/-- The nodes of the clusters that are used. -/
def usedNodes (clusters : List (MappingCluster N)) : List (NodeLoad N) :=
  (clusters.filter fun c => c.used).flatMap fun c => c.nodesUsed

/-- The clusters that are used share no node and have no other nodes than those given, and each is matched. -/
structure SplitOk (root : N) (unmapped : List (NodeLoad N)) (clusters : List (MappingCluster N)) : Prop where
  nodup : ((usedNodes clusters).map NodeLoad.node).Nodup
  mem : ∀ x ∈ usedNodes clusters, x ∈ unmapped
  matched : ∀ c ∈ clusters, c.used = true → s.Matched root c

/-! ### When they are -/

/-- The states in which a round begins. -/
inductive Begins (rounds : ℕ) (q : SplitQuery N L) (start : SplitState N L) : SplitState N L → Prop
  | first : start.unodes ≠ [] → Begins rounds q start start
  | next {st st'} : Begins rounds q start st → splitRound rounds q st = some (st', true) → Begins rounds q start st'

/-- The cluster that the round uses has no load and no base nodes when the round begins. -/
def ChoosesFresh (rounds : ℕ) (q : SplitQuery N L) (st : SplitState N L) : Prop :=
  ∀ cs s m b c, offerAll rounds st.unodes st.clusters false st.state = some (cs, true, s) →
    chooseLoop rounds q cs { state := s } = some m → m.best = some b → st.clusters[m.before.length]? = some c →
      c.load = 0 ∧ c.rnodesUsed = []

end Scheduling

end OnlDaemons.Onldb

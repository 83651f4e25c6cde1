import Mathlib.Data.List.Find
import Mathlib.Data.List.Nodup
import Mathlib.Logic.Function.Basic
import Mathlib.Tactic.Common
import OnlDaemons.Lib.Run
import OnlDaemons.Onldb.Topology
import OnlDaemons.Onldb.ReservationQueries

/-!
# Edits of a topology

The calls that add nodes and links to a topology and take them out again, with the nodes and links
as objects that the lists of the topology, the parents and the ends of the links point to. `Topology`
has them at their places of the lists, which is enough while nothing fails and nothing is removed.

## Main definitions

- `Objects` — the node and link objects, and the two lists of a topology
- `insertLoop` — the loop of `add_node` and `add_copy_node`
- `Edit`, `Edit.exec` — one call
- `Unchanged`, `Agrees` — nothing has changed; labels, ends, parents and children fit together

## Main results

- `failed_iff` — when a failed call has changed nothing
- `agrees_iff` — when a successful call keeps a topology together
-/

namespace OnlDaemons.Onldb.TopologyEdits
open OnlDaemons.Lib

/-- `port_capacities`, a `std::map<int,int>`. -/
abbrev PortMap := List (ℤ × ℤ)

namespace PortMap

def get (m : PortMap) (k : ℤ) : ℤ := (m.lookup k).getD 0

def set (m : PortMap) (k v : ℤ) : PortMap :=
  if (m.map Prod.fst).contains k then m.map fun e => if e.1 = k then (k,v) else e else m ++ [(k,v)]

/-- `operator[]` puts a key that is missing into the map. -/
def touch (m : PortMap) (k : ℤ) : PortMap := if (m.map Prod.fst).contains k then m else m ++ [(k,0)]

/-- The map after the loop of `add_copy_node` has read it. -/
def touchAll (m : PortMap) : PortMap := (List.range m.length).foldl (fun m (i : ℕ) => touch m i) m

/-- The map that the loop of `add_copy_node` makes. -/
def copied (m : PortMap) : PortMap := (List.range m.length).map fun i => ((i : ℤ),get m i)

end PortMap

/-- `node_resource`. Pointers are the numbers of the objects. -/
structure NodeObject where
  type : String
  label : ℕ
  isParent : Bool := false
  parent : Option ℕ := none
  nodeChildren : List ℕ := []
  links : List ℕ := []
  userNodes : List ℕ := []
  hasVport : Bool := false
  fixed : Bool := false
  node : String := ""
  acl : String := "unused"
  cp : String := "unused"
  marked : Bool := false
  level : ℕ := 0
  priority : ℕ := 0
  inCluster : ℕ := 0
  cost : ℕ := 0
  isSplit : Bool := false
  hostedType : String := ""
  devType : String := ""
  coreCapacity : ℕ := 1
  memCapacity : ℕ := 1
  portCapacities : PortMap := []
  potentialCorecap : ℕ := 1
  potentialMemcap : ℕ := 1
  vmid : ℕ := 0
  extTag : String := ""

/-- `link_resource`. -/
structure LinkObject where
  label : ℕ
  capacity : ℕ
  node1 : ℕ
  node1Port : ℕ
  node1Rport : ℤ
  node1Capacity : ℕ
  node2 : ℕ
  node2Port : ℕ
  node2Rport : ℤ
  node2Capacity : ℕ
  conns : List ℤ := []
  marked : Bool := false
  level : ℕ := 0
  inCluster : ℕ := 0
  linkid : ℕ := 0
  added : Bool := false
  rload : ℕ
  lload : ℕ
  cost : ℤ := 0
  potentialRcap : ℕ
  potentialLcap : ℕ
  userLink : Option ℕ := none

/-- The objects, and the lists `nodes` and `links` of a topology. The next object made is
`nextNode` or `nextLink`. -/
structure Objects where
  nodeAt : ℕ → NodeObject
  linkAt : ℕ → LinkObject
  nextNode : ℕ := 0
  nextLink : ℕ := 0
  nodes : List ℕ := []
  links : List ℕ := []

namespace Objects

def modifyNode (t : Objects) (a : ℕ) (f : NodeObject → NodeObject) : Objects :=
  { t with nodeAt := Function.update t.nodeAt a (f (t.nodeAt a)) }

def newNode (t : Objects) (n : NodeObject) : Objects :=
  { t with nodeAt := Function.update t.nodeAt t.nextNode n, nextNode := t.nextNode + 1 }

/-- What the loops do when they come to the parent `p` of the new node. -/
def adopt (t : Objects) (p hrp : ℕ) : Objects :=
  (t.modifyNode hrp fun n => { n with parent := some p }).modifyNode p fun n =>
    { n with isParent := true, nodeChildren := n.nodeChildren ++ [hrp] }

def pushNode (t : Objects) (hrp : ℕ) : Objects := { t with nodes := t.nodes ++ [hrp] }

/-- The first node of the list with a label. -/
def findNode (t : Objects) (label : ℕ) : Option ℕ :=
  t.nodes.find? fun n => (t.nodeAt n).label = label

def findLink (t : Objects) (label : ℕ) : Option ℕ :=
  t.links.find? fun l => (t.linkAt l).label = label

end Objects

def success : OnldbResp := ⟨1,"success"⟩

def alreadyUsed (label : ℕ) : OnldbResp := ⟨-1,"label " ++ toString label ++ " already used"⟩

def notFound (what : String) (label : ℕ) : OnldbResp := ⟨-1,what ++ toString label ++ " not found"⟩

/-- The loop over the nodes with which `add_node` and `add_copy_node` end, and what follows it. -/
def insertLoop (parentLabel hrp : ℕ) : List ℕ → Bool → Objects → Objects × OnldbResp
  | [], parentFound, t =>
    if parentFound then (t.pushNode hrp,success)
    else (t,notFound "parent_label " parentLabel)
  | n :: ns, parentFound, t =>
    if (t.nodeAt n).label = (t.nodeAt hrp).label then (t,alreadyUsed (t.nodeAt hrp).label)
    else if !parentFound && (t.nodeAt n).label == parentLabel then
      insertLoop parentLabel hrp ns true (t.adopt n hrp)
    else insertLoop parentLabel hrp ns parentFound t

/-- `topology::add_node`. -/
def addNode (t : Objects) (type : String) (label parentLabel : ℕ) (hasVport : Bool)
    (cores mem numInterface : ℕ) (interfacebw : ℤ) (extTag : String) : Objects × OnldbResp :=
  let hrp : NodeObject := {
    type := Topology.lowercase type, label, hasVport, extTag
    coreCapacity := cores, memCapacity := mem, potentialCorecap := cores, potentialMemcap := mem
    portCapacities := (List.range numInterface).map fun i => ((i : ℤ),interfacebw) }
  insertLoop parentLabel t.nextNode t.nodes (parentLabel == 0) (t.newNode hrp)

/-- The label of the parent of a node, 0 if it has none. -/
def parentLabel (t : Objects) (a : ℕ) : ℕ := (t.nodeAt a).parent.elim 0 fun p => (t.nodeAt p).label

/-- `topology::add_copy_node`. Of the fields only the children, the links, the mapped node, the
external tag and address and `root_only` are not copied. -/
def addCopyNode (t : Objects) (cpnode : ℕ) : Objects × OnldbResp :=
  let cp := t.nodeAt cpnode
  let hrp : NodeObject := { cp with
    parent := none, nodeChildren := [], links := [], userNodes := [cpnode], extTag := ""
    portCapacities := PortMap.copied cp.portCapacities }
  let t := t.modifyNode cpnode fun n => { n with portCapacities := PortMap.touchAll n.portCapacities }
  let label := parentLabel t cpnode
  insertLoop label t.nextNode t.nodes (label == 0) (t.newNode hrp)

/-- `links.push_back` on a node. -/
def Objects.pushLink (t : Objects) (a l : ℕ) : Objects :=
  t.modifyNode a fun n => { n with links := n.links ++ [l] }

/-- The end of `add_link` and `add_copy_link`: `link a b` is the new link when its ends are found. -/
def insertLink (t : Objects) (label node1Label node2Label : ℕ) (link : ℕ → ℕ → LinkObject) :
    Objects × OnldbResp :=
  if t.links.any fun l => (t.linkAt l).label = label then (t,alreadyUsed label)
  else match t.findNode node1Label, t.findNode node2Label with
    | none, _ => (t,notFound "node1_label " node1Label)
    | some _, none => (t,notFound "node2_label " node2Label)
    | some a, some b =>
      let lrp := t.nextLink
      let t := { t with linkAt := Function.update t.linkAt lrp (link a b), nextLink := lrp + 1 }
      let t := (t.pushLink a lrp).pushLink b lrp
      ({ t with links := t.links ++ [lrp] },success)

/-- The parameters of `add_link`. -/
structure LinkArgs where
  label : ℕ
  capacity : ℕ
  node1Label : ℕ
  node1Port : ℕ
  node1Rport : ℤ
  node2Label : ℕ
  node2Port : ℕ
  node2Rport : ℤ
  rload : ℕ := 0
  lload : ℕ := 0
  node1Cap : ℕ := 0
  node2Cap : ℕ := 0

/-- The difference of two 32-bit numbers. -/
def minus (a b : ℕ) : ℕ := (a + 2 ^ 32 - b % 2 ^ 32) % 2 ^ 32

/-- The link that `add_link` makes when it has found the ends. -/
def LinkArgs.link (x : LinkArgs) (a b : ℕ) : LinkObject where
  label := x.label
  capacity := x.capacity
  node1 := a
  node1Port := x.node1Port
  node1Rport := x.node1Rport
  node1Capacity := if x.node1Cap > 0 then x.node1Cap else x.capacity
  node2 := b
  node2Port := x.node2Port
  node2Rport := x.node2Rport
  node2Capacity := if x.node2Cap > 0 then x.node2Cap else x.capacity
  rload := x.rload
  lload := x.lload
  potentialRcap := minus x.capacity x.rload
  potentialLcap := minus x.capacity x.lload

/-- `topology::add_link`. -/
def addLink (t : Objects) (x : LinkArgs) : Objects × OnldbResp :=
  insertLink t x.label x.node1Label x.node2Label x.link

/-- `topology::add_copy_link`. The connections and mapped paths are not copied. -/
def addCopyLink (t : Objects) (lnk : ℕ) : Objects × OnldbResp :=
  let x := t.linkAt lnk
  insertLink t x.label (t.nodeAt x.node1).label (t.nodeAt x.node2).label fun a b =>
    { x with node1 := a, node2 := b, conns := [], userLink := some lnk }

/-- `topology::remove_node`. -/
def removeNode (t : Objects) (label : ℕ) : Objects × OnldbResp :=
  match t.findNode label with
  | some n => ({ t with nodes := t.nodes.erase n },success)
  | none => (t,notFound "label " label)

/-- `topology::remove_link`. -/
def removeLink (t : Objects) (label : ℕ) : Objects × OnldbResp :=
  match t.findLink label with
  | some l => ({ t with links := t.links.erase l },success)
  | none => (t,notFound "label " label)

inductive Edit
  | addNode (type : String) (label parentLabel : ℕ) (hasVport : Bool) (cores mem numInterface : ℕ)
      (interfacebw : ℤ) (extTag : String)
  | addCopyNode (cpnode : ℕ)
  | addLink (x : LinkArgs)
  | addCopyLink (lnk : ℕ)
  | removeNode (label : ℕ)
  | removeLink (label : ℕ)

def Edit.exec (t : Objects) : Edit → Objects × OnldbResp
  | .addNode type label parentLabel hasVport cores mem numInterface interfacebw extTag =>
    TopologyEdits.addNode t type label parentLabel hasVport cores mem numInterface interfacebw extTag
  | .addCopyNode cpnode => TopologyEdits.addCopyNode t cpnode
  | .addLink x => TopologyEdits.addLink t x
  | .addCopyLink lnk => TopologyEdits.addCopyLink t lnk
  | .removeNode label => TopologyEdits.removeNode t label
  | .removeLink label => TopologyEdits.removeLink t label

/-- The pointers in the lists are objects. -/
structure Allocated (t : Objects) : Prop where
  nodes : ∀ n ∈ t.nodes, n < t.nextNode
  links : ∀ l ∈ t.links, l < t.nextLink

/-- The node that is to be copied is an object. -/
def Passes (t : Objects) (e : Edit) : Prop := ∀ n, e = .addCopyNode n → n < t.nextNode

/-- Lists and objects are as before; a new object that nothing points to does not count. -/
structure Unchanged (t t' : Objects) : Prop where
  nodes : t'.nodes = t.nodes
  links : t'.links = t.links
  nodeAt : ∀ n < t.nextNode, t'.nodeAt n = t.nodeAt n
  linkAt : ∀ l < t.nextLink, t'.linkAt l = t.linkAt l

/-- Labels are used once, the ends of the links are nodes of the topology that list them, and
parents and children point to one another. -/
structure Agrees (t : Objects) : Prop where
  nodeLabels : (t.nodes.map fun n => (t.nodeAt n).label).Nodup
  linkLabels : (t.links.map fun l => (t.linkAt l).label).Nodup
  end1 : ∀ l ∈ t.links, (t.linkAt l).node1 ∈ t.nodes ∧ l ∈ (t.nodeAt (t.linkAt l).node1).links
  end2 : ∀ l ∈ t.links, (t.linkAt l).node2 ∈ t.nodes ∧ l ∈ (t.nodeAt (t.linkAt l).node2).links
  parent : ∀ c ∈ t.nodes, ∀ p, (t.nodeAt c).parent = some p →
    p ∈ t.nodes ∧ c ∈ (t.nodeAt p).nodeChildren
  child : ∀ p ∈ t.nodes, ∀ c ∈ (t.nodeAt p).nodeChildren,
    c ∈ t.nodes ∧ (t.nodeAt c).parent = some p

/-- The parent that the loop comes to before it comes to a node with the label. -/
def parentBefore (t : Objects) (label parentLabel : ℕ) : Option ℕ :=
  if parentLabel = 0 then none
  else (t.nodes.takeWhile fun n => (t.nodeAt n).label ≠ label).find? fun n =>
    (t.nodeAt n).label = parentLabel

/-- The keys of the map are 0, 1, 2, … -/
def Numbered (m : PortMap) : Prop := ∀ i < m.length, (i : ℤ) ∈ m.map Prod.fst

/-- A call that fails does not come to a parent first, and a map that is copied is numbered. -/
def Clean (t : Objects) : Edit → Prop
  | .addNode _ label parentLabel _ _ _ _ _ _ => parentBefore t label parentLabel = none
  | .addCopyNode c => parentBefore t (t.nodeAt c).label (parentLabel t c) = none ∧
    Numbered (t.nodeAt c).portCapacities
  | _ => True

/-- No link ends at the node, and it has neither a parent nor children, other than itself. -/
structure Detached (t : Objects) (n : ℕ) : Prop where
  links : ∀ l ∈ t.links, (t.linkAt l).node1 ≠ n ∧ (t.linkAt l).node2 ≠ n
  parent : ∀ p, (t.nodeAt n).parent = some p → p = n
  children : ∀ c ∈ (t.nodeAt n).nodeChildren, c = n

/-- A node that is removed is detached. -/
def Harmless (t : Objects) : Edit → Prop
  | .removeNode label => ∀ n, t.findNode label = some n → Detached t n
  | _ => True

/-! ### The loop of `add_node` -/

namespace Objects

variable {t : Objects} {a p hrp n : ℕ}

theorem modifyNode_self (f : NodeObject → NodeObject) :
    (t.modifyNode a f).nodeAt a = f (t.nodeAt a) := by
  show Function.update t.nodeAt a (f (t.nodeAt a)) a = _
  rw [Function.update_self]

theorem modifyNode_ne (f : NodeObject → NodeObject) (h : n ≠ a) :
    (t.modifyNode a f).nodeAt n = t.nodeAt n := by
  show Function.update t.nodeAt a (f (t.nodeAt a)) n = _
  rw [Function.update_of_ne h]

/-- A field that a change of a node leaves alone. -/
theorem modifyNode_field {α : Type*} (get : NodeObject → α) {f : NodeObject → NodeObject}
    (hf : ∀ x, get (f x) = get x) : get ((t.modifyNode a f).nodeAt n) = get (t.nodeAt n) := by
  by_cases h : n = a
  · subst h
    rw [modifyNode_self,hf]
  · rw [modifyNode_ne f h]

theorem newNode_self (x : NodeObject) : (t.newNode x).nodeAt t.nextNode = x := by
  show Function.update t.nodeAt t.nextNode x t.nextNode = x
  rw [Function.update_self]

theorem newNode_ne (x : NodeObject) (h : n ≠ t.nextNode) : (t.newNode x).nodeAt n = t.nodeAt n := by
  show Function.update t.nodeAt t.nextNode x n = _
  rw [Function.update_of_ne h]

theorem adopt_label : ((t.adopt p hrp).nodeAt n).label = (t.nodeAt n).label := by
  unfold adopt
  rw [modifyNode_field NodeObject.label,modifyNode_field NodeObject.label]
  all_goals exact fun _ => rfl

theorem adopt_links : ((t.adopt p hrp).nodeAt n).links = (t.nodeAt n).links := by
  unfold adopt
  rw [modifyNode_field NodeObject.links,modifyNode_field NodeObject.links]
  all_goals exact fun _ => rfl

theorem adopt_parent : ((t.adopt p hrp).nodeAt n).parent =
    if n = hrp then some p else (t.nodeAt n).parent := by
  refine (modifyNode_field NodeObject.parent ?_).trans ?_
  · exact fun _ => rfl
  by_cases h : n = hrp
  · subst h
    rw [modifyNode_self,if_pos rfl]
  · rw [modifyNode_ne _ h,if_neg h]

theorem adopt_children : ((t.adopt p hrp).nodeAt n).nodeChildren =
    if n = p then (t.nodeAt n).nodeChildren ++ [hrp] else (t.nodeAt n).nodeChildren := by
  have h₁ : ((t.modifyNode hrp fun x => { x with parent := some p }).nodeAt n).nodeChildren =
      (t.nodeAt n).nodeChildren := by
    rw [modifyNode_field NodeObject.nodeChildren]
    exact fun _ => rfl
  by_cases h : n = p
  · subst h
    rw [if_pos rfl,← h₁]
    exact congrArg NodeObject.nodeChildren (modifyNode_self _)
  · rw [if_neg h,← h₁]
    exact congrArg NodeObject.nodeChildren (modifyNode_ne _ h)

end Objects

variable {t t' : Objects} {label parentLabel hrp : ℕ}

/-- A node of the list has the label of the new one. -/
def Used (t : Objects) (ns : List ℕ) (label : ℕ) : Prop := ∃ n ∈ ns, (t.nodeAt n).label = label

theorem insertLoop_found (t : Objects) (hrp parentLabel : ℕ) (ns : List ℕ) :
    (Used t ns (t.nodeAt hrp).label ∧
      insertLoop parentLabel hrp ns true t = (t,alreadyUsed (t.nodeAt hrp).label)) ∨
    ¬Used t ns (t.nodeAt hrp).label ∧
      insertLoop parentLabel hrp ns true t = (t.pushNode hrp,success) := by
  induction ns with
  | nil => exact .inr ⟨by simp [Used],rfl⟩
  | cons n ns ih =>
    by_cases hl : (t.nodeAt n).label = (t.nodeAt hrp).label
    · exact .inl ⟨⟨n,List.mem_cons_self,hl⟩,by simp [insertLoop,hl]⟩
    · have hu : Used t (n :: ns) (t.nodeAt hrp).label ↔ Used t ns (t.nodeAt hrp).label := by
        simp [Used,hl]
      have hs : insertLoop parentLabel hrp (n :: ns) true t =
          insertLoop parentLabel hrp ns true t := by
        simp [insertLoop,hl]
      rw [hu,hs]
      exact ih

/-- The new node with its parent, if it has been found. -/
def adopted (t : Objects) (hrp : ℕ) (par : Option ℕ) : Objects := par.elim t fun p => t.adopt p hrp

/-- The parent is the first node with its label in front of the one with the label of the new node,
if there is one. -/
theorem insertLoop_search (t : Objects) (hrp parentLabel : ℕ) (ns : List ℕ) :
    let label := (t.nodeAt hrp).label
    let par := (ns.takeWhile fun n => (t.nodeAt n).label ≠ label).find? fun n =>
      (t.nodeAt n).label = parentLabel
    (Used t ns label ∧
      insertLoop parentLabel hrp ns false t = (adopted t hrp par,alreadyUsed label)) ∨
    ¬Used t ns label ∧ ((par ≠ none ∧
      insertLoop parentLabel hrp ns false t = ((adopted t hrp par).pushNode hrp,success)) ∨
      par = none ∧
        insertLoop parentLabel hrp ns false t = (t,notFound "parent_label " parentLabel)) := by
  induction ns with
  | nil => exact .inr ⟨by simp [Used],.inr ⟨rfl,rfl⟩⟩
  | cons n ns ih =>
    by_cases hl : (t.nodeAt n).label = (t.nodeAt hrp).label
    · refine .inl ⟨⟨n,List.mem_cons_self,hl⟩,?_⟩
      simp [insertLoop,hl,adopted]
    · have hu : Used t (n :: ns) (t.nodeAt hrp).label ↔ Used t ns (t.nodeAt hrp).label := by
        simp [Used,hl]
      have htake : ((n :: ns).takeWhile fun n => decide ((t.nodeAt n).label ≠ (t.nodeAt hrp).label)) =
          n :: ns.takeWhile fun n => decide ((t.nodeAt n).label ≠ (t.nodeAt hrp).label) := by
        simp [hl]
      by_cases hp : (t.nodeAt n).label = parentLabel
      · have hs : insertLoop parentLabel hrp (n :: ns) false t =
            insertLoop parentLabel hrp ns true (t.adopt n hrp) := by
          show (if (t.nodeAt n).label = (t.nodeAt hrp).label then _ else _) = _
          rw [if_neg hl,if_pos (by simpa using hp)]
        have hloop := insertLoop_found (t.adopt n hrp) hrp parentLabel ns
        simp only [Used,Objects.adopt_label] at hloop
        simp only [htake,List.find?_cons,hp,decide_true,hu,hs]
        obtain ⟨hused,he⟩ | ⟨hused,he⟩ := hloop
        · exact .inl ⟨hused,he⟩
        · exact .inr ⟨hused,.inl ⟨by simp,he⟩⟩
      · have hs : insertLoop parentLabel hrp (n :: ns) false t =
            insertLoop parentLabel hrp ns false t := by
          simp [insertLoop,hl,hp]
        simp only [htake,List.find?_cons,hp,decide_false,hu,hs]
        exact ih

/-- What becomes of a new node whose parent label is known: it fails, with or without a parent, or
it is put at the end of the list. -/
theorem insertLoop_cases (t : Objects) (hrp parentLabel : ℕ) :
    let label := (t.nodeAt hrp).label
    let par := parentBefore t label parentLabel
    let r := insertLoop parentLabel hrp t.nodes (parentLabel == 0) t
    (Used t t.nodes label ∧ r = (adopted t hrp par,alreadyUsed label)) ∨
    ¬Used t t.nodes label ∧ (r = ((adopted t hrp par).pushNode hrp,success) ∨
      par = none ∧ r = (t,notFound "parent_label " parentLabel)) := by
  simp only [parentBefore]
  by_cases hz : parentLabel = 0
  · subst hz
    obtain ⟨hused,he⟩ | ⟨hused,he⟩ := insertLoop_found t hrp 0 t.nodes
    · exact .inl ⟨hused,he⟩
    · exact .inr ⟨hused,.inl he⟩
  · rw [if_neg hz,show (parentLabel == 0) = false by simpa using hz]
    obtain h | ⟨hused,⟨_,he⟩ | h⟩ := insertLoop_search t hrp parentLabel t.nodes
    · exact .inl h
    · exact .inr ⟨hused,.inl he⟩
    · exact .inr ⟨hused,.inr h⟩

section adopted

variable {par : Option ℕ} {n : ℕ}

theorem adopted_label : ((adopted t hrp par).nodeAt n).label = (t.nodeAt n).label := by
  cases par with
  | none => rfl
  | some p => exact Objects.adopt_label

theorem adopted_links : ((adopted t hrp par).nodeAt n).links = (t.nodeAt n).links := by
  cases par with
  | none => rfl
  | some p => exact Objects.adopt_links

theorem adopted_parent (h : (t.nodeAt hrp).parent = none) :
    ((adopted t hrp par).nodeAt n).parent = if n = hrp then par else (t.nodeAt n).parent := by
  cases par with
  | none =>
    by_cases hn : n = hrp
    · rw [if_pos hn,hn]
      exact h
    · rw [if_neg hn]
      rfl
  | some p => exact Objects.adopt_parent

theorem adopted_children : ((adopted t hrp par).nodeAt n).nodeChildren =
    if par = some n then (t.nodeAt n).nodeChildren ++ [hrp] else (t.nodeAt n).nodeChildren := by
  cases par with
  | none => rfl
  | some p =>
    refine Objects.adopt_children.trans ?_
    by_cases hn : n = p
    · rw [if_pos hn,if_pos (by rw [hn])]
    · rw [if_neg hn,if_neg fun he => hn (Option.some.inj he).symm]

@[simp] theorem adopted_nodes : (adopted t hrp par).nodes = t.nodes := by cases par <;> rfl

@[simp] theorem adopted_linkList : (adopted t hrp par).links = t.links := by cases par <;> rfl

@[simp] theorem adopted_linkAt : (adopted t hrp par).linkAt = t.linkAt := by cases par <;> rfl

@[simp] theorem adopted_nextNode : (adopted t hrp par).nextNode = t.nextNode := by cases par <;> rfl

@[simp] theorem adopted_nextLink : (adopted t hrp par).nextLink = t.nextLink := by cases par <;> rfl

end adopted

/-- `t₁` is `t` with a new node that is in none of the lists yet. -/
structure Prepared (t : Objects) (label : ℕ) (t₁ : Objects) : Prop where
  nodes : t₁.nodes = t.nodes
  links : t₁.links = t.links
  linkAt : t₁.linkAt = t.linkAt
  nextNode : t₁.nextNode = t.nextNode + 1
  nextLink : t₁.nextLink = t.nextLink
  newLabel : (t₁.nodeAt t.nextNode).label = label
  newParent : (t₁.nodeAt t.nextNode).parent = none
  newChildren : (t₁.nodeAt t.nextNode).nodeChildren = []
  oldLabel : ∀ n < t.nextNode, (t₁.nodeAt n).label = (t.nodeAt n).label
  oldLinks : ∀ n < t.nextNode, (t₁.nodeAt n).links = (t.nodeAt n).links
  oldParent : ∀ n < t.nextNode, (t₁.nodeAt n).parent = (t.nodeAt n).parent
  oldChildren : ∀ n < t.nextNode, (t₁.nodeAt n).nodeChildren = (t.nodeAt n).nodeChildren

theorem parentBefore_mem {par : ℕ} (h : parentBefore t label parentLabel = some par) :
    par ∈ t.nodes := by
  unfold parentBefore at h
  split at h
  · cases h
  · exact (List.takeWhile_prefix _).subset (List.mem_of_find?_eq_some h)

namespace Prepared

variable {t₁ : Objects} (h : Prepared t label t₁) (hn : ∀ n ∈ t.nodes, n < t.nextNode)
include h hn

theorem used : Used t₁ t₁.nodes label ↔ Used t t.nodes label := by
  unfold Used
  rw [h.nodes]
  exact exists_congr fun n => and_congr_right fun hm => by rw [h.oldLabel n (hn n hm)]

theorem parentBefore : parentBefore t₁ label parentLabel = parentBefore t label parentLabel := by
  have hw : ∀ ns : List ℕ, (∀ n ∈ ns, n < t.nextNode) →
      (ns.takeWhile fun n => decide ((t₁.nodeAt n).label ≠ label)) =
      ns.takeWhile fun n => decide ((t.nodeAt n).label ≠ label) := by
    intro ns hns
    induction ns with
    | nil => rfl
    | cons n ns ih =>
      rw [List.takeWhile_cons,List.takeWhile_cons,h.oldLabel n (hns n List.mem_cons_self),
        ih fun n hm => hns n (List.mem_cons_of_mem _ hm)]
  unfold TopologyEdits.parentBefore
  rw [h.nodes,hw _ hn]
  refine if_congr Iff.rfl rfl (List.find?_congr fun n hm => ?_)
  rw [h.oldLabel n (hn n ((List.takeWhile_prefix _).subset hm))]

/-- What becomes of the new node. -/
theorem cases (parentLabel : ℕ) :
    let par := TopologyEdits.parentBefore t label parentLabel
    let r := insertLoop parentLabel t.nextNode t₁.nodes (parentLabel == 0) t₁
    (Used t t.nodes label ∧ r = (adopted t₁ t.nextNode par,alreadyUsed label)) ∨
    ¬Used t t.nodes label ∧ (r = ((adopted t₁ t.nextNode par).pushNode t.nextNode,success) ∨
      par = none ∧ r = (t₁,notFound "parent_label " parentLabel)) := by
  have hloop := insertLoop_cases t₁ t.nextNode parentLabel
  simp only [h.newLabel,h.used hn,h.parentBefore hn] at hloop
  exact hloop

/-- A failed call has changed nothing if it found no parent and the preparation had not. -/
theorem unchanged_iff {parentLabel : ℕ}
    (hfail : (insertLoop parentLabel t.nextNode t₁.nodes (parentLabel == 0) t₁).2.result ≠ 1) :
    Unchanged t (insertLoop parentLabel t.nextNode t₁.nodes (parentLabel == 0) t₁).1 ↔
      TopologyEdits.parentBefore t label parentLabel = none ∧
        ∀ n < t.nextNode, t₁.nodeAt n = t.nodeAt n := by
  have hsame : Unchanged t t₁ ↔ ∀ n < t.nextNode, t₁.nodeAt n = t.nodeAt n :=
    ⟨fun hu => hu.nodeAt,fun hs => ⟨h.nodes,h.links,hs,fun l _ => by rw [h.linkAt]⟩⟩
  obtain ⟨_,he⟩ | ⟨_,he | ⟨hpar,he⟩⟩ := h.cases hn parentLabel
  · rw [he]
    cases hpar : TopologyEdits.parentBefore t label parentLabel with
    | none =>
      show Unchanged t t₁ ↔ _
      rw [hsame,eq_self,true_and]
    | some p =>
      refine iff_of_false (fun hu => ?_) fun hu => nomatch hu.1
      have hp := hn p (parentBefore_mem hpar)
      have hc := congrArg (fun x => x.nodeChildren.length) (hu.nodeAt p hp)
      simp only [adopted_children,if_true,h.oldChildren p hp,List.length_append,
        List.length_singleton] at hc
      omega
  · rw [he] at hfail
    exact absurd rfl hfail
  · rw [he,hpar,eq_self,true_and]
    exact hsame

end Prepared

theorem prepared_newNode (t : Objects) {x : NodeObject} (hp : x.parent = none)
    (hc : x.nodeChildren = []) : Prepared t x.label (t.newNode x) := by
  have hold : ∀ n < t.nextNode, (t.newNode x).nodeAt n = t.nodeAt n := fun n hn =>
    Objects.newNode_ne x (Nat.ne_of_lt hn)
  refine ⟨rfl,rfl,rfl,rfl,rfl,?_,?_,?_,?_,?_,?_,?_⟩
  · rw [Objects.newNode_self]
  · rw [Objects.newNode_self,hp]
  · rw [Objects.newNode_self,hc]
  all_goals
    intro n hn
    rw [hold n hn]

namespace PortMap

variable {m : PortMap} {k : ℤ}

theorem touch_eq (h : k ∈ m.map Prod.fst) : touch m k = m := by
  unfold touch
  rw [if_pos (List.contains_iff_mem.mpr h)]

theorem mem_touch {j : ℤ} (h : j = k ∨ j ∈ m.map Prod.fst) : j ∈ (touch m k).map Prod.fst := by
  unfold touch
  split
  · next hk =>
    obtain rfl | h := h
    · exact List.contains_iff_mem.mp hk
    · exact h
  · rw [List.map_append]
    obtain rfl | h := h
    · exact List.mem_append_right _ List.mem_cons_self
    · exact List.mem_append_left _ h

theorem mem_foldl_touch {is : List ℕ} {j : ℤ} (h : (∃ i ∈ is, j = i) ∨ j ∈ m.map Prod.fst) :
    j ∈ (is.foldl (fun m (i : ℕ) => touch m i) m).map Prod.fst := by
  induction is generalizing m with
  | nil => exact h.resolve_left (by simp)
  | cons i is ih =>
    refine ih ?_
    obtain ⟨i',hi',rfl⟩ | h := h
    · obtain rfl | hi' := List.mem_cons.mp hi'
      · exact .inr (mem_touch (.inl rfl))
      · exact .inl ⟨i',hi',rfl⟩
    · exact .inr (mem_touch (.inr h))

/-- Reading a map whose keys are the numbers up to its size does not change it. -/
theorem touchAll_eq_iff : touchAll m = m ↔ Numbered m := by
  unfold touchAll Numbered
  constructor
  · intro h i hi
    have hm : (i : ℤ) ∈ ((List.range m.length).foldl (fun m (i : ℕ) => touch m i) m).map Prod.fst :=
      mem_foldl_touch (.inl ⟨i,List.mem_range.mpr hi,rfl⟩)
    rwa [h] at hm
  · intro h
    have key : ∀ is : List ℕ, (∀ i ∈ is, (i : ℤ) ∈ m.map Prod.fst) →
        is.foldl (fun m (i : ℕ) => touch m i) m = m := by
      intro is his
      induction is with
      | nil => rfl
      | cons i is ih =>
        rw [List.foldl_cons,touch_eq (his i List.mem_cons_self)]
        exact ih fun i hi => his i (List.mem_cons_of_mem _ hi)
    exact key _ fun i hi => h i (List.mem_range.mp hi)

end PortMap

/-- Reading the interfaces of the node that is copied. -/
def touched (t : Objects) (cpnode : ℕ) : Objects :=
  t.modifyNode cpnode fun n => { n with portCapacities := PortMap.touchAll n.portCapacities }

theorem touched_field {α : Type*} (get : NodeObject → α)
    (hget : ∀ x m, get { x with portCapacities := m } = get x) (t : Objects) (c n : ℕ) :
    get ((touched t c).nodeAt n) = get (t.nodeAt n) :=
  Objects.modifyNode_field get fun x => hget x _

theorem touched_eq_iff {c : ℕ} (hc : c < t.nextNode) :
    (∀ n < t.nextNode, (touched t c).nodeAt n = t.nodeAt n) ↔
      Numbered (t.nodeAt c).portCapacities := by
  rw [← PortMap.touchAll_eq_iff]
  constructor
  · intro h
    have hp := congrArg NodeObject.portCapacities (h c hc)
    rwa [touched,Objects.modifyNode_self] at hp
  · intro h n _
    by_cases hn : n = c
    · subst hn
      rw [touched,Objects.modifyNode_self,h]
    · exact Objects.modifyNode_ne _ hn

theorem parentLabel_touched (t : Objects) (c : ℕ) :
    TopologyEdits.parentLabel (touched t c) c = TopologyEdits.parentLabel t c := by
  unfold TopologyEdits.parentLabel
  rw [touched_field NodeObject.parent fun _ _ => rfl]
  congr 1
  funext p
  rw [touched_field NodeObject.label fun _ _ => rfl]

/-- `add_copy_node` puts this node into the topology. -/
def copyOf (t : Objects) (cpnode : ℕ) : NodeObject :=
  { t.nodeAt cpnode with
    parent := none, nodeChildren := [], links := [], userNodes := [cpnode], extTag := ""
    portCapacities := PortMap.copied (t.nodeAt cpnode).portCapacities }

theorem prepared_copy (t : Objects) (c : ℕ) :
    Prepared t (t.nodeAt c).label ((touched t c).newNode (copyOf t c)) := by
  have h := prepared_newNode (touched t c) (x := copyOf t c) rfl rfl
  refine ⟨rfl,rfl,rfl,rfl,rfl,h.newLabel,h.newParent,h.newChildren,?_,?_,?_,?_⟩
  · intro n hn
    rw [h.oldLabel n hn,touched_field NodeObject.label fun _ _ => rfl]
  · intro n hn
    rw [h.oldLinks n hn,touched_field NodeObject.links fun _ _ => rfl]
  · intro n hn
    rw [h.oldParent n hn,touched_field NodeObject.parent fun _ _ => rfl]
  · intro n hn
    rw [h.oldChildren n hn,touched_field NodeObject.nodeChildren fun _ _ => rfl]

theorem addCopyNode_eq (t : Objects) (c : ℕ) : addCopyNode t c =
    insertLoop (TopologyEdits.parentLabel t c) t.nextNode ((touched t c).newNode (copyOf t c)).nodes
      (TopologyEdits.parentLabel t c == 0) ((touched t c).newNode (copyOf t c)) := by
  rw [← parentLabel_touched]
  rfl

/-! ### Failed calls -/

theorem unchanged_refl (t : Objects) : Unchanged t t := ⟨rfl,rfl,fun _ _ => rfl,fun _ _ => rfl⟩

/-- A link that is not inserted changes nothing. -/
theorem insertLink_cases (t : Objects) (label node1Label node2Label : ℕ)
    (link : ℕ → ℕ → LinkObject) :
    let r := insertLink t label node1Label node2Label link
    (r.1 = t ∧ r.2.result = -1) ∨
    ∃ a b, t.findNode node1Label = some a ∧ t.findNode node2Label = some b ∧
      (∀ l ∈ t.links, (t.linkAt l).label ≠ label) ∧ r.2 = success ∧
      let t₁ : Objects := { t with
        linkAt := Function.update t.linkAt t.nextLink (link a b), nextLink := t.nextLink + 1 }
      r.1 = { (t₁.pushLink a t.nextLink).pushLink b t.nextLink with
        links := t.links ++ [t.nextLink] } := by
  simp only [insertLink]
  split
  · exact .inl ⟨rfl,rfl⟩
  · next hused =>
    split
    · exact .inl ⟨rfl,rfl⟩
    · exact .inl ⟨rfl,rfl⟩
    · next a b ha hb =>
      exact .inr ⟨a,b,ha,hb,by simpa using hused,rfl,rfl⟩

/-- A call that fails has changed nothing, but for a parent that `add_node` or `add_copy_node` has
come to first, and the interfaces of a node that is copied. -/
theorem failed_iff {t : Objects} {e : Edit} (hv : Allocated t) (hc : Passes t e)
    (hfail : (e.exec t).2.result ≠ 1) : Unchanged t (e.exec t).1 ↔ Clean t e := by
  cases e with
  | addNode type label parentLabel hasVport cores mem numInterface interfacebw extTag =>
    have h := prepared_newNode t (x := {
      type := Topology.lowercase type, label, hasVport, extTag
      coreCapacity := cores, memCapacity := mem, potentialCorecap := cores, potentialMemcap := mem
      portCapacities := (List.range numInterface).map fun i => ((i : ℤ),interfacebw) }) rfl rfl
    refine (h.unchanged_iff hv.nodes hfail).trans (and_iff_left fun n hn => ?_)
    exact Objects.newNode_ne _ (Nat.ne_of_lt hn)
  | addCopyNode c =>
    have h := prepared_copy t c
    simp only [Edit.exec,addCopyNode_eq] at hfail ⊢
    refine (h.unchanged_iff hv.nodes hfail).trans (and_congr_right fun _ => ?_)
    rw [← touched_eq_iff (hc c rfl)]
    refine forall_congr' fun n => forall_congr' fun hn => ?_
    rw [Objects.newNode_ne (t := touched t c) (copyOf t c) (Nat.ne_of_lt hn)]
  | addLink x =>
    refine iff_of_true ?_ trivial
    obtain ⟨he,_⟩ | ⟨_,_,_,_,_,hs,_⟩ := insertLink_cases t x.label x.node1Label x.node2Label _
    · exact he.symm ▸ unchanged_refl t
    · exact absurd (congrArg OnldbResp.result hs) hfail
  | addCopyLink lnk =>
    refine iff_of_true ?_ trivial
    obtain ⟨he,_⟩ | ⟨_,_,_,_,_,hs,_⟩ := insertLink_cases t (t.linkAt lnk).label
      (t.nodeAt (t.linkAt lnk).node1).label (t.nodeAt (t.linkAt lnk).node2).label _
    · exact he.symm ▸ unchanged_refl t
    · exact absurd (congrArg OnldbResp.result hs) hfail
  | removeNode label =>
    refine iff_of_true ?_ trivial
    simp only [Edit.exec,removeNode] at hfail ⊢
    split at hfail
    · exact absurd rfl hfail
    · exact unchanged_refl t
  | removeLink label =>
    refine iff_of_true ?_ trivial
    simp only [Edit.exec,removeLink] at hfail ⊢
    split at hfail
    · exact absurd rfl hfail
    · exact unchanged_refl t

/-! ### Successful calls -/

theorem mem_pushNode {t : Objects} {n hrp : ℕ} :
    n ∈ (t.pushNode hrp).nodes ↔ n ∈ t.nodes ∨ n = hrp := by
  show n ∈ t.nodes ++ [hrp] ↔ _
  rw [List.mem_append,List.mem_singleton]

/-- A new node that has found its parent, or wants none. -/
theorem Prepared.agrees {t₁ : Objects} (h : Prepared t label t₁)
    (hn : ∀ n ∈ t.nodes, n < t.nextNode) (ha : Agrees t) (hu : ¬Used t t.nodes label)
    {par : Option ℕ} (hpar : ∀ p, par = some p → p ∈ t.nodes) :
    Agrees ((adopted t₁ t.nextNode par).pushNode t.nextNode) := by
  have hnodes : (adopted t₁ t.nextNode par).nodes = t.nodes := adopted_nodes.trans h.nodes
  have hne : ∀ n ∈ t.nodes, n ≠ t.nextNode := fun n hm => Nat.ne_of_lt (hn n hm)
  have hat : ∀ n, ((adopted t₁ t.nextNode par).pushNode t.nextNode).nodeAt n =
      (adopted t₁ t.nextNode par).nodeAt n := fun _ => rfl
  have hlist : ((adopted t₁ t.nextNode par).pushNode t.nextNode).links = t.links :=
    adopted_linkList.trans h.links
  have hlink : ((adopted t₁ t.nextNode par).pushNode t.nextNode).linkAt = t.linkAt :=
    adopted_linkAt.trans h.linkAt
  have hmem : ∀ n, n ∈ ((adopted t₁ t.nextNode par).pushNode t.nextNode).nodes ↔
      n ∈ t.nodes ∨ n = t.nextNode := fun n => by rw [mem_pushNode,hnodes]
  have hlabel : ∀ n ∈ t.nodes, ((adopted t₁ t.nextNode par).nodeAt n).label = (t.nodeAt n).label :=
    fun n hm => adopted_label.trans (h.oldLabel n (hn n hm))
  have hends : ∀ n l, n ∈ t.nodes ∧ l ∈ (t.nodeAt n).links →
      n ∈ ((adopted t₁ t.nextNode par).pushNode t.nextNode).nodes ∧
        l ∈ (((adopted t₁ t.nextNode par).pushNode t.nextNode).nodeAt n).links := by
    rintro n l ⟨hm,hl⟩
    rw [hmem,hat,adopted_links,h.oldLinks n (hn n hm)]
    exact ⟨.inl hm,hl⟩
  refine ⟨?_,?_,?_,?_,?_,?_⟩
  · show (((adopted t₁ t.nextNode par).nodes ++ [t.nextNode]).map fun n =>
      ((adopted t₁ t.nextNode par).nodeAt n).label).Nodup
    rw [hnodes,List.map_append,List.map_congr_left hlabel,List.nodup_append]
    refine ⟨ha.nodeLabels,by simp,fun a hm b hb => ?_⟩
    obtain ⟨n,hnm,rfl⟩ := List.mem_map.mp hm
    obtain rfl : b = label := by
      rw [List.map_singleton,List.mem_singleton] at hb
      rw [hb]
      exact adopted_label.trans h.newLabel
    exact fun he => hu ⟨n,hnm,he⟩
  · rw [hlist,hlink]
    exact ha.linkLabels
  · intro l hl
    rw [hlink]
    exact hends _ l (ha.end1 l (hlist ▸ hl))
  · intro l hl
    rw [hlink]
    exact hends _ l (ha.end2 l (hlist ▸ hl))
  · intro c hc p hp
    rw [hat,adopted_parent h.newParent] at hp
    rw [hmem,hat,adopted_children]
    obtain hc | rfl := (hmem c).mp hc
    · rw [if_neg (hne c hc),h.oldParent c (hn c hc)] at hp
      obtain ⟨hpm,hin⟩ := ha.parent c hc p hp
      refine ⟨.inl hpm,?_⟩
      rw [h.oldChildren p (hn p hpm)]
      split
      · exact List.mem_append_left _ hin
      · exact hin
    · rw [if_pos rfl] at hp
      refine ⟨.inl (hpar p hp),?_⟩
      rw [if_pos hp]
      exact List.mem_append_right _ List.mem_cons_self
  · intro p hp c hc
    rw [hat,adopted_children] at hc
    rw [hmem,hat,adopted_parent h.newParent]
    -- a child that was there before
    have hold : p ∈ t.nodes → c ∈ (t.nodeAt p).nodeChildren → (c ∈ t.nodes ∨ c = t.nextNode) ∧
        (if c = t.nextNode then par else (t₁.nodeAt c).parent) = some p := by
      intro hpm hcm
      obtain ⟨hm,hcp⟩ := ha.child p hpm c hcm
      rw [if_neg (hne c hm),h.oldParent c (hn c hm)]
      exact ⟨.inl hm,hcp⟩
    obtain hp | rfl := (hmem p).mp hp
    · rw [h.oldChildren p (hn p hp)] at hc
      split at hc
      · next hpp =>
        obtain hc | hc := List.mem_append.mp hc
        · exact hold hp hc
        · obtain rfl := List.mem_singleton.mp hc
          exact ⟨.inr rfl,by rw [if_pos rfl]; exact hpp⟩
      · exact hold hp hc
    · rw [h.newChildren,if_neg fun hpp => hne _ (hpar _ hpp) rfl] at hc
      exact absurd hc List.not_mem_nil

/-- A link stays in the list of a node when one is put into a list. -/
theorem Objects.mem_pushLink {n k : ℕ} (a l : ℕ) (hk : k ∈ (t.nodeAt n).links) :
    k ∈ ((t.pushLink a l).nodeAt n).links := by
  by_cases hn : n = a
  · subst hn
    rw [Objects.pushLink,Objects.modifyNode_self]
    exact List.mem_append_left _ hk
  · rw [Objects.pushLink,Objects.modifyNode_ne _ hn]
    exact hk

theorem Objects.mem_pushLink_self (t : Objects) (a l : ℕ) : l ∈ ((t.pushLink a l).nodeAt a).links := by
  rw [Objects.pushLink,Objects.modifyNode_self]
  exact List.mem_append_right _ List.mem_cons_self

theorem findNode_spec {t : Objects} {label a : ℕ} (h : t.findNode label = some a) :
    a ∈ t.nodes ∧ (t.nodeAt a).label = label :=
  ⟨List.mem_of_find?_eq_some h,by simpa using List.find?_some h⟩

theorem Agrees.insertLink {t : Objects} (ha : Agrees t) (hl : ∀ l ∈ t.links, l < t.nextLink)
    {a b : ℕ} {x : LinkObject} (hx : ∀ l ∈ t.links, (t.linkAt l).label ≠ x.label)
    (hx1 : x.node1 = a) (hx2 : x.node2 = b) (ham : a ∈ t.nodes) (hbm : b ∈ t.nodes) :
    let t₁ : Objects := { t with
      linkAt := Function.update t.linkAt t.nextLink x, nextLink := t.nextLink + 1 }
    Agrees { (t₁.pushLink a t.nextLink).pushLink b t.nextLink with
      links := t.links ++ [t.nextLink] } := by
  intro t₁
  have hold : ∀ l ∈ t.links, t₁.linkAt l = t.linkAt l := fun l hm => by
    show Function.update t.linkAt t.nextLink x l = _
    rw [Function.update_of_ne (Nat.ne_of_lt (hl l hm))]
  have hnew : t₁.linkAt t.nextLink = x := by
    show Function.update t.linkAt t.nextLink x t.nextLink = _
    rw [Function.update_self]
  -- what the two `push_back` leave alone
  have hsame : ∀ {α : Type} (get : NodeObject → α), (∀ y ls, get { y with links := ls } = get y) →
      ∀ n, get (((t₁.pushLink a t.nextLink).pushLink b t.nextLink).nodeAt n) = get (t.nodeAt n) :=
    fun get hget n => (Objects.modifyNode_field get fun y => hget y _).trans
      (Objects.modifyNode_field get fun y => hget y _)
  have hend : ∀ e : LinkObject → ℕ,
      (∀ l ∈ t.links, e (t.linkAt l) ∈ t.nodes ∧ l ∈ (t.nodeAt (e (t.linkAt l))).links) →
      e x ∈ t.nodes →
      t.nextLink ∈ (((t₁.pushLink a t.nextLink).pushLink b t.nextLink).nodeAt (e x)).links →
      ∀ l ∈ t.links ++ [t.nextLink], e (t₁.linkAt l) ∈ t.nodes ∧
        l ∈ (((t₁.pushLink a t.nextLink).pushLink b t.nextLink).nodeAt (e (t₁.linkAt l))).links := by
    intro e he hm hin l hl
    obtain hl | hl := List.mem_append.mp hl
    · rw [hold l hl]
      exact ⟨(he l hl).1,Objects.mem_pushLink b _ (Objects.mem_pushLink a _ (he l hl).2)⟩
    · obtain rfl := List.mem_singleton.mp hl
      rw [hnew]
      exact ⟨hm,hin⟩
  refine ⟨?_,?_,?_,?_,?_,?_⟩
  · show (t.nodes.map fun n => _).Nodup
    rw [List.map_congr_left fun n _ => hsame NodeObject.label (fun _ _ => rfl) n]
    exact ha.nodeLabels
  · show ((t.links ++ [t.nextLink]).map fun l => (t₁.linkAt l).label).Nodup
    rw [List.map_append,List.map_congr_left fun l hm => congrArg LinkObject.label (hold l hm),
      List.nodup_append]
    refine ⟨ha.linkLabels,by simp,fun y hy z hz => ?_⟩
    obtain ⟨l,hm,rfl⟩ := List.mem_map.mp hy
    rw [List.map_singleton,List.mem_singleton,hnew] at hz
    rw [hz]
    exact hx l hm
  · refine hend LinkObject.node1 ha.end1 (hx1 ▸ ham) ?_
    rw [hx1]
    exact Objects.mem_pushLink b _ (Objects.mem_pushLink_self t₁ a _)
  · refine hend LinkObject.node2 ha.end2 (hx2 ▸ hbm) ?_
    rw [hx2]
    exact Objects.mem_pushLink_self _ b _
  · intro c hc p hp
    rw [hsame NodeObject.parent fun _ _ => rfl] at hp
    rw [hsame NodeObject.nodeChildren fun _ _ => rfl]
    exact ha.parent c hc p hp
  · intro p hp c hc
    rw [hsame NodeObject.nodeChildren fun _ _ => rfl] at hc
    rw [hsame NodeObject.parent fun _ _ => rfl]
    exact ha.child p hp c hc

/-- A node can be taken out if it is detached, and not else. -/
theorem Agrees.removeNode_iff {t : Objects} (ha : Agrees t) {n : ℕ} (hn : n ∈ t.nodes) :
    Agrees { t with nodes := t.nodes.erase n } ↔ Detached t n := by
  have hnd : t.nodes.Nodup := List.Nodup.of_map _ ha.nodeLabels
  have hmem : ∀ c, c ∈ t.nodes.erase n ↔ c ≠ n ∧ c ∈ t.nodes := fun c => hnd.mem_erase_iff
  constructor
  · intro h
    refine ⟨fun l hl => ⟨?_,?_⟩,fun p hp => ?_,fun c hc => ?_⟩
    · exact ((hmem _).mp (h.end1 l hl).1).1
    · exact ((hmem _).mp (h.end2 l hl).1).1
    · obtain ⟨hpm,hin⟩ := ha.parent n hn p hp
      by_contra hne
      exact ((hmem n).mp (h.child p ((hmem p).mpr ⟨hne,hpm⟩) n hin).1).1 rfl
    · obtain ⟨hcm,hcp⟩ := ha.child n hn c hc
      by_contra hne
      exact ((hmem n).mp (h.parent c ((hmem c).mpr ⟨hne,hcm⟩) n hcp).1).1 rfl
  · intro h
    refine ⟨?_,ha.linkLabels,fun l hl => ?_,fun l hl => ?_,fun c hc p hp => ?_,fun p hp c hc => ?_⟩
    · exact ha.nodeLabels.sublist (List.erase_sublist.map _)
    · exact ⟨(hmem _).mpr ⟨(h.links l hl).1,(ha.end1 l hl).1⟩,(ha.end1 l hl).2⟩
    · exact ⟨(hmem _).mpr ⟨(h.links l hl).2,(ha.end2 l hl).1⟩,(ha.end2 l hl).2⟩
    · obtain ⟨hne,hcm⟩ := (hmem c).mp hc
      obtain ⟨hpm,hin⟩ := ha.parent c hcm p hp
      refine ⟨(hmem p).mpr ⟨?_,hpm⟩,hin⟩
      rintro rfl
      exact hne (h.children c hin)
    · obtain ⟨hne,hpm⟩ := (hmem p).mp hp
      obtain ⟨hcm,hcp⟩ := ha.child p hpm c hc
      refine ⟨(hmem c).mpr ⟨?_,hcm⟩,hcp⟩
      rintro rfl
      exact hne (h.parent p hcp)

theorem Agrees.removeLink {t : Objects} (ha : Agrees t) (l : ℕ) :
    Agrees { t with links := t.links.erase l } where
  nodeLabels := ha.nodeLabels
  linkLabels := ha.linkLabels.sublist (List.erase_sublist.map _)
  end1 k hk := ha.end1 k (List.mem_of_mem_erase hk)
  end2 k hk := ha.end2 k (List.mem_of_mem_erase hk)
  parent := ha.parent
  child := ha.child

/-- A call that returns success. -/
def Step (t : Objects) (e : Edit) (t' : Objects) : Prop :=
  (e.exec t).2.result = 1 ∧ (e.exec t).1 = t'

/-- A new node is put at the end of the list, and is then an object. -/
theorem Prepared.allocated {t₁ : Objects} (h : Prepared t label t₁) (hv : Allocated t)
    (parentLabel : ℕ) :
    Allocated (insertLoop parentLabel t.nextNode t₁.nodes (parentLabel == 0) t₁).1 := by
  have hsame : ∀ par, Allocated (adopted t₁ t.nextNode par) := by
    refine fun par => ⟨fun n hn => ?_,fun l hl => ?_⟩
    · rw [adopted_nodes,h.nodes] at hn
      rw [adopted_nextNode,h.nextNode]
      exact Nat.lt_succ_of_lt (hv.nodes n hn)
    · rw [adopted_linkList,h.links] at hl
      rw [adopted_nextLink,h.nextLink]
      exact hv.links l hl
  obtain ⟨_,he⟩ | ⟨_,he | ⟨_,he⟩⟩ := h.cases hv.nodes parentLabel
  · rw [he]
    exact hsame _
  · rw [he]
    refine ⟨fun n hn => ?_,(hsame _).links⟩
    obtain hn | rfl := mem_pushNode.mp hn
    · exact (hsame _).nodes n hn
    · show t.nextNode < (adopted t₁ t.nextNode _).nextNode
      rw [adopted_nextNode,h.nextNode]
      exact Nat.lt_succ_self _
  · rw [he]
    exact hsame none

theorem allocated_insertLink {t : Objects} (hv : Allocated t) (label node1Label node2Label : ℕ)
    (link : ℕ → ℕ → LinkObject) :
    Allocated (insertLink t label node1Label node2Label link).1 := by
  obtain ⟨he,_⟩ | ⟨_,_,_,_,_,_,he⟩ := insertLink_cases t label node1Label node2Label link
  · rw [he]
    exact hv
  · rw [he]
    refine ⟨hv.nodes,fun l hl => ?_⟩
    show l < t.nextLink + 1
    obtain hl | hl := List.mem_append.mp hl
    · exact Nat.lt_succ_of_lt (hv.links l hl)
    · rw [List.mem_singleton.mp hl]
      exact Nat.lt_succ_self _

theorem allocated_exec {t : Objects} (hv : Allocated t) (e : Edit) : Allocated (e.exec t).1 := by
  cases e with
  | addNode type label parentLabel hasVport cores mem numInterface interfacebw extTag =>
    exact (prepared_newNode t rfl rfl).allocated hv parentLabel
  | addCopyNode c =>
    show Allocated (addCopyNode t c).1
    rw [addCopyNode_eq]
    exact (prepared_copy t c).allocated hv _
  | addLink x => exact allocated_insertLink hv _ _ _ _
  | addCopyLink lnk => exact allocated_insertLink hv _ _ _ _
  | removeNode label =>
    simp only [Edit.exec,removeNode]
    split
    · exact ⟨fun n hn => hv.nodes n (List.mem_of_mem_erase hn),hv.links⟩
    · exact hv
  | removeLink label =>
    simp only [Edit.exec,removeLink]
    split
    · exact ⟨hv.nodes,fun l hl => hv.links l (List.mem_of_mem_erase hl)⟩
    · exact hv

theorem alreadyUsed_ne (label : ℕ) : (alreadyUsed label).result ≠ 1 := by
  show (-1 : ℤ) ≠ 1
  decide

theorem notFound_ne (what : String) (label : ℕ) : (notFound what label).result ≠ 1 := by
  show (-1 : ℤ) ≠ 1
  decide

theorem Prepared.agrees_of_success {t₁ : Objects} (h : Prepared t label t₁) (hv : Allocated t)
    (ha : Agrees t) {parentLabel : ℕ}
    (hs : (insertLoop parentLabel t.nextNode t₁.nodes (parentLabel == 0) t₁).2.result = 1) :
    Agrees (insertLoop parentLabel t.nextNode t₁.nodes (parentLabel == 0) t₁).1 := by
  obtain ⟨_,he⟩ | ⟨hused,he | ⟨_,he⟩⟩ := h.cases hv.nodes parentLabel
  · rw [he] at hs
    exact absurd hs (alreadyUsed_ne label)
  · rw [he]
    exact h.agrees hv.nodes ha hused fun _ => parentBefore_mem
  · rw [he] at hs
    exact absurd hs (notFound_ne _ parentLabel)

theorem agrees_of_insertLink {t : Objects} (hv : Allocated t) (ha : Agrees t)
    {label node1Label node2Label : ℕ} {link : ℕ → ℕ → LinkObject}
    (hlink : ∀ a b, (link a b).label = label ∧ (link a b).node1 = a ∧ (link a b).node2 = b)
    (hs : (insertLink t label node1Label node2Label link).2.result = 1) :
    Agrees (insertLink t label node1Label node2Label link).1 := by
  obtain ⟨_,he⟩ | ⟨a,b,hfa,hfb,hused,_,he⟩ := insertLink_cases t label node1Label node2Label link
  · rw [he] at hs
    exact absurd hs (by decide)
  · rw [he]
    obtain ⟨hl,h1,h2⟩ := hlink a b
    exact ha.insertLink hv.links (hl ▸ hused) h1 h2 (findNode_spec hfa).1 (findNode_spec hfb).1

/-- A successful call keeps a topology together if a node that it removes is detached, and not else. -/
theorem agrees_iff {t t' : Objects} {e : Edit} (hv : Allocated t) (ha : Agrees t)
    (hs : Step t e t') : Agrees t' ↔ Harmless t e := by
  obtain ⟨hs,rfl⟩ := hs
  cases e with
  | addNode type label parentLabel hasVport cores mem numInterface interfacebw extTag =>
    exact iff_of_true ((prepared_newNode t rfl rfl).agrees_of_success hv ha hs) trivial
  | addCopyNode c =>
    refine iff_of_true ?_ trivial
    simp only [Edit.exec,addCopyNode_eq] at hs ⊢
    exact (prepared_copy t c).agrees_of_success hv ha hs
  | addLink x =>
    exact iff_of_true (agrees_of_insertLink hv ha (fun _ _ => ⟨rfl,rfl,rfl⟩) hs) trivial
  | addCopyLink lnk =>
    exact iff_of_true (agrees_of_insertLink hv ha (fun _ _ => ⟨rfl,rfl,rfl⟩) hs) trivial
  | removeNode label =>
    cases hf : t.findNode label with
    | none =>
      simp only [Edit.exec,removeNode,hf] at hs
      exact absurd hs (notFound_ne _ label)
    | some n =>
      simp only [Edit.exec,removeNode,hf]
      refine (ha.removeNode_iff (findNode_spec hf).1).trans ⟨fun hd m hm => ?_,fun h => h n hf⟩
      rw [hf] at hm
      obtain rfl := Option.some.inj hm
      exact hd
  | removeLink label =>
    refine iff_of_true ?_ trivial
    simp only [Edit.exec,removeLink] at hs ⊢
    split
    · exact ha.removeLink _
    · exact ha

/-- When failed calls change nothing, and when successful ones keep a topology together. -/
theorem edits_iff (t : Objects) (hv : Allocated t) :
    (∀ e, Passes t e → (e.exec t).2.result ≠ 1 → (Unchanged t (e.exec t).1 ↔ Clean t e)) ∧
    ∀ tr, Agrees t → IsRun Step t tr →
      (EveryState Agrees t tr ↔ EveryStep (fun t e _ => Harmless t e) t tr) := by
  refine ⟨fun e hc hfail => failed_iff hv hc hfail,fun tr ha hr => ?_⟩
  refine hr.everyState_iff (P := fun t => Allocated t ∧ Agrees t) ?_ ?_ (fun _ h => h.2) ⟨hv,ha⟩
  · rintro s e _ ⟨hv,ha⟩ hstep hh
    exact ⟨hstep.2 ▸ allocated_exec hv e,(agrees_iff hv ha hstep).mpr hh⟩
  · rintro s e _ ⟨hv,ha⟩ hstep ht
    exact (agrees_iff hv ha hstep).mp ht

def empty : Objects where
  nodeAt _ := { type := "", label := 0 }
  linkAt _ := ⟨0,0,0,0,0,0,0,0,0,0,[],false,0,0,0,false,0,0,0,0,0,none⟩

def pc (label parentLabel : ℕ) : Edit := .addNode "pc1core" label parentLabel false 1 1 0 0 ""

theorem edits_iff_pc :
    (Unchanged empty ((pc 1 2).exec empty).1 ↔ Clean empty (pc 1 2)) ∧
    (EveryState Agrees empty [(pc 1 0,((pc 1 0).exec empty).1)] ↔
      EveryStep (fun t e _ => Harmless t e) empty [(pc 1 0,((pc 1 0).exec empty).1)]) := by
  have hv : Allocated empty := ⟨fun _ h => absurd h List.not_mem_nil,
    fun _ h => absurd h List.not_mem_nil⟩
  have ha : Agrees empty := by
    constructor <;> simp [empty]
  exact ⟨(edits_iff empty hv).1 (pc 1 2) (fun n h => by cases h) (by decide),
    (edits_iff empty hv).2 _ ha ⟨⟨rfl,rfl⟩,trivial⟩⟩

/-- Two nodes and a link between them. -/
def twoPcs : Objects :=
  ((Edit.addLink ⟨1,1000,1,0,0,2,0,0,0,0,0,0⟩).exec ((pc 2 0).exec ((pc 1 0).exec empty).1).1).1

/-- A second node with the label 2 is refused, but the node 1 has it as a child afterwards. The node
2 can be removed, and the link ends at it afterwards. -/
theorem edits_broken :
    ((pc 2 1).exec twoPcs).2 = alreadyUsed 2 ∧ (twoPcs.nodeAt 0).isParent = false ∧
    (((pc 2 1).exec twoPcs).1.nodeAt 0).isParent = true ∧ (twoPcs.nodeAt 0).nodeChildren = [] ∧
    (((pc 2 1).exec twoPcs).1.nodeAt 0).nodeChildren = [2] ∧
    ((Edit.removeNode 2).exec twoPcs).2 = success ∧
    ((Edit.removeNode 2).exec twoPcs).1.links = [0] ∧
    (((Edit.removeNode 2).exec twoPcs).1.linkAt 0).node2 ∉ ((Edit.removeNode 2).exec twoPcs).1.nodes := by
  decide

end OnlDaemons.Onldb.TopologyEdits

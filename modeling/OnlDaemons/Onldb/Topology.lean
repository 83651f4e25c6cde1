import Mathlib.Algebra.Order.Ring.Int
import Mathlib.Data.List.GetD
import Mathlib.Tactic.Common

/-!
# Topologies

The nodes and links of a `topology`. A pointer to a node or a link is its position in the list
of the topology: both lists only grow while a topology is built. The fields that only the
reservation code uses (`marked`, `level`, `cost`, the mapped nodes and paths) are not kept
here; a search that uses them carries them in its own state.

## Main definitions

- `Topology.addNode`, `Topology.addLink`, `Topology.getLabel`
- `Topology.Wf` — labels are unique and the cross references agree
-/

namespace OnlDaemons.Onldb

/-- `node_resource`. -/
structure NodeResource where
  type : String
  label : ℕ
  isParent : Bool := false
  parent : Option ℕ := none
  nodeChildren : List ℕ := []
  links : List ℕ := []
  fixed : Bool := false
  hasVport : Bool := false
  node : String := ""
  acl : String := "unused"
  cp : String := "unused"
  hostedType : String := ""
  coreCapacity : ℕ := 1
  memCapacity : ℕ := 1
  vmid : ℕ := 0
  rootOnly : Bool := false
deriving DecidableEq, Inhabited

/-- What a `link_resource` says about one of its two ends. -/
structure LinkEnd where
  node : ℕ
  port : ℕ
  rport : ℤ
  capacity : ℕ
deriving DecidableEq, Inhabited

/-- `link_resource`: `node1`, `node1_port`, `node1_rport` and `node1_capacity` are the fields of
`end1`, those of `node2` the fields of `end2`. -/
structure LinkResource where
  label : ℕ
  capacity : ℕ
  end1 : LinkEnd
  end2 : LinkEnd
  rload : ℕ := 0
  lload : ℕ := 0
  conns : List ℤ := []
deriving DecidableEq, Inhabited

/-- One of the two ends of a link. -/
def LinkResource.side (l : LinkResource) : Bool → LinkEnd
  | true => l.end1
  | false => l.end2

@[simp] theorem LinkResource.side_true (l : LinkResource) : l.side true = l.end1 := rfl

@[simp] theorem LinkResource.side_false (l : LinkResource) : l.side false = l.end2 := rfl

structure Topology where
  nodes : List NodeResource := []
  links : List LinkResource := []
deriving DecidableEq

namespace Topology

def node (t : Topology) (a : ℕ) : NodeResource := t.nodes.getD a default

def link (t : Topology) (l : ℕ) : LinkResource := t.links.getD l default

/-- The node is an end of the link. -/
def Inc (t : Topology) (l a : ℕ) : Prop :=
  l < t.links.length ∧ ((t.link l).end1.node = a ∨ (t.link l).end2.node = a)

/-- `topology::lowercase`, character by character. -/
def lowercase (s : String) : String := String.ofList (s.toList.map Char.toLower)

/-- The position of the node with a label. -/
def findNode (t : Topology) (label : ℕ) : Option ℕ := t.nodes.findIdx? (fun n => n.label = label)

/-- `topology::add_node`, with the text of its error. A topology whose `add_node` failed is
thrown away by every caller. -/
def addNode (t : Topology) (type : String) (label parentLabel : ℕ) (hasVport : Bool)
    (cores mem : ℕ) : Except String Topology :=
  let hrp : NodeResource :=
    { type := lowercase type, label, hasVport, coreCapacity := cores, memCapacity := mem }
  if t.nodes.any (fun n => n.label = label) then
    .error ("label " ++ toString label ++ " already used")
  else if parentLabel = 0 then
    .ok { t with nodes := t.nodes ++ [hrp] }
  else match t.findNode parentLabel with
    | none => .error ("parent_label " ++ toString parentLabel ++ " not found")
    | some p =>
      .ok { t with
        nodes := t.nodes.modify p (fun n =>
          { n with isParent := true, nodeChildren := n.nodeChildren ++ [t.nodes.length] }) ++
          [{ hrp with parent := some p }] }

/-- `links.push_back` on the node of one end of a link. -/
def pushLink (nodes : List NodeResource) (a l : ℕ) : List NodeResource :=
  nodes.modify a (fun n => { n with links := n.links ++ [l] })

/-- `topology::add_link`. A loopback link is put on the links of its node twice. -/
def addLink (t : Topology) (label capacity node1Label node1Port : ℕ) (node1Rport : ℤ)
    (node2Label node2Port : ℕ) (node2Rport : ℤ) (rload lload node1Cap node2Cap : ℕ) :
    Except String Topology :=
  if t.links.any (fun l => l.label = label) then
    .error ("label " ++ toString label ++ " already used")
  else match t.findNode node1Label, t.findNode node2Label with
    | none, _ => .error ("node1_label " ++ toString node1Label ++ " not found")
    | some _, none => .error ("node2_label " ++ toString node2Label ++ " not found")
    | some a, some b =>
      .ok {
        nodes := pushLink (pushLink t.nodes a t.links.length) b t.links.length
        links := t.links ++ [{
          label, capacity, rload, lload
          end1 := ⟨a, node1Port, node1Rport, if node1Cap > 0 then node1Cap else capacity⟩
          end2 := ⟨b, node2Port, node2Rport, if node2Cap > 0 then node2Cap else capacity⟩ }] }

/-- `topology::get_label`: 0 when no node has the name. -/
def getLabel (t : Topology) (name : String) (vmid : ℕ) : ℕ :=
  match t.nodes.find? (fun n => n.node = name ∧ (n.vmid = vmid ∨ vmid = 0 ∨ n.type = "vgige")) with
  | some n => n.label
  | none => 0

/-- Labels are unique, link lists hold the links whose end the node is, and the parents are the
nodes with a child. -/
structure Wf (t : Topology) : Prop where
  label_inj : ∀ a < t.nodes.length, ∀ b < t.nodes.length, (t.node a).label = (t.node b).label → a = b
  ends : ∀ l a, t.Inc l a → a < t.nodes.length
  mem_links : ∀ a < t.nodes.length, ∀ l, l ∈ (t.node a).links ↔ t.Inc l a
  parent : ∀ a < t.nodes.length, ∀ p, (t.node a).parent = some p →
    p < t.nodes.length ∧ (t.node p).isParent
  child : ∀ p < t.nodes.length, (t.node p).isParent → ∃ a < t.nodes.length, (t.node a).parent = some p

/-- The empty topology. -/
theorem wf_empty : Wf {} := by
  constructor <;> simp [Inc]

theorem findNode_lt {t : Topology} {label a : ℕ} (h : t.findNode label = some a) :
    a < t.nodes.length := by
  obtain ⟨h, -⟩ := List.findIdx?_eq_some_iff_getElem.mp h
  exact h

theorem findNode_label {t : Topology} {label a : ℕ} (h : t.findNode label = some a) :
    (t.node a).label = label := by
  obtain ⟨h, hl, -⟩ := List.findIdx?_eq_some_iff_getElem.mp h
  rw [node, List.getD_eq_getElem _ _ h]
  simpa using hl

theorem getD_modify (nodes : List NodeResource) (p a : ℕ) (f : NodeResource → NodeResource)
    (ha : a < nodes.length) :
    (nodes.modify p f).getD a default =
      if p = a then f (nodes.getD a default) else nodes.getD a default := by
  rw [List.getD_eq_getElem _ _ (by simpa using ha), List.getD_eq_getElem _ _ ha,
    List.getElem_modify]

/-- A new node without links, on a list in which only its parent has changed. -/
theorem Wf.pushNode {t : Topology} (h : t.Wf) {nodes : List NodeResource} {new : NodeResource}
    (hlen : nodes.length = t.nodes.length)
    (hsame : ∀ a < t.nodes.length,
      let n := nodes.getD a default
      n.label = (t.node a).label ∧ n.links = (t.node a).links ∧ n.parent = (t.node a).parent ∧
        (n.isParent ↔ (t.node a).isParent ∨ new.parent = some a))
    (hlabel : ∀ a < t.nodes.length, (t.node a).label ≠ new.label) (hlinks : new.links = [])
    (hleaf : new.isParent = false) (hparent : ∀ p, new.parent = some p → p < t.nodes.length) :
    Wf { t with nodes := nodes ++ [new] } := by
  have hold : ∀ a < t.nodes.length,
      node { t with nodes := nodes ++ [new] } a = nodes.getD a default := by
    intro a ha
    exact List.getD_append _ _ _ _ (by omega)
  have hnew : node { t with nodes := nodes ++ [new] } t.nodes.length = new := by
    simp [node, ← hlen]
  have hlt : ∀ a, a < (nodes ++ [new]).length ↔ a < t.nodes.length ∨ a = t.nodes.length := by
    intro a
    simp [hlen]
    omega
  constructor
  · intro a ha b hb hab
    rcases (hlt a).mp ha with ha | rfl <;> rcases (hlt b).mp hb with hb | rfl
    · rw [hold a ha, hold b hb, (hsame a ha).1, (hsame b hb).1] at hab
      exact h.label_inj a ha b hb hab
    · rw [hold a ha, hnew, (hsame a ha).1] at hab
      exact absurd hab (hlabel a ha)
    · rw [hold b hb, hnew, (hsame b hb).1] at hab
      exact absurd hab.symm (hlabel b hb)
    · rfl
  · intro l a ha
    exact (hlt a).mpr (Or.inl (h.ends l a ha))
  · intro a ha l
    rcases (hlt a).mp ha with ha | rfl
    · rw [hold a ha, (hsame a ha).2.1]
      exact h.mem_links a ha l
    · rw [hnew, hlinks]
      have hn : ¬t.Inc l t.nodes.length := fun hi => absurd (h.ends l _ hi) (lt_irrefl _)
      exact ⟨fun h' => absurd h' (List.not_mem_nil), fun h' => absurd h' hn⟩
  · intro a ha p hp
    have key : p < t.nodes.length ∧ ((t.node p).isParent ∨ new.parent = some p) := by
      rcases (hlt a).mp ha with ha | rfl
      · rw [hold a ha, (hsame a ha).2.2.1] at hp
        exact ⟨(h.parent a ha p hp).1, Or.inl (h.parent a ha p hp).2⟩
      · rw [hnew] at hp
        exact ⟨hparent p hp, Or.inr hp⟩
    refine ⟨(hlt p).mpr (Or.inl key.1), ?_⟩
    rw [hold p key.1]
    exact (hsame p key.1).2.2.2.mpr key.2
  · intro p hp hpp
    rcases (hlt p).mp hp with hp | rfl
    · rw [hold p hp] at hpp
      rcases (hsame p hp).2.2.2.mp hpp with hpp | hpp
      · obtain ⟨a, ha, hap⟩ := h.child p hp hpp
        exact ⟨a, (hlt a).mpr (Or.inl ha), by rw [hold a ha, (hsame a ha).2.2.1, hap]⟩
      · exact ⟨t.nodes.length, (hlt _).mpr (Or.inr rfl), by rw [hnew, hpp]⟩
    · rw [hnew, hleaf] at hpp
      exact absurd hpp (by simp)

/-- A topology stays well formed under `add_node`. -/
theorem addNode_wf {t t' : Topology} (h : t.Wf) {type : String} {label parentLabel : ℕ}
    {hasVport : Bool} {cores mem : ℕ}
    (hadd : t.addNode type label parentLabel hasVport cores mem = .ok t') : t'.Wf := by
  unfold addNode at hadd
  split at hadd
  · cases hadd
  rename_i hused
  have hlabel : ∀ a < t.nodes.length, (t.node a).label ≠ label := by
    intro a ha hal
    apply hused
    refine List.any_eq_true.mpr ⟨t.node a, ?_, by simpa using hal⟩
    rw [node, List.getD_eq_getElem _ _ ha]
    exact List.getElem_mem ha
  split at hadd
  · cases hadd
    exact h.pushNode rfl (fun a _ => by simp [node]) hlabel rfl rfl (by simp)
  · split at hadd
    · cases hadd
    · rename_i p hp
      cases hadd
      refine h.pushNode (by simp) ?_ hlabel rfl rfl ?_
      · intro a ha
        rw [getD_modify _ _ _ _ ha]
        by_cases hpa : p = a <;> simp [hpa, node]
      · rintro q ⟨⟩
        exact findNode_lt hp

theorem getD_pushLink (nodes : List NodeResource) (a b l : ℕ) (hb : b < nodes.length) :
    (pushLink nodes a l).getD b default =
      if a = b then { nodes.getD b default with links := (nodes.getD b default).links ++ [l] }
      else nodes.getD b default :=
  getD_modify nodes a b _ hb

@[simp] theorem length_pushLink (nodes : List NodeResource) (a l : ℕ) :
    (pushLink nodes a l).length = nodes.length := by
  simp [pushLink]

/-- A new link between the nodes `a` and `b`, put on the link lists of both. -/
theorem Wf.pushLink {t : Topology} (h : t.Wf) {nodes : List NodeResource} {new : LinkResource}
    {a b : ℕ} (ha : new.end1.node = a) (hb : new.end2.node = b) (hal : a < t.nodes.length)
    (hbl : b < t.nodes.length) (hlen : nodes.length = t.nodes.length)
    (hnode : ∀ c < t.nodes.length,
      let n := nodes.getD c default
      n.label = (t.node c).label ∧ n.parent = (t.node c).parent ∧
        n.isParent = (t.node c).isParent ∧
        ∀ l, l ∈ n.links ↔ l ∈ (t.node c).links ∨ (a = c ∨ b = c) ∧ l = t.links.length) :
    Wf { nodes, links := t.links ++ [new] } := by
  have hold : ∀ l < t.links.length, link { nodes, links := t.links ++ [new] } l = t.link l :=
    fun l hl => List.getD_append _ _ _ _ hl
  have hlast : link { nodes, links := t.links ++ [new] } t.links.length = new := by
    simp [link]
  constructor
  · intro c hc d hd hcd
    simp only [hlen] at hc hd
    simp only [node] at hcd
    rw [(hnode c hc).1, (hnode d hd).1] at hcd
    exact h.label_inj c hc d hd hcd
  · rintro l c ⟨hl, hc⟩
    simp only [hlen]
    simp only [List.length_append, List.length_singleton] at hl
    by_cases hlt : l < t.links.length
    · rw [hold l hlt] at hc
      exact h.ends l c ⟨hlt, hc⟩
    · obtain rfl : l = t.links.length := by omega
      rw [hlast, ha, hb] at hc
      rcases hc with rfl | rfl
      · exact hal
      · exact hbl
  · intro c hc l
    simp only [hlen] at hc
    rw [node, (hnode c hc).2.2.2 l, h.mem_links c hc l, Inc, Inc]
    simp only [List.length_append, List.length_singleton]
    by_cases hlt : l < t.links.length
    · rw [hold l hlt]
      constructor
      · rintro (h' | ⟨-, h'⟩)
        · exact ⟨by omega, h'.2⟩
        · omega
      · exact fun h' => Or.inl ⟨hlt, h'.2⟩
    · by_cases hl : l = t.links.length
      · subst hl
        rw [hlast, ha, hb]
        simp
      · constructor
        · rintro (h' | h') <;> omega
        · omega
  · intro c hc p hp
    simp only [hlen] at hc
    rw [node, (hnode c hc).2.1] at hp
    obtain ⟨hp', hpp⟩ := h.parent c hc p hp
    refine ⟨by simpa only [hlen], ?_⟩
    rw [node, (hnode p hp').2.2.1]
    exact hpp
  · intro p hp hpp
    simp only [hlen] at hp
    rw [node, (hnode p hp).2.2.1] at hpp
    obtain ⟨c, hc, hcp⟩ := h.child p hp hpp
    refine ⟨c, by simpa only [hlen], ?_⟩
    rw [node, (hnode c hc).2.1]
    exact hcp

/-- A topology stays well formed under `add_link`. -/
theorem addLink_wf {t t' : Topology} (h : t.Wf) {label capacity node1Label node1Port : ℕ}
    {node1Rport : ℤ} {node2Label node2Port : ℕ} {node2Rport : ℤ}
    {rload lload node1Cap node2Cap : ℕ}
    (hadd : t.addLink label capacity node1Label node1Port node1Rport node2Label node2Port
      node2Rport rload lload node1Cap node2Cap = .ok t') : t'.Wf := by
  unfold addLink at hadd
  split at hadd
  · cases hadd
  split at hadd
  · cases hadd
  · cases hadd
  rename_i a b ha hb
  cases hadd
  refine h.pushLink rfl rfl (findNode_lt ha) (findNode_lt hb) (by simp) ?_
  intro c hc
  rw [getD_pushLink _ _ _ _ (by simpa using hc), getD_pushLink _ _ _ _ hc]
  by_cases hac : a = c <;> by_cases hbc : b = c <;> simp [hac, hbc, node]

/-- Well-formedness is a matter of labels, links and parents; the other fields of a node may be
filled in afterwards. -/
theorem Wf.congr {t t' : Topology} (h : t.Wf) (hlinks : t'.links = t.links)
    (hlen : t'.nodes.length = t.nodes.length)
    (hnode : ∀ a < t.nodes.length, (t'.node a).label = (t.node a).label ∧
      (t'.node a).links = (t.node a).links ∧ (t'.node a).parent = (t.node a).parent ∧
      (t'.node a).isParent = (t.node a).isParent) : t'.Wf := by
  have hinc : ∀ l a, t'.Inc l a ↔ t.Inc l a := by
    intro l a
    simp only [Inc, link, hlinks]
  refine ⟨?_, ?_, ?_, ?_, ?_⟩
  · intro a ha b hb hab
    rw [hlen] at ha hb
    rw [(hnode a ha).1, (hnode b hb).1] at hab
    exact h.label_inj a ha b hb hab
  · intro l a hl
    rw [hlen]
    exact h.ends l a ((hinc l a).mp hl)
  · intro a ha l
    rw [hlen] at ha
    rw [(hnode a ha).2.1, hinc]
    exact h.mem_links a ha l
  · intro a ha p hp
    rw [hlen] at ha ⊢
    rw [(hnode a ha).2.2.1] at hp
    obtain ⟨hp, hpp⟩ := h.parent a ha p hp
    exact ⟨hp, by rwa [(hnode p hp).2.2.2]⟩
  · intro p hp hpp
    rw [hlen] at hp ⊢
    rw [(hnode p hp).2.2.2] at hpp
    obtain ⟨a, ha, hap⟩ := h.child p hp hpp
    exact ⟨a, ha, by rwa [(hnode a ha).2.2.1]⟩

end Topology

end OnlDaemons.Onldb

import Mathlib.Data.List.Basic
import OnlDaemons.Onldb.Topology

/-!
# The schedule tables

`add_reservation` writes a mapped topology into the schedule tables of the database. Only the
rows of one reservation are kept here, so the column `rid` is left out. Columns of the SQL type
smallint hold 16 bits. Loads and capacities are below 2^31, so the signed and unsigned
comparisons of the source agree.

## Main definitions

- `MappedTopology` — a request as `find_embedding` leaves it
- `Tables` — the rows of one reservation
- `addReservation` — the writer
-/

namespace OnlDaemons.Onldb

/-- What fits into a column of type smallint unsigned. -/
def smallint (n : ℕ) : ℕ := n % 65536

theorem smallint_of_lt {n : ℕ} (h : n < 65536) : smallint n = n := Nat.mod_eq_of_lt h

/-- A link of the base topology on a mapped path: the front of its `conns`, its capacity, and
whether the path runs through it from its first node to its second (`mp_linkdir`). -/
structure Hop where
  conn : ℕ
  capacity : ℕ
  right : Bool
deriving DecidableEq

/-- An element of `added_vgige_links`. -/
structure AddedLink where
  capacity : ℕ
  rload : ℕ
  lload : ℕ
  mappedPath : List Hop
deriving DecidableEq

/-- A link of a mapped request. -/
structure MappedLink where
  capacity : ℕ
  end1 : LinkEnd
  end2 : LinkEnd
  rload : ℕ
  lload : ℕ
  mappedPath : List Hop := []
  addedVgigeLinks : List AddedLink := []
deriving DecidableEq, Inhabited

/-- A node of a mapped request; `node` is the name of the base node or base cluster. -/
structure MappedNode where
  type : String
  devType : String := ""
  fixed : Bool := false
  node : String := ""
  vmid : ℕ := 0
  coreCapacity : ℕ := 1
  memCapacity : ℕ := 1
  links : List ℕ := []
deriving DecidableEq, Inhabited

structure MappedTopology where
  nodes : List MappedNode
  links : List MappedLink
deriving DecidableEq

structure ConnRow where
  linkid : ℕ
  cid : ℕ
  capacity : ℕ
  rload : ℕ
  lload : ℕ
deriving DecidableEq

structure VswitchRow where
  vlanid : ℕ
  port : ℕ
  linkid : ℕ
deriving DecidableEq

structure LinkRow where
  linkid : ℕ
  node1 : String
  port1 : ℕ
  port1capacity : ℕ
  node2 : String
  port2 : ℕ
  port2capacity : ℕ
  node1vmid : ℕ
  node2vmid : ℕ
deriving DecidableEq

structure ClusterRow where
  cluster : String
  fixed : Bool
deriving DecidableEq

structure NodeRow where
  node : String
  fixed : Bool
  vmid : ℕ
  cores : ℕ
  memory : ℕ
deriving DecidableEq

/-- The rows of one reservation. -/
structure Tables where
  connschedule : List ConnRow := []
  vswitchschedule : List VswitchRow := []
  linkschedule : List LinkRow := []
  hwclusterschedule : List ClusterRow := []
  nodeschedule : List NodeRow := []
deriving DecidableEq

/-! ### The writer -/

/-- The first loop: every vswitch gets a unique name. -/
def nameVswitches : ℕ → List MappedNode → List MappedNode × ℕ
  | vlanid, [] => ([], vlanid)
  | vlanid, n :: ns =>
    if n.type = "vgige" then
      let named := { n with node := "vgige" ++ toString vlanid, vmid := vlanid }
      (named :: (nameVswitches (vlanid + 1) ns).1, (nameVswitches (vlanid + 1) ns).2)
    else (n :: (nameVswitches vlanid ns).1, (nameVswitches vlanid ns).2)

/-- The virtual machines are numbered on from the last vswitch. The source does this in the loop
that writes the rows. -/
def numberVms : ℕ → List MappedNode → List MappedNode
  | _, [] => []
  | vlanid, n :: ns =>
    if n.type = "vgige" ∨ n.devType = "hwcluster" then n :: numberVms vlanid ns
    else if n.devType = "hosted" then { n with vmid := vlanid } :: numberVms (vlanid + 1) ns
    else { n with vmid := 0 } :: numberVms vlanid ns

/-- The nodes with the names and numbers under which they are written. -/
def MappedTopology.scheduled (t : MappedTopology) : List MappedNode :=
  numberVms (nameVswitches 1 t.nodes).2 (nameVswitches 1 t.nodes).1

def MappedTopology.link (t : MappedTopology) (l : ℕ) : MappedLink := t.links.getD l default

/-- A row for one link of a mapped path. The loads are cut to the capacity of the base link. -/
def Hop.row (linkid capacity : ℕ) (right left : ℕ × ℕ) (h : Hop) : ConnRow where
  linkid := smallint linkid
  cid := smallint h.conn
  capacity := smallint capacity
  rload := smallint (min (if h.right then right else left).1 h.capacity)
  lload := smallint (min (if h.right then right else left).2 h.capacity)

/-- The rows for the mapped path of a link; a link between two nodes on one base node has a row
with the null connection. -/
def MappedLink.rows (l : MappedLink) (linkid : ℕ) : List ConnRow :=
  if l.mappedPath = [] then
    [⟨smallint linkid, 0, smallint l.capacity, smallint l.rload, smallint l.lload⟩]
  else l.mappedPath.map (Hop.row linkid l.capacity (l.rload, l.lload) (l.lload, l.rload))

/-- The rows for the links added between the parts of a split vswitch. For a base link that is
passed from right to left the loads are those of the user link, not of the added one. -/
def MappedLink.addedRows (l : MappedLink) (linkid : ℕ) : List ConnRow :=
  l.addedVgigeLinks.flatMap (fun add =>
    add.mappedPath.map (Hop.row linkid add.capacity (add.rload, add.lload) (l.lload, l.rload)))

/-- The counter `linkid`, the field `linkid` of the links, and the rows for them. -/
structure LinkNumbers where
  linkid : ℕ := 1
  linkidOf : ℕ → ℕ := fun _ => 0
  conns : List ConnRow := []

/-- The body of the loop over the links of a vswitch. -/
def LinkNumbers.vswitchLink (t : MappedTopology) (s : LinkNumbers) (l : ℕ) : LinkNumbers :=
  if s.linkidOf l = 0 then
    { linkid := s.linkid + 1
      linkidOf := Function.update s.linkidOf l s.linkid
      conns := s.conns ++ ((t.link l).rows s.linkid ++ (t.link l).addedRows s.linkid) }
  else s

/-- The loop over the vswitches; each has one row of its own. -/
def vswitchLoop (t : MappedTopology) :
    List MappedNode → LinkNumbers → List VswitchRow → LinkNumbers × List VswitchRow
  | [], s, vs => (s, vs)
  | n :: ns, s, vs =>
    if n.type = "vgige" then
      let s := n.links.foldl (LinkNumbers.vswitchLink t) s
      vswitchLoop t ns s (vs ++ [⟨smallint n.vmid, 0, smallint (s.linkid - 1)⟩])
    else vswitchLoop t ns s vs

/-- One end of the link is a vswitch. -/
def atVswitch (nodes : List MappedNode) (l : MappedLink) : Bool :=
  (nodes.getD l.end1.node default).type = "vgige" ∨ (nodes.getD l.end2.node default).type = "vgige"

/-- The row of a link in the link schedule. -/
def MappedLink.linkRow (nodes : List MappedNode) (l : MappedLink) (linkid : ℕ) : LinkRow where
  linkid := smallint linkid
  node1 := (nodes.getD l.end1.node default).node
  port1 := smallint l.end1.port
  port1capacity := smallint l.end1.capacity
  node2 := (nodes.getD l.end2.node default).node
  port2 := smallint l.end2.port
  port2capacity := smallint l.end2.capacity
  node1vmid := smallint (nodes.getD l.end1.node default).vmid
  node2vmid := smallint (nodes.getD l.end2.node default).vmid

/-- The last loop, over all links of the topology. -/
def linkLoop (t : MappedTopology) (nodes : List MappedNode) :
    List ℕ → LinkNumbers → List LinkRow → LinkNumbers × List LinkRow
  | [], s, rows => (s, rows)
  | l :: ls, s, rows =>
    if atVswitch nodes (t.link l) then
      linkLoop t nodes ls s (rows ++ [(t.link l).linkRow nodes (s.linkidOf l)])
    else
      linkLoop t nodes ls
        { s with linkid := s.linkid + 1, conns := s.conns ++ (t.link l).rows s.linkid }
        (rows ++ [(t.link l).linkRow nodes s.linkid])

/-- `add_reservation`. -/
def addReservation (t : MappedTopology) : Tables :=
  let nodes := t.scheduled
  let (s, vswitches) := vswitchLoop t nodes {} []
  let (s, links) := linkLoop t nodes (List.range t.links.length) s []
  { connschedule := s.conns
    vswitchschedule := vswitches
    linkschedule := links
    hwclusterschedule := (nodes.filter (fun n => n.type ≠ "vgige" ∧ n.devType = "hwcluster")).map
      (fun n => ⟨n.node, n.fixed⟩)
    nodeschedule := (nodes.filter (fun n => n.type ≠ "vgige" ∧ n.devType ≠ "hwcluster")).map
      (fun n => ⟨n.node, n.fixed, smallint n.vmid, smallint n.coreCapacity,
        smallint n.memCapacity⟩) }

/-! ### The names and numbers -/

namespace MappedNode

def isVswitch (n : MappedNode) : Bool := n.type = "vgige"

def isCluster (n : MappedNode) : Bool := n.type ≠ "vgige" ∧ n.devType = "hwcluster"

/-- A node of the node schedule that is hosted on a base node (`node_hosted`). -/
def isVm (n : MappedNode) : Bool :=
  n.type ≠ "vgige" ∧ n.devType ≠ "hwcluster" ∧ n.devType = "hosted"

end MappedNode

namespace MappedTopology

def node (t : MappedTopology) (a : ℕ) : MappedNode := t.nodes.getD a default

/-- The node with the name and number it is written with. -/
def out (t : MappedTopology) (a : ℕ) : MappedNode := t.scheduled.getD a default

def vswitchNumber (t : MappedTopology) (a : ℕ) : ℕ :=
  1 + (t.nodes.take a).countP MappedNode.isVswitch

def vmNumber (t : MappedTopology) (a : ℕ) : ℕ :=
  1 + t.nodes.countP MappedNode.isVswitch + (t.nodes.take a).countP MappedNode.isVm

end MappedTopology

theorem nameVswitches_snd (v : ℕ) (ns : List MappedNode) :
    (nameVswitches v ns).2 = v + ns.countP MappedNode.isVswitch := by
  induction ns generalizing v with
  | nil => rfl
  | cons n ns ih =>
    unfold nameVswitches
    by_cases h : n.type = "vgige"
    · simp [h, ih, MappedNode.isVswitch]
      omega
    · simp [h, ih, MappedNode.isVswitch]

theorem nameVswitches_getElem? (v : ℕ) (ns : List MappedNode) (i : ℕ) :
    (nameVswitches v ns).1[i]? = ns[i]?.map (fun n =>
      if n.type = "vgige" then
        { n with
          node := "vgige" ++ toString (v + (ns.take i).countP MappedNode.isVswitch)
          vmid := v + (ns.take i).countP MappedNode.isVswitch }
      else n) := by
  induction ns generalizing v i with
  | nil => simp [nameVswitches]
  | cons n ns ih =>
    unfold nameVswitches
    by_cases h : n.type = "vgige"
    · cases i with
      | zero => simp [h]
      | succ i =>
        have hv : v + 1 + (ns.take i).countP MappedNode.isVswitch =
            v + ((ns.take i).countP MappedNode.isVswitch + 1) := by omega
        simp [h, ih, MappedNode.isVswitch, hv]
    · cases i with
      | zero => simp [h]
      | succ i => simp [h, ih, MappedNode.isVswitch]

theorem numberVms_getElem? (v : ℕ) (ns : List MappedNode) (i : ℕ) :
    (numberVms v ns)[i]? = ns[i]?.map (fun n =>
      if n.type = "vgige" ∨ n.devType = "hwcluster" then n
      else if n.devType = "hosted" then
        { n with vmid := v + (ns.take i).countP MappedNode.isVm }
      else { n with vmid := 0 }) := by
  induction ns generalizing v i with
  | nil => simp [numberVms]
  | cons n ns ih =>
    unfold numberVms
    by_cases h : n.type = "vgige" ∨ n.devType = "hwcluster"
    · have hvm : n.isVm = false := by
        rcases h with h | h <;> simp [MappedNode.isVm, h]
      cases i with
      | zero => simp [h]
      | succ i => simp [h, ih, hvm]
    · rw [if_neg h]
      by_cases hh : n.devType = "hosted"
      · have hvm : n.isVm = true := by
          rw [not_or] at h
          simp [MappedNode.isVm, h.1, hh]
        rw [if_pos hh]
        cases i with
        | zero => simp only [List.getElem?_cons_zero, List.take_zero, List.countP_nil, Nat.add_zero,
            Option.map_some, if_neg h, if_pos hh]
        | succ i =>
          have hv : v + 1 + (ns.take i).countP MappedNode.isVm =
              v + ((ns.take i).countP MappedNode.isVm + 1) := by omega
          simp only [List.getElem?_cons_succ, ih, List.take_succ_cons, List.countP_cons, hvm, hv,
            if_true]
      · have hvm : n.isVm = false := by simp [MappedNode.isVm, hh]
        rw [if_neg hh]
        cases i with
        | zero => simp only [List.getElem?_cons_zero, Option.map_some, if_neg h, if_neg hh]
        | succ i => simp [ih, hvm]

/-- Naming the vswitches does not change which nodes are virtual machines. -/
theorem countP_isVm_nameVswitches (v i : ℕ) (ns : List MappedNode) :
    ((nameVswitches v ns).1.take i).countP MappedNode.isVm =
      (ns.take i).countP MappedNode.isVm := by
  induction ns generalizing v i with
  | nil => simp [nameVswitches]
  | cons n ns ih =>
    unfold nameVswitches
    cases i with
    | zero => simp
    | succ i =>
      by_cases h : n.type = "vgige"
      · simp [h, ih, MappedNode.isVm]
      · simp [h, ih, List.countP_cons]

namespace MappedTopology

theorem length_scheduled (t : MappedTopology) : t.scheduled.length = t.nodes.length := by
  have hname : ∀ v (ns : List MappedNode), (nameVswitches v ns).1.length = ns.length := by
    intro v ns
    induction ns generalizing v with
    | nil => rfl
    | cons n ns ih =>
      unfold nameVswitches
      split <;> simp [ih]
  have hnumber : ∀ v (ns : List MappedNode), (numberVms v ns).length = ns.length := by
    intro v ns
    induction ns generalizing v with
    | nil => rfl
    | cons n ns ih =>
      unfold numberVms
      split_ifs <;> simp [ih]
  rw [scheduled, hnumber, hname]

/-- The name and number of each node. -/
theorem out_eq (t : MappedTopology) {a : ℕ} (ha : a < t.nodes.length) : t.out a =
    if (t.node a).type = "vgige" then
      { t.node a with node := "vgige" ++ toString (t.vswitchNumber a), vmid := t.vswitchNumber a }
    else if (t.node a).devType = "hwcluster" then t.node a
    else if (t.node a).devType = "hosted" then { t.node a with vmid := t.vmNumber a }
    else { t.node a with vmid := 0 } := by
  have hget : t.nodes[a]? = some (t.node a) := by
    rw [node, List.getD_eq_getElem _ _ ha, List.getElem?_eq_getElem ha]
  unfold out scheduled
  rw [List.getD_eq_getElem?_getD, numberVms_getElem?, nameVswitches_getElem?, hget,
    nameVswitches_snd, countP_isVm_nameVswitches]
  by_cases hv : (t.node a).type = "vgige"
  · simp [hv, vswitchNumber]
  · by_cases hc : (t.node a).devType = "hwcluster"
    · simp [hv, hc]
    · by_cases hh : (t.node a).devType = "hosted"
      · simp [hv, hh, vmNumber]
      · simp [hv, hc, hh]

end MappedTopology

/-! ### The numbers of the links -/

/-- The cross references between nodes and links agree, and no cluster has a number yet: nodes
are created with number 0. -/
structure MappedTopology.Wf (t : MappedTopology) : Prop where
  ends : ∀ l < t.links.length,
    (t.link l).end1.node < t.nodes.length ∧ (t.link l).end2.node < t.nodes.length
  mem_links : ∀ a < t.nodes.length, ∀ l, l ∈ (t.node a).links ↔
    l < t.links.length ∧ ((t.link l).end1.node = a ∨ (t.link l).end2.node = a)
  cluster : ∀ a < t.nodes.length, (t.node a).isCluster = true → (t.node a).vmid = 0

/-- All rows of a link: those of added links come with a link at a vswitch. -/
def MappedTopology.rows (t : MappedTopology) (l linkid : ℕ) : List ConnRow :=
  (t.link l).rows linkid ++
    if atVswitch t.nodes (t.link l) then (t.link l).addedRows linkid else []

/-- The links in `done` have the numbers from 1 on, in this order, and their rows are written. -/
structure LinkNumbers.Counts (t : MappedTopology) (s : LinkNumbers) (done : List ℕ) : Prop where
  nodup : done.Nodup
  linkid : s.linkid = done.length + 1
  of : ∀ l, s.linkidOf l = if l ∈ done then done.idxOf l + 1 else 0
  conns : s.conns = (done.zipIdx 1).flatMap (fun p => t.rows p.1 p.2)

namespace LinkNumbers.Counts

variable {t : MappedTopology} {s : LinkNumbers} {done : List ℕ}

theorem vswitchLink (h : s.Counts t done) {l : ℕ} (hl : atVswitch t.nodes (t.link l) = true) :
    (s.vswitchLink t l).Counts t (if l ∈ done then done else done ++ [l]) := by
  unfold LinkNumbers.vswitchLink
  rw [h.of l]
  by_cases hd : l ∈ done
  · simp only [hd, if_true, Nat.add_one_ne_zero, if_false]
    exact h
  · simp only [hd, if_false, if_true]
    refine ⟨?_, ?_, ?_, ?_⟩
    · exact List.nodup_append.mpr ⟨h.nodup, by simp, by
        intro a ha b hb
        obtain rfl := List.mem_singleton.mp hb
        exact fun hab => hd (hab ▸ ha)⟩
    · simp [h.linkid]
    · intro x
      by_cases hx : x = l
      · subst hx
        simp [h.linkid, List.idxOf_append_of_notMem hd]
      · change Function.update s.linkidOf l s.linkid x = _
        rw [Function.update_of_ne hx, h.of x]
        by_cases hxd : x ∈ done
        · simp [hxd, List.idxOf_append_of_mem hxd]
        · simp [hxd, hx]
    · simp [h.conns, h.linkid, MappedTopology.rows, hl, List.zipIdx_append, Nat.add_comm]

theorem vswitchLinks {ls : List ℕ} (h : s.Counts t done)
    (hls : ∀ l ∈ ls, atVswitch t.nodes (t.link l) = true) :
    ∃ done', (ls.foldl (LinkNumbers.vswitchLink t) s).Counts t done' ∧
      ∀ l, l ∈ done' ↔ l ∈ done ∨ l ∈ ls := by
  induction ls generalizing s done with
  | nil => exact ⟨done, h, by simp⟩
  | cons x ls ih =>
    obtain ⟨done', hc, hmem⟩ := ih (h.vswitchLink (hls x List.mem_cons_self))
      (fun l hl => hls l (List.mem_cons_of_mem _ hl))
    refine ⟨done', hc, fun l => ?_⟩
    rw [hmem l, List.mem_cons]
    split
    · rename_i hx
      constructor
      · rintro (h | h)
        · exact Or.inl h
        · exact Or.inr (Or.inr h)
      · rintro (h | rfl | h)
        · exact Or.inl h
        · exact Or.inl hx
        · exact Or.inr h
    · rw [List.mem_append, List.mem_singleton]
      tauto

end LinkNumbers.Counts

theorem vswitchLoop_spec {t : MappedTopology} (ns : List MappedNode) {s : LinkNumbers}
    {done : List ℕ} (vs : List VswitchRow) (h : s.Counts t done)
    (hns : ∀ n ∈ ns, n.type = "vgige" → ∀ l ∈ n.links, atVswitch t.nodes (t.link l) = true) :
    (vswitchLoop t ns s vs).2.map (·.vlanid) = vs.map (·.vlanid) ++
      (ns.filter MappedNode.isVswitch).map (fun n => smallint n.vmid) ∧
    ∃ done', (vswitchLoop t ns s vs).1.Counts t done' ∧
      ∀ l, l ∈ done' ↔ l ∈ done ∨ ∃ n ∈ ns, n.type = "vgige" ∧ l ∈ n.links := by
  induction ns generalizing s done vs with
  | nil => exact ⟨by simp [vswitchLoop], done, h, by simp⟩
  | cons n ns ih =>
    have hns' := fun m hm => hns m (List.mem_cons_of_mem n hm)
    unfold vswitchLoop
    by_cases hv : n.type = "vgige"
    · obtain ⟨done₁, h₁, hmem₁⟩ := h.vswitchLinks (hns n List.mem_cons_self hv)
      simp only [hv, if_true]
      obtain ⟨hvs, done', h', hmem'⟩ := ih (vs ++ [⟨smallint n.vmid, 0,
        smallint ((n.links.foldl (LinkNumbers.vswitchLink t) s).linkid - 1)⟩]) h₁ hns'
      refine ⟨?_, done', h', fun l => ?_⟩
      · rw [hvs]
        simp [MappedNode.isVswitch, hv]
      · rw [hmem' l, hmem₁ l]
        simp only [List.exists_mem_cons_iff, hv, true_and, or_assoc]
    · simp only [hv, if_false]
      obtain ⟨hvs, done', h', hmem'⟩ := ih vs h hns'
      refine ⟨?_, done', h', fun l => ?_⟩
      · rw [hvs]
        simp [MappedNode.isVswitch, hv]
      · rw [hmem' l]
        simp only [List.exists_mem_cons_iff, hv, false_and, false_or]

/-- The rows of the last loop, and the numbers under which its links come. -/
theorem linkLoop_spec {t : MappedTopology} {nodes : List MappedNode} (ls done : List ℕ)
    (s : LinkNumbers) (rows : List LinkRow)
    (hnodes : ∀ l, atVswitch nodes (t.link l) = atVswitch t.nodes (t.link l))
    (hof : ∀ l ∈ ls, atVswitch t.nodes (t.link l) = true →
      l ∈ done ∧ s.linkidOf l = done.idxOf l + 1)
    (hnew : ∀ l ∈ ls, atVswitch t.nodes (t.link l) = false → l ∉ done) (hls : ls.Nodup)
    (hnodup : done.Nodup) (hlinkid : s.linkid = done.length + 1)
    (hconns : s.conns = (done.zipIdx 1).flatMap (fun p => t.rows p.1 p.2)) :
    ∃ order, order.Nodup ∧ (∀ l, l ∈ order ↔ l ∈ done ∨ l ∈ ls) ∧ done <+: order ∧
      (linkLoop t nodes ls s rows).1.conns = (order.zipIdx 1).flatMap (fun p => t.rows p.1 p.2) ∧
      (linkLoop t nodes ls s rows).2 =
        rows ++ ls.map (fun l => (t.link l).linkRow nodes (order.idxOf l + 1)) := by
  induction ls generalizing done s rows with
  | nil => exact ⟨done, hnodup, by simp, List.prefix_rfl, hconns, by simp [linkLoop]⟩
  | cons x ls ih =>
    have hls' := (List.nodup_cons.mp hls).2
    have hxls := (List.nodup_cons.mp hls).1
    unfold linkLoop
    rw [hnodes x]
    by_cases hx : atVswitch t.nodes (t.link x) = true
    · obtain ⟨hxd, hxid⟩ := hof x List.mem_cons_self hx
      simp only [hx, if_true]
      obtain ⟨order, h1, h2, h3, h4, h5⟩ := ih done s
        (rows ++ [(t.link x).linkRow nodes (s.linkidOf x)])
        (fun l hl => hof l (List.mem_cons_of_mem _ hl))
        (fun l hl => hnew l (List.mem_cons_of_mem _ hl)) hls' hnodup hlinkid hconns
      refine ⟨order, h1, fun l => ?_, h3, h4, ?_⟩
      · rw [h2 l, List.mem_cons]
        constructor
        · rintro (h | h)
          · exact Or.inl h
          · exact Or.inr (Or.inr h)
        · rintro (h | rfl | h)
          · exact Or.inl h
          · exact Or.inl hxd
          · exact Or.inr h
      · obtain ⟨rest, rfl⟩ := h3
        rw [h5, hxid, List.map_cons, List.idxOf_append_of_mem hxd, List.append_assoc,
          List.singleton_append]
    · rw [if_neg hx]
      have hx' : atVswitch t.nodes (t.link x) = false := by simpa using hx
      have hxd := hnew x List.mem_cons_self hx'
      have hrows : t.rows x s.linkid = (t.link x).rows s.linkid := by
        simp [MappedTopology.rows, hx']
      obtain ⟨order, h1, h2, h3, h4, h5⟩ := ih (done ++ [x])
        { s with linkid := s.linkid + 1, conns := s.conns ++ (t.link x).rows s.linkid }
        (rows ++ [(t.link x).linkRow nodes s.linkid])
        (by
          intro l hl hat
          obtain ⟨hld, hlid⟩ := hof l (List.mem_cons_of_mem _ hl) hat
          exact ⟨List.mem_append_left _ hld, by rw [List.idxOf_append_of_mem hld]; exact hlid⟩)
        (by
          intro l hl hat
          have hld := hnew l (List.mem_cons_of_mem _ hl) hat
          have hlx : l ≠ x := fun h => hxls (h ▸ hl)
          simp [hld, hlx])
        hls'
        (List.nodup_append.mpr ⟨hnodup, by simp, by
          intro a ha b hb
          obtain rfl := List.mem_singleton.mp hb
          exact fun hab => hxd (hab ▸ ha)⟩)
        (by simp [hlinkid])
        (by
          simp [hconns, List.zipIdx_append, Nat.add_comm 1, ← hlinkid, hrows])
      refine ⟨order, h1, fun l => ?_, ?_, h4, ?_⟩
      · rw [h2 l]
        simp only [List.mem_append, List.mem_cons, List.not_mem_nil, or_false]
        tauto
      · exact (List.prefix_append _ _).trans h3
      · obtain ⟨rest, rfl⟩ := h3
        rw [h5, List.map_cons, List.append_assoc done, List.idxOf_append_of_notMem hxd]
        simp [hlinkid]

namespace MappedTopology

variable {t : MappedTopology}

theorem out_type {a : ℕ} (ha : a < t.nodes.length) : (t.out a).type = (t.node a).type := by
  rw [t.out_eq ha]
  split_ifs <;> rfl

theorem out_links {a : ℕ} (ha : a < t.nodes.length) : (t.out a).links = (t.node a).links := by
  rw [t.out_eq ha]
  split_ifs <;> rfl

/-- The nodes of the request, by their positions. -/
theorem scheduled_eq_map (t : MappedTopology) :
    t.scheduled = (List.range t.nodes.length).map t.out := by
  apply List.ext_getElem
  · simp [length_scheduled]
  · intro i h₁ h₂
    simp [out, List.getElem?_eq_getElem h₁]

theorem atVswitch_scheduled (l : ℕ) :
    atVswitch t.scheduled (t.link l) = atVswitch t.nodes (t.link l) := by
  have htype : ∀ a, (t.scheduled.getD a default).type = (t.nodes.getD a default).type := by
    intro a
    by_cases ha : a < t.nodes.length
    · exact out_type ha
    · rw [List.getD_eq_default _ _ (by rw [length_scheduled]; omega),
        List.getD_eq_default _ _ (by omega)]
  simp only [atVswitch, htype]

/-- What `add_reservation` writes: the links have numbers from 1 on in the order `order`, the
connection rows come in that order, and there is one row in the link schedule for each link. -/
structure Written (t : MappedTopology) (order : List ℕ) : Prop where
  nodup : order.Nodup
  mem : ∀ l, l ∈ order ↔ l < t.links.length
  conns : (addReservation t).connschedule = (order.zipIdx 1).flatMap (fun p => t.rows p.1 p.2)
  links : (addReservation t).linkschedule = (List.range t.links.length).map
    (fun l => (t.link l).linkRow t.scheduled (order.idxOf l + 1))
  vswitches : (addReservation t).vswitchschedule.map (·.vlanid) =
    (t.scheduled.filter MappedNode.isVswitch).map (fun n => smallint n.vmid)

theorem Wf.written (h : t.Wf) : ∃ order, t.Written order := by
  have hat : ∀ n ∈ t.scheduled, n.type = "vgige" → ∀ l ∈ n.links,
      l < t.links.length ∧ atVswitch t.nodes (t.link l) = true := by
    intro n hn hv l hl
    rw [scheduled_eq_map, List.mem_map] at hn
    obtain ⟨a, ha, rfl⟩ := hn
    have hlt := List.mem_range.mp ha
    rw [out_type hlt] at hv
    rw [out_links hlt] at hl
    obtain ⟨hll, hend⟩ := (h.mem_links a hlt l).mp hl
    refine ⟨hll, ?_⟩
    simp only [atVswitch, decide_eq_true_eq]
    rcases hend with hend | hend
    · exact Or.inl (by rw [hend]; exact hv)
    · exact Or.inr (by rw [hend]; exact hv)
  have hempty : LinkNumbers.Counts t {} [] := ⟨by simp, rfl, by simp, rfl⟩
  obtain ⟨hvs, done, hdone, hmem⟩ := vswitchLoop_spec t.scheduled [] hempty
    (fun n hn hv l hl => (hat n hn hv l hl).2)
  have hat' : ∀ l ∈ done, l < t.links.length ∧ atVswitch t.nodes (t.link l) = true := by
    intro l hl
    obtain ⟨n, hn, hv, hln⟩ := ((hmem l).mp hl).resolve_left (by simp)
    exact hat n hn hv l hln
  have hall : ∀ l < t.links.length, atVswitch t.nodes (t.link l) = true → l ∈ done := by
    intro l hl hv
    rw [hmem l]
    right
    have hnode : ∀ a < t.nodes.length, (t.node a).type = "vgige" →
        ((t.link l).end1.node = a ∨ (t.link l).end2.node = a) →
        ∃ n ∈ t.scheduled, n.type = "vgige" ∧ l ∈ n.links := by
      intro a ha hva hend
      refine ⟨t.out a, ?_, by rw [out_type ha, hva], ?_⟩
      · rw [scheduled_eq_map]
        exact List.mem_map_of_mem (List.mem_range.mpr ha)
      · rw [out_links ha]
        exact (h.mem_links a ha l).mpr ⟨hl, hend⟩
    simp only [atVswitch, decide_eq_true_eq] at hv
    rcases hv with hv | hv
    · exact hnode _ (h.ends l hl).1 hv (Or.inl rfl)
    · exact hnode _ (h.ends l hl).2 hv (Or.inr rfl)
  obtain ⟨order, hnodup, hmemo, -, hconns, hlinks⟩ := linkLoop_spec
    (List.range t.links.length) done (vswitchLoop t t.scheduled {} []).1 [] atVswitch_scheduled
    (fun l hl hv => by
      have hld := hall l (List.mem_range.mp hl) hv
      exact ⟨hld, by rw [hdone.of l, if_pos hld]⟩)
    (fun l _ hv hld => by
      rw [(hat' l hld).2] at hv
      cases hv)
    List.nodup_range hdone.nodup hdone.linkid hdone.conns
  refine ⟨order, hnodup, fun l => ?_, hconns, hlinks, hvs⟩
  rw [hmemo l, List.mem_range]
  exact ⟨fun h => h.elim (fun h => (hat' l h).1) id, Or.inr⟩

end MappedTopology

end OnlDaemons.Onldb

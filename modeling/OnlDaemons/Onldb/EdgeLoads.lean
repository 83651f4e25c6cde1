import OnlDaemons.Onldb.CheapestPath
import OnlDaemons.Onldb.GetTopology

/-!
# The loads of the links of a request

`find_embedding` makes a copy of the request. `calculate_edge_loads` then sends the capacity of each port of a node
that is not a vgige through the vgige nodes behind it, and each link that is passed gets it as a load in the direction
in which it is passed.

## Main definitions

- `Topology.copyRequest`
- `Topology.calculateEdgeLoads`
- `Topology.flows` — the links that are passed, one after the other

The recursion takes a number of rounds and has no result when it is too small.
-/

namespace OnlDaemons.Onldb

/-- The loads are in Mbps and the cost in Gbps. -/
def calculateEdgeCost (rload lload : ℤ) : ℤ :=
  let rtraffic := (min rload MAX_INTERCLUSTER_CAPACITY).tdiv 1000
  let ltraffic := (min lload MAX_INTERCLUSTER_CAPACITY).tdiv 1000
  (2 * (rtraffic + ltraffic) + (rtraffic - ltraffic).natAbs).tdiv 2

/-! ### The copy of the request -/

/-- `root_only` is not copied. -/
def NodeResource.copied (cpnode : NodeResource) : NodeResource :=
  { cpnode with parent := none, nodeChildren := [], links := [], rootOnly := false }

namespace Topology

def addCopyNode (t : Topology) (cpnode : NodeResource) (parentLabel : ℕ) : Except String Topology :=
  if t.nodes.any (fun n => n.label = cpnode.label) then
    .error ("label " ++ toString cpnode.label ++ " already used")
  else if parentLabel = 0 then .ok { t with nodes := t.nodes ++ [cpnode.copied] }
  else match t.findNode parentLabel with
    | none => .error ("parent_label " ++ toString parentLabel ++ " not found")
    | some p =>
      .ok { t with
        nodes := t.nodes.modify p (fun n =>
          { n with isParent := true, nodeChildren := n.nodeChildren ++ [t.nodes.length] }) ++
          [{ cpnode.copied with parent := some p }] }

/-- The loads are copied with the link, the connections are not. -/
def addCopyLink (t : Topology) (lnk : LinkResource) (label1 label2 : ℕ) : Except String Topology :=
  if t.links.any (fun l => l.label = lnk.label) then .error ("label " ++ toString lnk.label ++ " already used")
  else match t.findNode label1, t.findNode label2 with
    | none, _ => .error ("node1_label " ++ toString label1 ++ " not found")
    | some _, none => .error ("node2_label " ++ toString label2 ++ " not found")
    | some a, some b =>
      .ok {
        nodes := pushLink (pushLink t.nodes a t.links.length) b t.links.length
        links := t.links ++ [{ lnk with
          conns := [], end1 := { lnk.end1 with node := a }, end2 := { lnk.end2 with node := b } }] }

/-- The copy at the beginning of `find_embedding`. The topologies that it gets have been made by `add_node` and
`add_link`, whose labels are unique, and it does not look at the results. -/
def copyRequest (t : Topology) : Except String Topology := do
  let req ← t.nodes.foldlM (fun req n =>
    addCopyNode req n (n.parent.elim 0 fun p => (t.node p).label)) {}
  t.links.foldlM (fun req l => addCopyLink req l (t.node l.end1.node).label (t.node l.end2.node).label) req

/-! ### The loads -/

def isVgige (t : Topology) (a : ℕ) : Bool := (t.node a).type = "vgige"

/-- The link ends at the node, and the node is a vgige or has the end at the port. -/
def leavesBy (t : Topology) (a port : ℕ) (e : LinkEnd) : Bool := e.node = a ∧ (e.port = port ∨ t.isVgige a)

def addRload (t : Topology) (l load : ℕ) : Topology :=
  { t with links := t.links.modify l fun x => { x with rload := (x.rload + load) % 2 ^ 32 } }

def addLload (t : Topology) (l load : ℕ) : Topology :=
  { t with links := t.links.modify l fun x => { x with lload := (x.lload + load) % 2 ^ 32 } }

/-- With the list `links_seen`. -/
def addEdgeLoad : ℕ → ℕ → ℕ → ℕ → Topology × List ℕ → Option (Topology × List ℕ)
  | 0, _, _, _, _ => none
  | rounds + 1, a, port, load, s =>
    (s.1.node a).links.foldlM (fun s l =>
      let x := s.1.link l
      if l ∈ s.2 then some s
      else if s.1.leavesBy a port x.end1 then
        addEdgeLoad rounds x.end2.node x.end2.port load (s.1.addRload l load, s.2 ++ [l])
      else if s.1.leavesBy a port x.end2 then
        addEdgeLoad rounds x.end1.node x.end1.port load (s.1.addLload l load, s.2 ++ [l])
      else some s) s

/-- The end of a link that is sought at the node. -/
def endAt (t : Topology) (a l : ℕ) : Bool := (t.link l).end1.node = a

/-- The links of one node. The list `links_seen` is cleared before them. -/
def addNodeLoads (rounds a : ℕ) (t : Topology) : Option Topology :=
  if t.isVgige a ∨ (t.node a).isParent then some t
  else
    ((t.node a).links.foldlM (fun s l =>
      let e := (s.1.link l).side (s.1.endAt a l)
      addEdgeLoad rounds e.node e.port e.capacity s) (t, [])).map Prod.fst

/-- The request with its loads, and the costs of the links. -/
def calculateEdgeLoads (rounds : ℕ) (t : Topology) : Option (Topology × List ℤ) :=
  ((List.range t.nodes.length).foldlM (fun t a => addNodeLoads rounds a t) t).map fun t =>
    (t, t.links.map fun x => calculateEdgeCost (toSigned x.rload) (toSigned x.lload))

/-! ### The links that are passed -/

/-- A link is passed, and arrived at one of its ends, with a load. -/
structure Flow where
  link : ℕ
  side : Bool
  load : ℕ

def carry (t : Topology) (fs : List Flow) : Topology :=
  fs.foldl (fun t f => if f.side then t.addLload f.link f.load else t.addRload f.link f.load) t

/-- A link is passed if it leaves the node and has not been passed before. -/
def floodStep (t : Topology) (a port load : ℕ) (next : ℕ → ℕ → List Flow → Option (List Flow)) (fs : List Flow)
    (l : ℕ) : Option (List Flow) :=
  if l ∈ fs.map (·.link) then some fs
  else if t.leavesBy a port (t.link l).end1 then
    next (t.link l).end2.node (t.link l).end2.port (fs ++ [⟨l, false, load⟩])
  else if t.leavesBy a port (t.link l).end2 then
    next (t.link l).end1.node (t.link l).end1.port (fs ++ [⟨l, true, load⟩])
  else some fs

/-- What `add_edge_load` passes, after what has been passed before. -/
def flood (t : Topology) (load : ℕ) : ℕ → ℕ → ℕ → List Flow → Option (List Flow)
  | 0, _, _, _ => none
  | rounds + 1, a, port, fs => (t.node a).links.foldlM (t.floodStep a port load (flood t load rounds)) fs

def nodeFlows (t : Topology) (rounds a : ℕ) : Option (List Flow) :=
  if t.isVgige a ∨ (t.node a).isParent then some []
  else
    (t.node a).links.foldlM (fun fs l =>
      let e := (t.link l).side (t.endAt a l)
      t.flood e.capacity rounds e.node e.port fs) []

def flows (t : Topology) (rounds : ℕ) : Option (List Flow) :=
  ((List.range t.nodes.length).mapM (t.nodeFlows rounds)).map List.flatten

/-- The nodes and the ends of the links are the same. -/
structure SameShape (t t' : Topology) : Prop where
  nodes : t'.nodes = t.nodes
  end1 : ∀ l, (t'.link l).end1 = (t.link l).end1
  end2 : ∀ l, (t'.link l).end2 = (t.link l).end2

variable {t t' : Topology} {l a port load rounds : ℕ}

theorem SameShape.rfl : SameShape t t := ⟨.refl _, fun _ => .refl _, fun _ => .refl _⟩

theorem SameShape.trans {t'' : Topology} (h : SameShape t t') (h' : SameShape t' t'') : SameShape t t'' :=
  ⟨h'.nodes.trans h.nodes, fun l => (h'.end1 l).trans (h.end1 l), fun l => (h'.end2 l).trans (h.end2 l)⟩

theorem SameShape.node (h : SameShape t t') (a : ℕ) : t'.node a = t.node a := by
  rw [Topology.node, h.nodes, Topology.node]

theorem SameShape.isVgige (h : SameShape t t') (a : ℕ) : t'.isVgige a = t.isVgige a := by
  rw [Topology.isVgige, h.node, Topology.isVgige]

theorem SameShape.leavesBy (h : SameShape t t') (a port : ℕ) : t'.leavesBy a port = t.leavesBy a port := by
  funext e
  rw [Topology.leavesBy, h.isVgige, Topology.leavesBy]

theorem SameShape.endAt (h : SameShape t t') (a l : ℕ) : t'.endAt a l = t.endAt a l := by
  rw [Topology.endAt, h.end1, Topology.endAt]

theorem SameShape.side (h : SameShape t t') (l : ℕ) (b : Bool) : (t'.link l).side b = (t.link l).side b := by
  cases b
  · exact h.end2 l
  · exact h.end1 l

theorem link_modify (m : ℕ) (f : LinkResource → LinkResource) :
    ({ t with links := t.links.modify m f } : Topology).link l =
      if m = l ∧ l < t.links.length then f (t.link l) else t.link l := by
  simp only [link, List.getD_eq_getElem?_getD, List.getElem?_modify]
  by_cases hl : l < t.links.length
  · rw [List.getElem?_eq_getElem hl]
    by_cases hm : m = l <;> simp [hm, hl]
  · rw [List.getElem?_eq_none (not_lt.mp hl)]
    simp [hl]

theorem sameShape_addRload : SameShape t (t.addRload l load) := by
  refine ⟨rfl, fun m => ?_, fun m => ?_⟩
  all_goals
    rw [addRload, link_modify]
    split <;> rfl

theorem sameShape_addLload : SameShape t (t.addLload l load) := by
  refine ⟨rfl, fun m => ?_, fun m => ?_⟩
  all_goals
    rw [addLload, link_modify]
    split <;> rfl

theorem carry_concat (fs : List Flow) (f : Flow) : t.carry (fs ++ [f]) =
    if f.side then (t.carry fs).addLload f.link f.load else (t.carry fs).addRload f.link f.load := by
  rw [carry, List.foldl_append]
  rfl

theorem carry_append (fs gs : List Flow) : t.carry (fs ++ gs) = (t.carry fs).carry gs := List.foldl_append

theorem sameShape_carry (fs : List Flow) : SameShape t (t.carry fs) := by
  induction fs using List.reverseRecOn with
  | nil => exact .rfl
  | append_singleton fs f ih =>
    rw [carry_concat]
    split
    · exact ih.trans sameShape_addLload
    · exact ih.trans sameShape_addRload

theorem SameShape.floodStep (h : SameShape t t') (a port load : ℕ) : t'.floodStep a port load = t.floodStep a port load := by
  funext next fs l
  simp only [Topology.floodStep, h.leavesBy, h.end1, h.end2]

theorem SameShape.flood (h : SameShape t t') (load rounds : ℕ) : t'.flood load rounds = t.flood load rounds := by
  induction rounds with
  | zero => rfl
  | succ rounds ih =>
    funext a port fs
    rw [Topology.flood, ih, h.node, h.floodStep, Topology.flood]

theorem SameShape.nodeFlows (h : SameShape t t') (rounds a : ℕ) : t'.nodeFlows rounds a = t.nodeFlows rounds a := by
  simp only [Topology.nodeFlows, h.isVgige, h.node, h.side, h.endAt, h.flood]

theorem SameShape.flows (h : SameShape t t') (rounds : ℕ) : t'.flows rounds = t.flows rounds := by
  rw [Topology.flows, h.nodes, funext (h.nodeFlows rounds), Topology.flows]

/-! ### The loads come from what is passed -/

theorem foldlM_map {m : Type → Type} [Monad m] [LawfulMonad m] {α β γ : Type} {j : β → γ → m β} {k : α → γ → m α}
    {f : α → β} (h : ∀ s c, j (f s) c = f <$> k s c) (cs : List γ) (s : α) :
    cs.foldlM j (f s) = f <$> cs.foldlM k s := by
  induction cs generalizing s with
  | nil => exact (map_pure f s).symm
  | cons c cs ih =>
    rw [List.foldlM_cons, List.foldlM_cons, h, bind_map_left, map_bind]
    exact bind_congr fun s' => ih s'

/-- The topology and the links seen, after what has been passed. -/
def passed (t : Topology) (fs : List Flow) : Topology × List ℕ := (t.carry fs, fs.map (·.link))

theorem passed_rload (fs : List Flow) (l load : ℕ) :
    ((t.carry fs).addRload l load, fs.map (·.link) ++ [l]) = t.passed (fs ++ [⟨l, false, load⟩]) := by
  rw [passed, carry_concat, List.map_append]
  rfl

theorem passed_lload (fs : List Flow) (l load : ℕ) :
    ((t.carry fs).addLload l load, fs.map (·.link) ++ [l]) = t.passed (fs ++ [⟨l, true, load⟩]) := by
  rw [passed, carry_concat, List.map_append]
  rfl

theorem addEdgeLoad_passed (rounds a port load : ℕ) (fs : List Flow) :
    addEdgeLoad rounds a port load (t.passed fs) = (t.flood load rounds a port fs).map t.passed := by
  induction rounds generalizing a port fs with
  | zero => rfl
  | succ rounds ih =>
    rw [addEdgeLoad, flood, show (t.passed fs).1.node a = t.node a from (sameShape_carry fs).node a]
    refine foldlM_map (fun fs l => ?_) _ fs
    have hs := sameShape_carry (t := t) fs
    simp only [passed, floodStep, hs.end1, hs.end2, hs.leavesBy]
    by_cases hseen : l ∈ fs.map (·.link)
    · rw [if_pos hseen, if_pos hseen]
      rfl
    · rw [if_neg hseen, if_neg hseen]
      split
      · rw [passed_rload]
        exact ih _ _ _
      · split
        · rw [passed_lload]
          exact ih _ _ _
        · rfl

theorem addNodeLoads_eq (rounds a : ℕ) : addNodeLoads rounds a t = (t.nodeFlows rounds a).map t.carry := by
  unfold addNodeLoads nodeFlows
  split
  · rfl
  · rw [show (t, ([] : List ℕ)) = t.passed [] from rfl, foldlM_map (f := t.passed)
      (k := fun fs l => t.flood ((t.link l).side (t.endAt a l)).capacity rounds
        ((t.link l).side (t.endAt a l)).node ((t.link l).side (t.endAt a l)).port fs)]
    · exact Option.map_map _ _ _
    · intro fs l
      have hs := sameShape_carry (t := t) fs
      simp only [passed, hs.side, hs.endAt]
      exact addEdgeLoad_passed _ _ _ _ _

/-- The nodes add what is passed from each of them. -/
theorem foldlM_addNodeLoads (rounds : ℕ) (as : List ℕ) : as.foldlM (fun t a => addNodeLoads rounds a t) t =
    (as.mapM (t.nodeFlows rounds)).map fun fss => t.carry fss.flatten := by
  induction as generalizing t with
  | nil => rfl
  | cons a as ih =>
    rw [List.foldlM_cons, List.mapM_cons, addNodeLoads_eq]
    cases t.nodeFlows rounds a with
    | none => rfl
    | some fs =>
      have hs := sameShape_carry (t := t) fs
      simp only [Option.map_some, Option.bind_eq_bind, Option.bind_some, ih, funext (hs.nodeFlows rounds)]
      cases as.mapM (t.nodeFlows rounds) with
      | none => rfl
      | some fss =>
        show some ((t.carry fs).carry fss.flatten) = some (t.carry (fs :: fss).flatten)
        rw [List.flatten_cons, carry_append]

theorem calculateEdgeLoads_eq (rounds : ℕ) (t : Topology) : t.calculateEdgeLoads rounds =
    (t.flows rounds).map fun fs =>
      (t.carry fs, (t.carry fs).links.map fun x => calculateEdgeCost (toSigned x.rload) (toSigned x.lload)) := by
  rw [calculateEdgeLoads, foldlM_addNodeLoads, flows, Option.map_map, Option.map_map]
  rfl

/-! ### The rounds suffice -/

/-- No link is passed twice. -/
structure FlowsOk (t : Topology) (fs : List Flow) : Prop where
  nodup : (fs.map (·.link)).Nodup
  lt : ∀ f ∈ fs, f.link < t.links.length

theorem flowsOk_nil : t.FlowsOk [] := ⟨List.nodup_nil, nofun⟩

theorem FlowsOk.length_le {fs : List Flow} (h : t.FlowsOk fs) : fs.length ≤ t.links.length := by
  have hsub : fs.map (·.link) ⊆ List.range t.links.length := by
    intro l hl
    obtain ⟨f, hf, rfl⟩ := List.mem_map.mp hl
    exact List.mem_range.mpr (h.lt f hf)
  have hle := (List.subperm_of_subset h.nodup hsub).length_le
  rwa [List.length_map, List.length_range] at hle

theorem FlowsOk.concat {fs : List Flow} (h : t.FlowsOk fs) (hl : l < t.links.length) (hnew : l ∉ fs.map (·.link))
    (side : Bool) (load : ℕ) : t.FlowsOk (fs ++ [⟨l, side, load⟩]) := by
  refine ⟨?_, fun f hf => ?_⟩
  · rw [List.map_append, List.nodup_append]
    refine ⟨h.nodup, List.nodup_singleton _, fun m hm k hk => ?_⟩
    rw [List.map_singleton, List.mem_singleton] at hk
    subst hk
    exact fun heq => hnew (heq ▸ hm)
  · obtain hf | hf := List.mem_append.mp hf
    · exact h.lt f hf
    · rw [List.mem_singleton.mp hf]
      exact hl

theorem foldlM_rule {α γ : Type} {P : α → Prop} {step : α → γ → Option α} {cs : List γ} {s : α}
    (hstep : ∀ s, P s → ∀ c ∈ cs, ∃ s', step s c = some s' ∧ P s') (hs : P s) :
    ∃ s', cs.foldlM step s = some s' ∧ P s' := by
  induction cs generalizing s with
  | nil => exact ⟨s, rfl, hs⟩
  | cons c cs ih =>
    obtain ⟨s', hs', hp⟩ := hstep s hs c List.mem_cons_self
    obtain ⟨s'', hs'', hp'⟩ := ih (fun s h c hc => hstep s h c (List.mem_cons_of_mem _ hc)) hp
    refine ⟨s'', ?_, hp'⟩
    rw [List.foldlM_cons, hs']
    exact hs''

/-- More is passed, and no link twice. -/
def Grown (t : Topology) (fs gs : List Flow) : Prop := fs <+: gs ∧ t.FlowsOk gs

theorem Grown.trans {fs gs hs : List Flow} (h : t.Grown fs gs) (h' : t.Grown gs hs) : t.Grown fs hs :=
  ⟨h.1.trans h'.1, h'.2⟩

/-- As many rounds as there are links that have not been passed. -/
theorem exists_flood (hlinks : ∀ a, ∀ l ∈ (t.node a).links, l < t.links.length) {fs : List Flow} (hok : t.FlowsOk fs)
    (hr : t.links.length < rounds + fs.length) (a port load : ℕ) :
    ∃ gs, t.flood load rounds a port fs = some gs ∧ t.Grown fs gs := by
  induction rounds generalizing a port fs with
  | zero =>
    have hle := hok.length_le
    omega
  | succ rounds ih =>
    rw [flood]
    refine foldlM_rule (P := t.Grown fs) (fun s hs l hl => ?_) ⟨List.prefix_rfl, hok⟩
    have hle := hs.1.length_le
    unfold floodStep
    by_cases hseen : l ∈ s.map (·.link)
    · rw [if_pos hseen]
      exact ⟨s, rfl, hs⟩
    · rw [if_neg hseen]
      have hnext : ∀ (side : Bool) (b port : ℕ),
          ∃ s', t.flood load rounds b port (s ++ [⟨l, side, load⟩]) = some s' ∧ t.Grown fs s' := by
        intro side b port
        have hok' := hs.2.concat (hlinks a l hl) hseen side load
        obtain ⟨gs, hgs, hgrown⟩ := ih hok' (by rw [List.length_append, List.length_singleton]; omega) b port
        exact ⟨gs, hgs, hs.1.trans ((List.prefix_append _ _).trans hgrown.1), hgrown.2⟩
      split
      · exact hnext _ _ _
      · split
        · exact hnext _ _ _
        · exact ⟨s, rfl, hs⟩

theorem exists_nodeFlows (hlinks : ∀ a, ∀ l ∈ (t.node a).links, l < t.links.length)
    (hr : t.links.length < rounds) (a : ℕ) : ∃ fs, t.nodeFlows rounds a = some fs ∧ t.FlowsOk fs := by
  unfold nodeFlows
  split
  · exact ⟨[], rfl, flowsOk_nil⟩
  · refine foldlM_rule (fun s hs l hl => ?_) flowsOk_nil
    obtain ⟨gs, hgs, hgrown⟩ := exists_flood hlinks hs (Nat.lt_add_right _ hr) _ _ _
    exact ⟨gs, hgs, hgrown.2⟩

theorem exists_flows (hlinks : ∀ a, ∀ l ∈ (t.node a).links, l < t.links.length) (hr : t.links.length < rounds) :
    ∃ fs, t.flows rounds = some fs := by
  have hall : ∀ as : List ℕ, ∃ fss, as.mapM (t.nodeFlows rounds) = some fss := by
    intro as
    induction as with
    | nil => exact ⟨[], rfl⟩
    | cons a as ih =>
      obtain ⟨fs, hfs, -⟩ := exists_nodeFlows hlinks hr a
      obtain ⟨fss, hfss⟩ := ih
      exact ⟨fs :: fss, by rw [List.mapM_cons, hfs, hfss]; rfl⟩
  obtain ⟨fss, hfss⟩ := hall (List.range t.nodes.length)
  exact ⟨fss.flatten, by rw [flows, hfss, Option.map_some]⟩

/-! ### The loads of a link -/

/-- The load of a link towards one of its ends. -/
def loadTo (t : Topology) (l : ℕ) (side : Bool) : ℕ := if side then (t.link l).lload else (t.link l).rload

/-- What is passed on a link towards one of its ends. -/
def passedTo (fs : List Flow) (l : ℕ) (side : Bool) : ℕ :=
  ((fs.filter fun f => f.link = l ∧ f.side = side).map (·.load)).sum

theorem passedTo_append (fs gs : List Flow) (l : ℕ) (side : Bool) :
    passedTo (fs ++ gs) l side = passedTo fs l side + passedTo gs l side := by
  rw [passedTo, List.filter_append, List.map_append, List.sum_append]
  rfl

theorem passedTo_singleton (f : Flow) (l : ℕ) (side : Bool) :
    passedTo [f] l side = if f.link = l ∧ f.side = side then f.load else 0 := by
  by_cases h : f.link = l ∧ f.side = side <;> simp [passedTo, h]

/-- The loads are stored in 32 bits. -/
def Unsigned (t : Topology) : Prop := ∀ l < t.links.length, ∀ side, t.loadTo l side < 2 ^ 32

instance (t : Topology) : Decidable t.Unsigned :=
  inferInstanceAs (Decidable (∀ l < t.links.length, ∀ side, t.loadTo l side < 2 ^ 32))

theorem loadTo_addRload (m : ℕ) (side : Bool) (hl : l < t.links.length) : (t.addRload m load).loadTo l side =
    if m = l ∧ side = false then (t.loadTo l side + load) % 2 ^ 32 else t.loadTo l side := by
  rw [loadTo, addRload, link_modify, loadTo]
  by_cases hm : m = l <;> cases side <;> simp [hm, hl]

theorem loadTo_addLload (m : ℕ) (side : Bool) (hl : l < t.links.length) : (t.addLload m load).loadTo l side =
    if m = l ∧ side = true then (t.loadTo l side + load) % 2 ^ 32 else t.loadTo l side := by
  rw [loadTo, addLload, link_modify, loadTo]
  by_cases hm : m = l <;> cases side <;> simp [hm, hl]

theorem length_carry (fs : List Flow) : (t.carry fs).links.length = t.links.length := by
  induction fs using List.reverseRecOn with
  | nil => rfl
  | append_singleton fs f ih =>
    rw [carry_concat, ← ih]
    split <;> exact List.length_modify ..

theorem loadTo_carry (h : t.Unsigned) (hl : l < t.links.length) (side : Bool) (fs : List Flow) :
    (t.carry fs).loadTo l side = (t.loadTo l side + passedTo fs l side) % 2 ^ 32 := by
  induction fs using List.reverseRecOn with
  | nil => exact (Nat.mod_eq_of_lt (h l hl side)).symm
  | append_singleton fs f ih =>
    have hlen : l < (t.carry fs).links.length := by rwa [length_carry]
    have hone : (t.carry (fs ++ [f])).loadTo l side =
        if f.link = l ∧ f.side = side then ((t.carry fs).loadTo l side + f.load) % 2 ^ 32
        else (t.carry fs).loadTo l side := by
      rw [carry_concat]
      cases hf : f.side
      · rw [if_neg Bool.false_ne_true, loadTo_addRload _ _ hlen]
        simp only [eq_comm]
      · rw [if_pos rfl, loadTo_addLload _ _ hlen]
        simp only [eq_comm]
    rw [hone, passedTo_append, passedTo_singleton, ih]
    split
    · rw [Nat.mod_add_mod, Nat.add_assoc]
    · rfl

end Topology

end OnlDaemons.Onldb

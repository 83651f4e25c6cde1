import OnlDaemons.Lib.EndGraph
import OnlDaemons.Onldb.EdgeLoads
import Mathlib.Algebra.BigOperators.Group.Finset.Basic
import Mathlib.Algebra.Order.BigOperators.Group.Finset
import Mathlib.Data.Finset.Prod
import Mathlib.Data.Fintype.Basic
import Mathlib.Tactic.IntervalCases

/-!
# What the loads of a link are

A leaf port is the end of a link at a node that is not a vgige. The load of a link should be the capacity of all leaf
ports on one side of it. `calculate_edge_loads` passes over the ports of a cluster, and the ports of a node that are
in the subnet of an earlier port of the node.

## Main definitions

- `Topology.endGraph` — the ends of the links, with the walks through vgige nodes
- `Topology.demand`, `Topology.missed`

## Main results

- `Topology.calculateEdgeLoads_iff` — when the loads are the demand
-/

namespace OnlDaemons.Onldb.Topology

open OnlDaemons.Lib

variable (t : Topology)

/-- The node at an end of a link. -/
def sideNode (e : ℕ × Bool) : ℕ := ((t.link e.1).side e.2).node

def sidePort (e : ℕ × Bool) : ℕ := ((t.link e.1).side e.2).port

def sideCapacity (e : ℕ × Bool) : ℕ := ((t.link e.1).side e.2).capacity

/-- Walks go on at vgige nodes only. -/
def endGraph : EndGraph (ℕ × Bool) (Option ℕ) where
  flip e := (e.1, !e.2)
  flip_flip e := by rw [Bool.not_not]
  flip_ne e h := by
    have hside := congrArg Prod.snd h
    exact Bool.not_ne_self e.2 hside
  node e := if e.1 < t.links.length then some (t.sideNode e) else none
  inner v := ∃ a, v = some a ∧ t.isVgige a = true

/-- The ends of links at nodes other than vgige nodes. -/
def leafEnds : Finset (ℕ × Bool) :=
  (Finset.range t.links.length ×ˢ Finset.univ).filter fun e => t.isVgige (t.sideNode e) = false

/-- Each port of a node that is not a vgige has one link. -/
def OnePort : Prop := ∀ x ∈ t.leafEnds, ∀ y ∈ t.leafEnds,
  t.sideNode x = t.sideNode y → t.sidePort x = t.sidePort y → x = y

/-- An end of a link comes before another one at the same node. -/
def Before (w x : ℕ × Bool) : Prop :=
  (t.node (t.sideNode x)).links.idxOf w.1 < (t.node (t.sideNode x)).links.idxOf x.1 ∨
    w.1 = x.1 ∧ w.2 = true ∧ x.2 = false

/-- A port of a cluster, or a port in the subnet of an earlier port of the same node. -/
def PassedOver (x : ℕ × Bool) : Prop :=
  (t.node (t.sideNode x)).isParent = true ∨
    ∃ w ∈ t.leafEnds, t.sideNode w = t.sideNode x ∧ t.Before w x ∧ t.endGraph.Reach (t.endGraph.flip w) x

open Classical in
/-- The capacities of the leaf ports on the side of an end of a link. -/
noncomputable def demand (e : ℕ × Bool) : ℕ := ∑ x ∈ t.leafEnds with t.endGraph.Reach e x, t.sideCapacity x

open Classical in
/-- The capacities of those that are passed over. -/
noncomputable def missed (e : ℕ × Bool) : ℕ :=
  ∑ x ∈ t.leafEnds with t.endGraph.Reach e x ∧ t.PassedOver x, t.sideCapacity x

variable {t} {l a b port load rounds : ℕ} {e x y w : ℕ × Bool} {fs gs : List Flow}

theorem flip_fst (e : ℕ × Bool) : (t.endGraph.flip e).1 = e.1 := rfl

theorem node_of_lt (h : e.1 < t.links.length) : t.endGraph.node e = some (t.sideNode e) := if_pos h

theorem mem_leafEnds : x ∈ t.leafEnds ↔ x.1 < t.links.length ∧ t.isVgige (t.sideNode x) = false := by
  simp only [leafEnds, Finset.mem_filter, Finset.mem_product, Finset.mem_range, Finset.mem_univ, and_true]

theorem not_inner_of_mem (h : x ∈ t.leafEnds) : ¬t.endGraph.inner (t.endGraph.node x) := by
  obtain ⟨hlt, hleaf⟩ := mem_leafEnds.mp h
  rw [node_of_lt hlt]
  rintro ⟨a, ha, hv⟩
  cases ha
  rw [hleaf] at hv
  cases hv

/-- From an end at a vgige to the far end of another link there. -/
theorem next_iff (he : e.1 < t.links.length) : t.endGraph.Next e x ↔
    t.isVgige (t.sideNode e) = true ∧ x.1 < t.links.length ∧ t.sideNode (t.endGraph.flip x) = t.sideNode e ∧
      t.endGraph.flip x ≠ e := by
  unfold EndGraph.Next
  rw [node_of_lt he]
  constructor
  · rintro ⟨⟨a, ha, hv⟩, hnode, hne⟩
    cases ha
    have hx : x.1 < t.links.length := by
      by_contra hx
      rw [show t.endGraph.node (t.endGraph.flip x) = none from if_neg hx] at hnode
      cases hnode
    rw [node_of_lt (e := t.endGraph.flip x) hx] at hnode
    exact ⟨hv, hx, Option.some.inj hnode, hne⟩
  · rintro ⟨hv, hx, hnode, hne⟩
    refine ⟨⟨_, rfl, hv⟩, ?_, hne⟩
    rw [node_of_lt (e := t.endGraph.flip x) hx, hnode]

/-! ### What one call passes -/

def Flow.arrival (f : Flow) : ℕ × Bool := (f.link, f.side)

/-- What is passed leads to ends in `A`, and the walks go on over links that have been passed. -/
def Spread (t : Topology) (A : ℕ × Bool → Prop) (load : ℕ) (fs gs : List Flow) : Prop :=
  ∃ hs, gs = fs ++ hs ∧ ∀ f ∈ hs, f.load = load ∧ A f.arrival ∧ f.link < t.links.length ∧
    ∀ x, t.endGraph.Next f.arrival x → x.1 ∈ gs.map (·.link)

theorem spread_refl (A : ℕ × Bool → Prop) : t.Spread A load fs fs := ⟨[], (List.append_nil fs).symm, nofun⟩

theorem Spread.subset {A : ℕ × Bool → Prop} (h : t.Spread A load fs gs) (hl : l ∈ fs.map (·.link)) :
    l ∈ gs.map (·.link) := by
  obtain ⟨hs, rfl, -⟩ := h
  rw [List.map_append]
  exact List.mem_append_left _ hl

theorem Spread.trans {A : ℕ × Bool → Prop} {hs : List Flow} (h : t.Spread A load fs gs)
    (h' : t.Spread A load gs hs) : t.Spread A load fs hs := by
  have hsub := fun l => h'.subset (l := l)
  obtain ⟨ks, rfl, hks⟩ := h
  obtain ⟨ms, rfl, hms⟩ := h'
  refine ⟨ks ++ ms, List.append_assoc _ _ _, fun f hf => ?_⟩
  obtain hf | hf := List.mem_append.mp hf
  · obtain ⟨hload, hA, hlt, hnext⟩ := hks f hf
    exact ⟨hload, hA, hlt, fun x hx => hsub _ (hnext x hx)⟩
  · exact hms f hf

/-- The end of the link by which it leaves a node. -/
theorem leavesBy_iff (a port : ℕ) (e : ℕ × Bool) : t.leavesBy a port ((t.link e.1).side e.2) = true ↔
    t.sideNode e = a ∧ (t.sidePort e = port ∨ t.isVgige a = true) := by
  rw [leavesBy, decide_eq_true_iff]
  rfl

theorem Wf.links_lt (hwf : t.Wf) (a : ℕ) : ∀ l ∈ (t.node a).links, l < t.links.length := by
  intro l hl
  by_cases ha : a < t.nodes.length
  · exact ((hwf.mem_links a ha l).mp hl).1
  · rw [node, List.getD_eq_default _ _ (not_lt.mp ha)] at hl
    cases hl

theorem Wf.inc (hl : e.1 < t.links.length) : t.Inc e.1 (t.sideNode e) := by
  refine ⟨hl, ?_⟩
  rw [sideNode]
  cases e.2
  · exact .inr rfl
  · exact .inl rfl

theorem Wf.mem_links_of_side (hwf : t.Wf) (hl : e.1 < t.links.length) (h : t.sideNode e = a) :
    e.1 ∈ (t.node a).links := by
  subst h
  have hinc := Wf.inc (t := t) hl
  exact (hwf.mem_links _ (hwf.ends _ _ hinc) _).mpr hinc

/-- One link of a node: it has been passed, or it is passed, or it does not leave the node. -/
theorem floodStep_cases (port load : ℕ) (next : ℕ → ℕ → List Flow → Option (List Flow)) (l : ℕ) (fs : List Flow) :
    l ∈ fs.map (·.link) ∧ t.floodStep a port load next fs l = some fs ∨
      l ∉ fs.map (·.link) ∧ (∃ c, t.leavesBy a port ((t.link l).side c) = true ∧ t.floodStep a port load next fs l =
        next (t.sideNode (l, !c)) (t.sidePort (l, !c)) (fs ++ [⟨l, !c, load⟩])) ∨
      (∀ c, ¬t.leavesBy a port ((t.link l).side c) = true) ∧ t.floodStep a port load next fs l = some fs := by
  unfold floodStep
  by_cases hseen : l ∈ fs.map (·.link)
  · exact .inl ⟨hseen, if_pos hseen⟩
  · rw [if_neg hseen]
    by_cases h1 : t.leavesBy a port (t.link l).end1 = true
    · exact .inr (.inl ⟨hseen, true, h1, if_pos h1⟩)
    · rw [if_neg h1]
      by_cases h2 : t.leavesBy a port (t.link l).end2 = true
      · exact .inr (.inl ⟨hseen, false, h2, if_pos h2⟩)
      · refine .inr (.inr ⟨fun c => ?_, if_neg h2⟩)
        cases c
        · exact h2
        · exact h1

/-- A link leaves a node by an end to the next end of a walk, or by the end at which the walk has arrived. -/
theorem next_of_leavesBy (hone : t.OnePort) (he : e.1 < t.links.length) (hl : l < t.links.length) (hne : l ≠ e.1)
    {c : Bool} (h : t.leavesBy (t.sideNode e) (t.sidePort e) ((t.link l).side c) = true) :
    t.endGraph.Next e (l, !c) := by
  obtain ⟨hnode, hport⟩ := (leavesBy_iff (e := (l, c)) _ _).mp h
  have hv : t.isVgige (t.sideNode e) = true := by
    by_contra hv
    rw [Bool.not_eq_true] at hv
    have hx : (l, c) ∈ t.leafEnds := mem_leafEnds.mpr ⟨hl, by rw [hnode]; exact hv⟩
    have hp : t.sidePort (l, c) = t.sidePort e := hport.resolve_right (by rw [hv]; exact Bool.false_ne_true)
    exact hne (congrArg Prod.fst (hone _ hx e (mem_leafEnds.mpr ⟨he, hv⟩) hnode hp))
  have hflip : t.endGraph.flip (l, !c) = (l, c) := t.endGraph.flip_flip (l, c)
  refine (next_iff he).mpr ⟨hv, hl, by rw [hflip]; exact hnode, ?_⟩
  rw [hflip]
  exact fun heq => hne (congrArg Prod.fst heq)

theorem leavesBy_of_next (he : e.1 < t.links.length) (h : t.endGraph.Next e x) :
    t.leavesBy (t.sideNode e) (t.sidePort e) ((t.link x.1).side (!x.2)) = true := by
  obtain ⟨hv, -, hnode, -⟩ := (next_iff he).mp h
  exact (leavesBy_iff (e := (x.1, !x.2)) _ _).mpr ⟨hnode, .inr hv⟩

/-- A link that is passed, with all that is passed after it. -/
theorem spread_concat {A : ℕ × Bool → Prop} {c : Bool} (hAl : A (l, c)) (hl : l < t.links.length)
    (h : t.Spread A load (fs ++ [⟨l, c, load⟩]) gs ∧ ∀ m < t.links.length, ∀ d,
      t.leavesBy (t.sideNode (l, c)) (t.sidePort (l, c)) ((t.link m).side d) = true → m ∈ gs.map (·.link)) :
    t.Spread A load fs gs ∧ l ∈ gs.map (·.link) := by
  obtain ⟨hspread, hdone⟩ := h
  have hmem : l ∈ gs.map (·.link) := by
    refine hspread.subset ?_
    rw [List.map_append]
    exact List.mem_append_right _ List.mem_cons_self
  refine ⟨?_, hmem⟩
  obtain ⟨hs, hgs, hflows⟩ := hspread
  refine ⟨⟨l, c, load⟩ :: hs, by rw [hgs, List.append_assoc]; rfl, fun f hf => ?_⟩
  obtain rfl | hf := List.mem_cons.mp hf
  · refine ⟨rfl, hAl, hl, fun x hx => ?_⟩
    have hx' : t.endGraph.Next (l, c) x := hx
    exact hdone x.1 ((next_iff (e := (l, c)) hl).mp hx').2.1 _ (leavesBy_of_next (e := (l, c)) hl hx')
  · exact hflows f hf

/-- The rule for a call: if the links that leave the node lead to `A`, and walks do not lead out of `A`, then all that
is passed leads to `A`. -/
theorem flood_rule (hwf : t.Wf) (hone : t.OnePort) {A : ℕ × Bool → Prop}
    (hA : ∀ e x, A e → t.endGraph.Next e x → A x)
    (hstart : ∀ l < t.links.length, l ∉ fs.map (·.link) → ∀ c,
      t.leavesBy a port ((t.link l).side c) = true → A (l, !c))
    (h : t.flood load rounds a port fs = some gs) : t.Spread A load fs gs ∧
      ∀ l < t.links.length, ∀ c, t.leavesBy a port ((t.link l).side c) = true → l ∈ gs.map (·.link) := by
  induction rounds generalizing a port fs gs with
  | zero => cases h
  | succ rounds ih =>
    rw [flood] at h
    -- the links that have been looked at have been passed, or do not leave the node
    suffices hloop : ∀ ls : List ℕ, (∀ l ∈ ls, l < t.links.length) → ∀ s, t.Spread A load fs s →
        ls.foldlM (t.floodStep a port load (t.flood load rounds)) s = some gs →
        t.Spread A load fs gs ∧ (∀ l ∈ s.map (·.link), l ∈ gs.map (·.link)) ∧
          ∀ l ∈ ls, ∀ c, t.leavesBy a port ((t.link l).side c) = true → l ∈ gs.map (·.link) by
      obtain ⟨hspread, -, hdone⟩ := hloop _ (hwf.links_lt a) fs (spread_refl A) h
      refine ⟨hspread, fun l hl c hc => hdone l ?_ c hc⟩
      exact hwf.mem_links_of_side (e := (l, c)) hl ((leavesBy_iff (e := (l, c)) a port).mp hc).1
    intro ls
    induction ls with
    | nil =>
      intro _ s hs hfold
      cases hfold
      exact ⟨hs, fun l hl => hl, (by intros; contradiction)⟩
    | cons l ls ihls =>
      intro hlt s hs hfold
      rw [List.foldlM_cons] at hfold
      have hl : l < t.links.length := hlt l List.mem_cons_self
      have hrest := ihls fun m hm => hlt m (List.mem_cons_of_mem _ hm)
      obtain ⟨hseen, hstep⟩ | ⟨hnew, c, hc, hstep⟩ | ⟨hno, hstep⟩ :=
        floodStep_cases (t := t) (a := a) port load (t.flood load rounds) l s
      · rw [hstep] at hfold
        obtain ⟨hspread, hsub, hdone⟩ := hrest s hs hfold
        refine ⟨hspread, hsub, fun m hm => ?_⟩
        obtain rfl | hm := List.mem_cons.mp hm
        · exact fun _ _ => hsub m hseen
        · exact hdone m hm
      · rw [hstep] at hfold
        cases hgs : t.flood load rounds (t.sideNode (l, !c)) (t.sidePort (l, !c)) (s ++ [⟨l, !c, load⟩]) with
        | none =>
          rw [hgs] at hfold
          cases hfold
        | some s' =>
          rw [hgs] at hfold
          have hAl : A (l, !c) := hstart l hl (fun hm => hnew (hs.subset hm)) c hc
          have hone' := spread_concat hAl hl (ih ?_ hgs)
          · obtain ⟨hspread, hsub, hdone⟩ := hrest s' (hs.trans hone'.1) hfold
            refine ⟨hspread, fun m hm => hsub m (hone'.1.subset hm), fun m hm => ?_⟩
            obtain rfl | hm := List.mem_cons.mp hm
            · exact fun _ _ => hsub m hone'.2
            · exact hdone m hm
          · intro m hm hmnew d hd
            refine hA _ _ hAl (next_of_leavesBy hone (e := (l, !c)) hl hm ?_ hd)
            rintro rfl
            rw [List.map_append] at hmnew
            exact hmnew (List.mem_append_right _ List.mem_cons_self)
      · rw [hstep] at hfold
        obtain ⟨hspread, hsub, hdone⟩ := hrest s hs hfold
        refine ⟨hspread, hsub, fun m hm => ?_⟩
        obtain rfl | hm := List.mem_cons.mp hm
        · exact fun d hd => absurd hd (hno d)
        · exact hdone m hm

/-! ### What one node passes -/

/-- The link leaves a leaf port by the end at the port. -/
theorem eq_of_leavesBy (hone : t.OnePort) (hx : x ∈ t.leafEnds) (hl : l < t.links.length) {c : Bool}
    (h : t.leavesBy (t.sideNode x) (t.sidePort x) ((t.link l).side c) = true) : (l, c) = x := by
  obtain ⟨hlt, hleaf⟩ := mem_leafEnds.mp hx
  obtain ⟨hnode, hport⟩ := (leavesBy_iff (e := (l, c)) _ _).mp h
  refine hone _ (mem_leafEnds.mpr ⟨hl, by rw [hnode]; exact hleaf⟩) x hx hnode (hport.resolve_right ?_)
  rw [hleaf]
  exact Bool.false_ne_true

/-- The end of a link of a node at which the node calls. -/
theorem sideNode_endAt (hwf : t.Wf) (ha : a < t.nodes.length) (hl : l ∈ (t.node a).links) :
    t.sideNode (l, t.endAt a l) = a := by
  have hinc := ((hwf.mem_links a ha l).mp hl).2
  unfold sideNode endAt
  by_cases h1 : (t.link l).end1.node = a
  · rw [decide_eq_true h1]
    exact h1
  · rw [decide_eq_false h1]
    exact hinc.resolve_left h1

theorem endAt_of_true (h : t.sideNode (l, true) = a) : t.endAt a l = true := decide_eq_true h

/-- The other end of a link with both ends at the node. -/
theorem flip_eq_of_ne (hw : t.sideNode w = a) (hne : ¬w.2 = t.endAt a w.1) :
    t.endGraph.flip w = (w.1, t.endAt a w.1) := by
  obtain ⟨l, c⟩ := w
  cases c
  · refine Prod.ext rfl ?_
    exact ((Bool.not_eq_false _).mp (Ne.symm hne)).symm
  · exact absurd (endAt_of_true hw).symm hne

/-- What a node has passed after some of its links. -/
structure NodeFlows (t : Topology) (a : ℕ) (ls : List ℕ) (fs : List Flow) : Prop where
  ok : t.FlowsOk fs
  sound : ∀ f ∈ fs, ∃ x ∈ t.leafEnds, t.sideNode x = a ∧ x.1 ∈ ls ∧ x.2 = t.endAt a x.1 ∧ ¬t.PassedOver x ∧
    t.endGraph.Reach (t.endGraph.flip x) f.arrival ∧ f.load = t.sideCapacity x
  closed : ∀ l ∈ ls, ∀ e, t.endGraph.Reach (t.endGraph.flip (l, t.endAt a l)) e → e.1 ∈ fs.map (·.link)

/-- A walk from a port leads over links that another port of its subnet has passed. -/
theorem NodeFlows.around {ls : List ℕ} (h : t.NodeFlows a ls fs) (hw : w ∈ t.leafEnds) (hwls : w.1 ∈ ls)
    (hside : w.2 = t.endAt a w.1) (hx : t.endGraph.Reach (t.endGraph.flip w) x)
    (he : t.endGraph.Reach (t.endGraph.flip x) e) : e.1 ∈ fs.map (·.link) := by
  have hclosed := h.closed w.1 hwls
  rw [← hside] at hclosed
  obtain hr | hr | rfl := EndGraph.reach_around hx he (not_inner_of_mem hw)
  · exact hclosed e hr
  · exact hclosed (t.endGraph.flip e) hr
  · exact hclosed (t.endGraph.flip e) (.refl _)

/-- The two directions of a link. -/
theorem arrival_cases {f : Flow} (h : f.link = e.1) : f.arrival = e ∨ f.arrival = t.endGraph.flip e := by
  by_cases hs : f.side = e.2
  · exact .inl (Prod.ext h hs)
  · refine .inr (Prod.ext h ?_)
    show f.side = !e.2
    revert hs
    cases f.side <;> cases e.2 <;> simp

/-- Of two ports of a node from which a link has been passed, the first leads to the second. -/
theorem reach_of_arrival (hx : x ∈ t.leafEnds) (hw : w ∈ t.leafEnds) (hne : w ≠ x) {f : Flow} (hf : f.link = e.1)
    (hwf : t.endGraph.Reach (t.endGraph.flip w) f.arrival) (hxe : t.endGraph.Reach (t.endGraph.flip x) e) :
    t.endGraph.Reach (t.endGraph.flip w) x := by
  obtain harr | harr := arrival_cases (t := t) hf
  · rw [harr] at hwf
    exact EndGraph.reach_of_common hwf hxe hne (not_inner_of_mem hw) (not_inner_of_mem hx)
  · rw [harr] at hwf
    refine EndGraph.reach_of_opposite hwf ?_
    rwa [t.endGraph.flip_flip]

/-- A port with a link that has been passed calls for nothing. -/
theorem NodeFlows.seen {ls : List ℕ} (h : t.NodeFlows a ls fs) (hwf : t.Wf) (hone : t.OnePort)
    (hx : (l, t.endAt a l) ∈ t.leafEnds) (hseen : l ∈ fs.map (·.link))
    (hg : t.flood load rounds (t.sideNode (l, t.endAt a l)) (t.sidePort (l, t.endAt a l)) fs = some gs) :
    t.NodeFlows a (ls ++ [l]) gs := by
  obtain ⟨⟨hs, hgs, hflows⟩, -⟩ := flood_rule (A := fun _ => False) hwf hone (fun _ _ h _ => h)
    (fun m hm hnew c hc => by
      have hml : m = l := congrArg Prod.fst (eq_of_leavesBy hone hx hm hc)
      rw [hml] at hnew
      exact hnew hseen) hg
  have hnil : hs = [] := List.eq_nil_iff_forall_not_mem.mpr fun f hf => (hflows f hf).2.1
  rw [hnil, List.append_nil] at hgs
  rw [hgs]
  refine ⟨h.ok, fun f hf => ?_, fun m hm e he => ?_⟩
  · obtain ⟨x, hx, hnode, hls, hrest⟩ := h.sound f hf
    exact ⟨x, hx, hnode, List.mem_append_left _ hls, hrest⟩
  · obtain hm | hm := List.mem_append.mp hm
    · exact h.closed m hm e he
    · rw [List.mem_singleton.mp hm] at he
      obtain ⟨f, hf, hfl⟩ := List.mem_map.mp hseen
      obtain ⟨w, hw, -, hwls, hwside, -, hreach, -⟩ := h.sound f hf
      by_cases hwx : w = (l, t.endAt a l)
      · rw [hwx] at hwls
        exact h.closed l hwls e he
      · have hto := reach_of_arrival hx hw hwx (e := t.endGraph.flip (l, t.endAt a l)) hfl hreach (.refl _)
        exact h.around hw hwls hwside hto he

/-- A link of a port that has not been passed: all that is behind it is passed. -/
theorem NodeFlows.fresh {ls : List ℕ} (h : t.NodeFlows a ls fs) (hwf : t.Wf) (hone : t.OnePort)
    (hac : t.endGraph.Acyclic) (ha : a < t.nodes.length) (hpar : (t.node a).isParent = false)
    (hl : l ∈ (t.node a).links) (hx : (l, t.endAt a l) ∈ t.leafEnds)
    (hpos : ∀ m, (t.node a).links.idxOf m < (t.node a).links.idxOf l → m ∈ ls)
    (hnew : l ∉ fs.map (·.link)) (hok : t.FlowsOk gs)
    (hg : t.flood (t.sideCapacity (l, t.endAt a l)) rounds (t.sideNode (l, t.endAt a l))
      (t.sidePort (l, t.endAt a l)) fs = some gs) : t.NodeFlows a (ls ++ [l]) gs := by
  have hnode := sideNode_endAt hwf ha hl
  generalize hxl : (l, t.endAt a l) = x at *
  have hl1 : x.1 = l := by rw [← hxl]
  -- no walk from another port of the node leads to this one
  have hapart : ∀ w ∈ t.leafEnds, t.sideNode w = a → w.1 ∈ ls → w.2 = t.endAt a w.1 →
      ¬t.endGraph.Reach (t.endGraph.flip w) x := by
    intro w _ _ hwls hwside hr
    have hclosed := h.closed w.1 hwls x
    rw [← hwside, hl1] at hclosed
    exact hnew (hclosed hr)
  have hpassed : ¬t.PassedOver x := by
    rintro (hp | ⟨w, hw, hwnode, hbefore, hr⟩)
    · rw [hnode, hpar] at hp
      cases hp
    · rw [hnode] at hwnode
      unfold Before at hbefore
      rw [hnode, hl1] at hbefore
      obtain hidx | ⟨hw1, hw2, hx2⟩ := hbefore
      · have hwls := hpos w.1 hidx
        by_cases hside : w.2 = t.endAt a w.1
        · exact hapart w hw hwnode hwls hside hr
        · -- the link has both ends at the node, and has been passed from the other one
          have hflip := flip_eq_of_ne hwnode hside
          rw [hflip] at hr
          have hleaf : (w.1, t.endAt a w.1) ∈ t.leafEnds := by
            refine mem_leafEnds.mpr ⟨(mem_leafEnds.mp hw).1, ?_⟩
            rw [sideNode_endAt hwf ha (hwf.mem_links_of_side (mem_leafEnds.mp hw).1 hwnode), ← hwnode]
            exact (mem_leafEnds.mp hw).2
          have hxw := hr.eq_of_not_inner (not_inner_of_mem hleaf)
          have hwl : w.1 = l := by rw [← hl1, hxw]
          have hin := h.closed w.1 hwls _ (.refl _)
          rw [flip_fst, hwl] at hin
          exact hnew hin
      · have hside : w = (l, true) := Prod.ext hw1 hw2
        rw [hside] at hwnode
        rw [← hxl, endAt_of_true hwnode] at hx2
        cases hx2
  obtain ⟨⟨hs, rfl, hflows⟩, hdone⟩ := flood_rule (A := t.endGraph.Reach (t.endGraph.flip x)) hwf hone
    (fun e y he hy => he.trans hy.reach)
    (fun m hm hmnew c hc => by
      have hmx := eq_of_leavesBy hone hx hm hc
      rw [show (m, !c) = t.endGraph.flip x by rw [← hmx]; rfl]
      exact .refl _) hg
  -- each end that is reached has been arrived at, in the direction of the walk
  have hall : ∀ e, t.endGraph.Reach (t.endGraph.flip x) e → ∃ f ∈ hs, f.arrival = e := by
    intro e he
    induction he with
    | refl =>
      have hpassed := hdone x.1 (mem_leafEnds.mp hx).1 x.2
        ((leavesBy_iff (e := x) _ _).mpr ⟨rfl, .inl rfl⟩)
      rw [List.map_append, hl1] at hpassed
      obtain ⟨f, hf, hfl⟩ := List.mem_map.mp ((List.mem_append.mp hpassed).resolve_left hnew)
      obtain harr | harr := arrival_cases (t := t) (e := t.endGraph.flip x) (hfl.trans hl1.symm)
      · exact ⟨f, hf, harr⟩
      · have hreach := (hflows f hf).2.1
        rw [harr] at hreach
        exact absurd hreach (hac.not_reach_flip _)
    | @tail y z hy hyz ih =>
      obtain ⟨f, hf, rfl⟩ := ih
      have hz : t.endGraph.Reach (t.endGraph.flip x) z := EndGraph.Reach.trans hy hyz.reach
      have hpassed := (hflows f hf).2.2.2 z hyz
      rw [List.map_append] at hpassed
      obtain hin | hin := List.mem_append.mp hpassed
      · obtain ⟨f', hf', hfl⟩ := List.mem_map.mp hin
        obtain ⟨w, hw, hwnode, hwls, hwside, -, hreach, -⟩ := h.sound f' hf'
        by_cases hwx : w = x
        · have hin := h.closed w.1 hwls _ (.refl _)
          rw [flip_fst, hwx, hl1] at hin
          exact absurd hin hnew
        · exact absurd (reach_of_arrival hx hw hwx hfl hreach hz) (hapart w hw hwnode hwls hwside)
      · obtain ⟨f', hf', hfl⟩ := List.mem_map.mp hin
        obtain harr | harr := arrival_cases (t := t) hfl
        · exact ⟨f', hf', harr⟩
        · have hreach := (hflows f' hf').2.1
          rw [harr] at hreach
          exact absurd hreach (hac.not_reach_both hz)
  refine ⟨hok, fun f hf => ?_, fun m hm e he => ?_⟩
  · obtain hf | hf := List.mem_append.mp hf
    · obtain ⟨y, hy, hynode, hyls, hrest⟩ := h.sound f hf
      exact ⟨y, hy, hynode, List.mem_append_left _ hyls, hrest⟩
    · obtain ⟨hload, hreach, -⟩ := hflows f hf
      refine ⟨x, hx, hnode, ?_, ?_, hpassed, hreach, hload⟩
      · rw [hl1]
        exact List.mem_append_right _ List.mem_cons_self
      · rw [← hxl]
  · obtain hm | hm := List.mem_append.mp hm
    · rw [List.map_append]
      exact List.mem_append_left _ (h.closed m hm e he)
    · rw [List.mem_singleton.mp hm, hxl] at he
      obtain ⟨f, hf, rfl⟩ := hall e he
      exact List.mem_map_of_mem (List.mem_append_right _ hf)

theorem nodeFlows_spec (hwf : t.Wf) (hone : t.OnePort) (hac : t.endGraph.Acyclic) (hr : t.links.length < rounds)
    (ha : a < t.nodes.length) (hleaf : t.isVgige a = false) (hpar : (t.node a).isParent = false)
    (h : t.nodeFlows rounds a = some fs) : t.NodeFlows a (t.node a).links fs := by
  rw [nodeFlows, if_neg (by rw [hleaf, hpar]; simp)] at h
  suffices hloop : ∀ ls rest : List ℕ, (t.node a).links = ls ++ rest → ∀ s, t.NodeFlows a ls s →
      rest.foldlM (fun fs l => t.flood ((t.link l).side (t.endAt a l)).capacity rounds
        ((t.link l).side (t.endAt a l)).node ((t.link l).side (t.endAt a l)).port fs) s = some fs →
      t.NodeFlows a (t.node a).links fs from
    hloop [] _ rfl [] ⟨flowsOk_nil, (by intros; contradiction), (by intros; contradiction)⟩ h
  intro ls rest
  induction rest generalizing ls with
  | nil =>
    intro hls s hs hfold
    cases hfold
    rw [List.append_nil] at hls
    rwa [hls]
  | cons l rest ih =>
    intro hls s hs hfold
    have hl : l ∈ (t.node a).links := by
      rw [hls]
      exact List.mem_append_right _ List.mem_cons_self
    have hx : (l, t.endAt a l) ∈ t.leafEnds :=
      mem_leafEnds.mpr ⟨hwf.links_lt a l hl, by rw [sideNode_endAt hwf ha hl]; exact hleaf⟩
    have hpos : ∀ m, (t.node a).links.idxOf m < (t.node a).links.idxOf l → m ∈ ls := by
      intro m hm
      by_contra hnot
      have hle : (t.node a).links.idxOf l ≤ ls.length := by
        rw [hls, List.idxOf_append]
        split
        · next hmem => exact (List.idxOf_lt_length_iff.mpr hmem).le
        · rw [List.idxOf_cons_self]
          exact Nat.le_of_eq (Nat.zero_add _)
      rw [hls, List.idxOf_append_of_notMem hnot, ← hls] at hm
      omega
    obtain ⟨gs, hgs, hgrown⟩ := exists_flood (hwf.links_lt) hs.ok (Nat.lt_add_right _ hr)
      (t.sideNode (l, t.endAt a l)) (t.sidePort (l, t.endAt a l)) (t.sideCapacity (l, t.endAt a l))
    rw [List.foldlM_cons, show t.flood ((t.link l).side (t.endAt a l)).capacity rounds
      ((t.link l).side (t.endAt a l)).node ((t.link l).side (t.endAt a l)).port s = some gs from hgs] at hfold
    refine ih (ls ++ [l]) (by rw [hls, List.append_assoc]; rfl) gs ?_ hfold
    by_cases hseen : l ∈ s.map (·.link)
    · exact hs.seen hwf hone hx hseen hgs
    · exact hs.fresh hwf hone hac ha hpar hl hx hpos hseen hgrown.2 hgs

/-! ### The sums -/

theorem before_or (hw : w.1 ∈ (t.node a).links) (hxa : t.sideNode x = a)
    (hwa : t.sideNode w = a) (hne : w ≠ x) : t.Before w x ∨ t.Before x w := by
  unfold Before
  rw [hxa, hwa]
  obtain hlt | heq | hgt := Nat.lt_trichotomy ((t.node a).links.idxOf w.1) ((t.node a).links.idxOf x.1)
  · exact .inl (.inl hlt)
  · have hlink : w.1 = x.1 := (List.idxOf_inj hw).mp heq
    have hside : w.2 ≠ x.2 := fun h => hne (Prod.ext hlink h)
    cases hw2 : w.2
    · cases hx2 : x.2
      · rw [hw2, hx2] at hside
        exact absurd rfl hside
      · exact .inr (.inr ⟨hlink.symm, rfl, rfl⟩)
    · cases hx2 : x.2
      · exact .inl (.inr ⟨hlink, rfl, rfl⟩)
      · rw [hw2, hx2] at hside
        exact absurd rfl hside
  · exact .inr (.inl hgt)

/-- Two ports of a node that are not passed over are in different subnets. -/
theorem not_reach_of_not_passedOver (hwf : t.Wf) (hx : x ∈ t.leafEnds) (hw : w ∈ t.leafEnds)
    (hnode : t.sideNode w = t.sideNode x) (hxp : ¬t.PassedOver x) (hwp : ¬t.PassedOver w) (hne : w ≠ x) :
    ¬t.endGraph.Reach (t.endGraph.flip w) x := by
  intro hr
  have hwl := hwf.mem_links_of_side (mem_leafEnds.mp hw).1 hnode
  obtain hb | hb := before_or hwl rfl hnode hne
  · exact hxp (.inr ⟨w, hw, hnode, hb, hr⟩)
  · refine hwp (.inr ⟨x, hx, hnode.symm, hb, ?_⟩)
    have hback := hr.flip
    rwa [t.endGraph.flip_flip] at hback

theorem passedTo_of_mem (hok : (fs.map (·.link)).Nodup) {f : Flow} (hf : f ∈ fs) :
    passedTo fs f.link f.side = f.load := by
  induction fs with
  | nil => cases hf
  | cons g fs ih =>
    rw [List.map_cons, List.nodup_cons] at hok
    rw [show g :: fs = [g] ++ fs from rfl, passedTo_append, passedTo_singleton]
    obtain rfl | hf := List.mem_cons.mp hf
    · rw [if_pos ⟨rfl, rfl⟩, passedTo, List.filter_eq_nil_iff.mpr]
      · rfl
      · intro g hg hmatch
        rw [decide_eq_true_iff] at hmatch
        exact hok.1 (hmatch.1 ▸ List.mem_map_of_mem hg)
    · rw [ih hok.2 hf, if_neg, Nat.zero_add]
      rintro ⟨hlink, -⟩
      exact hok.1 (hlink ▸ List.mem_map_of_mem hf)

theorem passedTo_eq_zero (h : ∀ f ∈ fs, f.arrival ≠ e) : passedTo fs e.1 e.2 = 0 := by
  rw [passedTo, List.filter_eq_nil_iff.mpr]
  · rfl
  · intro f hf hmatch
    rw [decide_eq_true_iff] at hmatch
    exact h f hf (Prod.ext hmatch.1 hmatch.2)

variable (t) in
open Classical in
/-- The leaf ports that a call sends through an end of a link. -/
noncomputable def calling (e : ℕ × Bool) : Finset (ℕ × Bool) :=
  {x ∈ t.leafEnds | t.endGraph.Reach (t.endGraph.flip x) e ∧ ¬t.PassedOver x}

theorem mem_calling : x ∈ t.calling e ↔
    x ∈ t.leafEnds ∧ t.endGraph.Reach (t.endGraph.flip x) e ∧ ¬t.PassedOver x := by
  classical
  exact Finset.mem_filter

theorem endAt_of_not_passedOver (hwf : t.Wf) (hx : x ∈ t.leafEnds) (hp : ¬t.PassedOver x) :
    x.2 = t.endAt (t.sideNode x) x.1 := by
  by_contra hne
  -- the link has both ends at the node, and is passed from the other one
  have hlt := (mem_leafEnds.mp hx).1
  have hflip := flip_eq_of_ne rfl hne
  have hnode : t.sideNode (t.endGraph.flip x) = t.sideNode x := by
    rw [hflip]
    exact sideNode_endAt hwf (hwf.ends _ _ (Wf.inc hlt)) (hwf.mem_links_of_side hlt rfl)
  have hfalse : x.2 = false := by
    by_contra htrue
    rw [Bool.not_eq_false] at htrue
    have hat : t.endAt (t.sideNode x) x.1 = true := endAt_of_true (by rw [← htrue])
    exact hne (htrue.trans hat.symm)
  refine hp (.inr ⟨t.endGraph.flip x, mem_leafEnds.mpr ⟨hlt, ?_⟩, hnode, .inr ⟨rfl, ?_, hfalse⟩, ?_⟩)
  · rw [hnode]
    exact (mem_leafEnds.mp hx).2
  · exact congrArg (! ·) hfalse
  · rw [t.endGraph.flip_flip]
    exact .refl _

/-- What a node passes to an end is the capacity of the one port that leads there. -/
theorem passedTo_nodeFlows (hwf : t.Wf) (hone : t.OnePort) (hac : t.endGraph.Acyclic) (hr : t.links.length < rounds)
    (ha : a < t.nodes.length) (h : t.nodeFlows rounds a = some fs) (e : ℕ × Bool) :
    passedTo fs e.1 e.2 = ∑ x ∈ t.calling e with t.sideNode x = a, t.sideCapacity x := by
  by_cases hskip : t.isVgige a = true ∨ (t.node a).isParent = true
  · rw [nodeFlows, if_pos hskip] at h
    cases h
    rw [Finset.filter_false_of_mem, Finset.sum_empty]
    · rfl
    · rintro x hx rfl
      obtain ⟨hleaf, -, hp⟩ := mem_calling.mp hx
      obtain hv | hpar := hskip
      · rw [(mem_leafEnds.mp hleaf).2] at hv
        cases hv
      · exact hp (.inl hpar)
  · rw [not_or, Bool.not_eq_true, Bool.not_eq_true] at hskip
    have hspec := nodeFlows_spec hwf hone hac hr ha hskip.1 hskip.2 h
    by_cases hf : ∃ f ∈ fs, f.arrival = e
    · obtain ⟨f, hf, rfl⟩ := hf
      obtain ⟨x, hx, hnode, -, -, hp, hreach, hload⟩ := hspec.sound f hf
      have hpassed : passedTo fs f.arrival.1 f.arrival.2 = f.load := passedTo_of_mem hspec.ok.nodup hf
      rw [hpassed, hload, Finset.sum_eq_single_of_mem x
        (Finset.mem_filter.mpr ⟨mem_calling.mpr ⟨hx, hreach, hp⟩, hnode⟩)]
      intro y hy hne
      obtain ⟨hy, hynode⟩ := Finset.mem_filter.mp hy
      obtain ⟨hyleaf, hyreach, hyp⟩ := mem_calling.mp hy
      refine absurd ?_ (not_reach_of_not_passedOver hwf hyleaf hx (hnode.trans hynode.symm) hyp hp (Ne.symm hne))
      exact EndGraph.reach_of_common hreach hyreach (Ne.symm hne) (not_inner_of_mem hx) (not_inner_of_mem hyleaf)
    · rw [passedTo_eq_zero fun f hmem harr => hf ⟨f, hmem, harr⟩, Finset.filter_false_of_mem, Finset.sum_empty]
      intro y hy hynode
      obtain ⟨hyleaf, hyreach, hyp⟩ := mem_calling.mp hy
      have hside := endAt_of_not_passedOver hwf hyleaf hyp
      rw [hynode] at hside
      have hclosed := hspec.closed y.1 (hwf.mem_links_of_side (mem_leafEnds.mp hyleaf).1 hynode) e
      rw [← hside] at hclosed
      obtain ⟨f, hfm, hfl⟩ := List.mem_map.mp (hclosed hyreach)
      obtain harr | harr := arrival_cases (t := t) hfl
      · exact hf ⟨f, hfm, harr⟩
      · obtain ⟨x, hx, hnode, -, -, hp, hreach, -⟩ := hspec.sound f hfm
        rw [harr] at hreach
        by_cases hxy : x = y
        · rw [hxy] at hreach
          exact hac.not_reach_both hyreach hreach
        · refine not_reach_of_not_passedOver hwf hyleaf hx (hnode.trans hynode.symm) hyp hp hxy ?_
          refine EndGraph.reach_of_opposite hreach ?_
          rwa [t.endGraph.flip_flip]

theorem passedTo_mapM (hwf : t.Wf) (hone : t.OnePort) (hac : t.endGraph.Acyclic) (hr : t.links.length < rounds)
    (e : ℕ × Bool) {as : List ℕ} (has : ∀ a ∈ as, a < t.nodes.length) {fss : List (List Flow)}
    (h : as.mapM (t.nodeFlows rounds) = some fss) : passedTo fss.flatten e.1 e.2 =
      (as.map fun a => ∑ x ∈ t.calling e with t.sideNode x = a, t.sideCapacity x).sum := by
  induction as generalizing fss with
  | nil =>
    cases h
    rfl
  | cons a as ih =>
    rw [List.mapM_cons] at h
    cases hfs : t.nodeFlows rounds a with
    | none =>
      rw [hfs] at h
      cases h
    | some fs =>
      cases hrest : as.mapM (t.nodeFlows rounds) with
      | none =>
        rw [hfs, hrest] at h
        cases h
      | some fss' =>
        rw [hfs, hrest] at h
        cases h
        rw [List.flatten_cons, passedTo_append, List.map_cons, List.sum_cons,
          ih (fun b hb => has b (List.mem_cons_of_mem _ hb)) hrest,
          passedTo_nodeFlows hwf hone hac hr (has a List.mem_cons_self) hfs]

/-- All nodes together pass the capacities of the calling ports. -/
theorem passedTo_flows (hwf : t.Wf) (hone : t.OnePort) (hac : t.endGraph.Acyclic) (hr : t.links.length < rounds)
    (h : t.flows rounds = some fs) (e : ℕ × Bool) : passedTo fs e.1 e.2 = ∑ x ∈ t.calling e, t.sideCapacity x := by
  obtain ⟨fss, hfss, rfl⟩ := Option.map_eq_some_iff.mp h
  rw [passedTo_mapM hwf hone hac hr e (fun a ha => List.mem_range.mp ha) hfss]
  refine Eq.trans ?_ (Finset.sum_fiberwise_of_maps_to (t := Finset.range t.nodes.length) (g := t.sideNode) ?_ _)
  · rfl
  · intro x hx
    have hlt := (mem_leafEnds.mp (mem_calling.mp hx).1).1
    exact Finset.mem_range.mpr (hwf.ends _ _ (Wf.inc hlt))

/-- The ports on a side either call or are passed over. -/
theorem demand_eq_add (hwf : t.Wf) (hone : t.OnePort) (hac : t.endGraph.Acyclic) (hr : t.links.length < rounds)
    (h : t.flows rounds = some fs) (l : ℕ) (c : Bool) :
    t.demand (l, !c) = t.missed (l, !c) + passedTo fs l c := by
  classical
  have hcall : t.calling (l, c) = {x ∈ t.leafEnds | t.endGraph.Reach (l, !c) x ∧ ¬t.PassedOver x} := by
    ext x
    rw [mem_calling, Finset.mem_filter]
    have hiff : t.endGraph.Reach (t.endGraph.flip x) (l, c) ↔ t.endGraph.Reach (l, !c) x := by
      rw [← EndGraph.reach_flip (e := (l, !c))]
      rw [show t.endGraph.flip (l, !c) = (l, c) from t.endGraph.flip_flip (l, c)]
    rw [hiff]
  have hflow := passedTo_flows hwf hone hac hr h (l, c)
  rw [show passedTo fs l c = _ from hflow, hcall, demand, missed,
    ← Finset.sum_filter_add_sum_filter_not _ t.PassedOver]
  congr 1
  · apply Finset.sum_congr _ fun _ _ => rfl
    ext x
    simp only [Finset.mem_filter, and_assoc]
  · apply Finset.sum_congr _ fun _ _ => rfl
    ext x
    simp only [Finset.mem_filter, and_assoc]

/-- The load towards one end of a link. -/
theorem loadTo_carry_iff (h32 : t.Unsigned) (hl : l < t.links.length) (c : Bool)
    (hdemand : t.demand (l, !c) = t.missed (l, !c) + passedTo fs l c) :
    (t.carry fs).loadTo l c = t.demand (l, !c) ↔
      t.loadTo l c = t.missed (l, !c) ∧ t.demand (l, !c) < 2 ^ 32 := by
  have hlt := h32 l hl c
  rw [loadTo_carry h32 hl, hdemand]
  omega

/-- The loads are the demand if and only if each link carried before what is passed over, and the sums fit. -/
theorem calculateEdgeLoads_iff (hwf : t.Wf) (h32 : t.Unsigned) (hone : t.OnePort) (hac : t.endGraph.Acyclic)
    (hr : t.links.length < rounds) : ∃ after costs, t.calculateEdgeLoads rounds = some (after, costs) ∧
      ((∀ l < t.links.length,
          (after.link l).rload = t.demand (l, true) ∧ (after.link l).lload = t.demand (l, false)) ↔
        ∀ l < t.links.length, ∀ side, t.loadTo l (!side) = t.missed (l, side) ∧ t.demand (l, side) < 2 ^ 32) := by
  obtain ⟨fs, hfs⟩ := exists_flows (hwf.links_lt) hr
  refine ⟨t.carry fs, _, by rw [calculateEdgeLoads_eq, hfs, Option.map_some], ?_⟩
  refine forall_congr' fun l => imp_congr_right fun hl => ?_
  rw [Bool.forall_bool, and_comm]
  refine and_congr ?_ ?_
  · exact loadTo_carry_iff h32 hl true (demand_eq_add hwf hone hac hr hfs l true)
  · exact loadTo_carry_iff h32 hl false (demand_eq_add hwf hone hac hr hfs l false)

/-- No vgige is linked to a vgige. -/
theorem acyclic_of_star (h : ∀ l < t.links.length, ∀ c, t.isVgige (t.sideNode (l, !c)) = true →
    t.isVgige (t.sideNode (l, c)) = false) : t.endGraph.Acyclic := by
  refine EndGraph.acyclic_of_rank (fun e => if t.isVgige (t.sideNode e) = true then 1 else 0) fun e x hstep => ?_
  have he : e.1 < t.links.length := by
    by_contra he
    obtain ⟨⟨a, ha, -⟩, -⟩ := hstep
    rw [show t.endGraph.node e = none from if_neg he] at ha
    cases ha
  obtain ⟨hv, hx, hnode, -⟩ := (next_iff he).mp hstep
  have hleaf := h x.1 hx x.2 (by rw [show (x.1, !x.2) = t.endGraph.flip x from rfl, hnode]; exact hv)
  rw [if_pos hv, if_neg (by rw [hleaf]; exact Bool.false_ne_true)]
  exact Nat.zero_lt_one

/-! ### Two hosts on a subnet -/

def subnetPort (label a port b port' : ℕ) : LinkResource := ⟨label, 100, ⟨a, port, 0, 100⟩, ⟨b, port', 0, 100⟩, 0, 0, []⟩

def ownPorts : Topology where
  nodes := [{ type := "pc", label := 1, links := [0] }, { type := "pc", label := 2, links := [1] },
    { type := "vgige", label := 3, links := [0, 1] }]
  links := [subnetPort 1 0 0 2 0, subnetPort 2 1 0 2 1]

/-- The first host has two ports on the subnet. -/
def secondPort : Topology where
  nodes := [{ type := "pc", label := 1, links := [0, 2] }, { type := "pc", label := 2, links := [1] },
    { type := "vgige", label := 3, links := [0, 1, 2] }]
  links := [subnetPort 1 0 0 2 0, subnetPort 2 1 0 2 1, subnetPort 3 0 1 2 2]

theorem ownPorts_wf : ownPorts.Wf := by
  have h₁ := addNode_wf wf_empty (rfl : addNode {} "pc" 1 0 false 1 1 = .ok _)
  have h₂ := addNode_wf h₁ (rfl : addNode _ "pc" 2 0 false 1 1 = .ok _)
  have h₃ := addNode_wf h₂ (rfl : addNode _ "vgige" 3 0 false 1 1 = .ok _)
  have h₄ := addLink_wf h₃ (rfl : addLink _ 1 100 1 0 0 3 0 0 0 0 0 0 = .ok _)
  have h₅ := addLink_wf h₄ (rfl : addLink _ 2 100 2 0 0 3 1 0 0 0 0 0 = .ok _)
  refine h₅.congr rfl rfl ?_
  intro a ha
  change a < 3 at ha
  interval_cases a <;> exact ⟨rfl, rfl, rfl, rfl⟩

theorem secondPort_wf : secondPort.Wf := by
  have h₁ := addNode_wf wf_empty (rfl : addNode {} "pc" 1 0 false 1 1 = .ok _)
  have h₂ := addNode_wf h₁ (rfl : addNode _ "pc" 2 0 false 1 1 = .ok _)
  have h₃ := addNode_wf h₂ (rfl : addNode _ "vgige" 3 0 false 1 1 = .ok _)
  have h₄ := addLink_wf h₃ (rfl : addLink _ 1 100 1 0 0 3 0 0 0 0 0 0 = .ok _)
  have h₅ := addLink_wf h₄ (rfl : addLink _ 2 100 2 0 0 3 1 0 0 0 0 0 = .ok _)
  have h₆ := addLink_wf h₅ (rfl : addLink _ 3 100 1 1 0 3 2 0 0 0 0 0 = .ok _)
  refine h₆.congr rfl rfl ?_
  intro a ha
  change a < 3 at ha
  interval_cases a <;> exact ⟨rfl, rfl, rfl, rfl⟩

theorem calculateEdgeLoads_ownPorts : ownPorts.OnePort ∧ ownPorts.endGraph.Acyclic ∧
    ∃ after costs, ownPorts.calculateEdgeLoads 3 = some (after, costs) ∧
      ((∀ l < ownPorts.links.length,
          (after.link l).rload = ownPorts.demand (l, true) ∧ (after.link l).lload = ownPorts.demand (l, false)) ↔
        ∀ l < ownPorts.links.length, ∀ side,
          ownPorts.loadTo l (!side) = ownPorts.missed (l, side) ∧ ownPorts.demand (l, side) < 2 ^ 32) := by
  have hone : ownPorts.OnePort := by
    unfold OnePort
    decide
  have hac : ownPorts.endGraph.Acyclic := acyclic_of_star (by decide)
  exact ⟨hone, hac, calculateEdgeLoads_iff ownPorts_wf (by decide) hone hac (by decide)⟩

theorem passedOver_secondPort : secondPort.endGraph.Reach (0, false) (2, true) ∧ secondPort.PassedOver (2, true) := by
  have hreach : secondPort.endGraph.Reach (0, false) (2, true) :=
    ((next_iff (by decide)).mpr ⟨by decide, by decide, by decide, by decide⟩ : secondPort.endGraph.Next _ _).reach
  exact ⟨hreach, .inr ⟨(0, true), by decide, by decide, .inl (by decide), hreach⟩⟩

/-- The capacity of the second port is in no load. -/
theorem calculateEdgeLoads_secondPort : ¬∀ t : Topology, t.Wf → t.OnePort → t.endGraph.Acyclic →
    (∀ l < t.links.length, ∀ side, t.loadTo l side = 0) → ∀ rounds after costs,
      t.calculateEdgeLoads rounds = some (after, costs) → ∀ l < t.links.length,
        (after.link l).rload = t.demand (l, true) ∧ (after.link l).lload = t.demand (l, false) ∨
          (after.link l).rload = t.demand (l, false) ∧ (after.link l).lload = t.demand (l, true) := by
  intro h
  have hone : secondPort.OnePort := by
    unfold OnePort
    decide
  have hac : secondPort.endGraph.Acyclic := acyclic_of_star (by decide)
  have hdemand : secondPort.demand (0, false) = secondPort.missed (0, false) + 100 :=
    demand_eq_add secondPort_wf hone hac (by decide) (rfl : secondPort.flows 4 = some _) 0 true
  have hpassed : secondPort.missed (0, false) ≥ 100 := by
    classical
    obtain ⟨hreach, hover⟩ := passedOver_secondPort
    exact Finset.single_le_sum (f := secondPort.sideCapacity) (fun _ _ => Nat.zero_le _)
      (Finset.mem_filter.mpr ⟨(by decide : (2, true) ∈ secondPort.leafEnds), hreach, hover⟩)
  have hsum : secondPort.demand (0, false) ≥ 200 := by
    rw [hdemand]
    exact Nat.add_le_add_right hpassed 100
  obtain ⟨-, hl⟩ | ⟨hr, -⟩ := h secondPort secondPort_wf hone hac (by decide) 4 _ _ rfl 0 (by decide)
  · rw [← hl] at hsum
    exact absurd hsum (by decide)
  · rw [← hr] at hsum
    exact absurd hsum (by decide)

end OnlDaemons.Onldb.Topology

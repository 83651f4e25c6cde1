import Mathlib.Tactic.IntervalCases
import OnlDaemons.Onldb.FillInSearch

/-!
# When filling in is sound

`find_mapping` returns true for a user node that is marked, without a look at the reserved
node it was called with, and it gives a cluster the name of a reserved cluster without a look
at the type of the reserved cluster or at who else has it. What `fill_in_topology` finds is
right exactly when no such case did harm in the run.

## Main definitions

- `Sound` — the assignment is an embedding of the user's topology into the reserved one
- `Coherent` — the condition on the pairs of nodes the search brought together
-/

namespace OnlDaemons.Onldb

open Lib

/-- The reserved link joins the reserved nodes of the two ends of the user link at the ports of
the user link. -/
def Realizes (t res : Topology) (s : Search) (l m : ℕ) : Prop :=
  ∃ o : Bool,
    ((res.link m).side o).node = (s.nodes (t.link l).end1.node).res ∧
    ((res.link m).side o).port = (t.link l).end1.port ∧
    ((res.link m).side !o).node = (s.nodes (t.link l).end2.node).res ∧
    ((res.link m).side !o).port = (t.link l).end2.port

/-- Every user node has a reserved node of its own of the type it asks for, a child one in the
cluster of its parent, and every user link a reserved link of its own between them. -/
structure Sound (t res : Topology) (s : Search) : Prop where
  assigned : ∀ a < t.nodes.length, (s.nodes a).marked = true ∧
    (s.nodes a).res < res.nodes.length ∧ (s.nodes a).node = (res.node (s.nodes a).res).node
  type : ∀ a < t.nodes.length, (t.node a).type = (res.node (s.nodes a).res).reservedType
  inj : ∀ a < t.nodes.length, ∀ b < t.nodes.length, (s.nodes a).res = (s.nodes b).res → a = b
  child : ∀ a < t.nodes.length, ∀ p, (t.node a).parent = some p →
    (res.node (s.nodes a).res).parent = some (s.nodes p).res
  link : ∀ l < t.links.length, (s.links l).marked = true ∧
    (s.links l).res < res.links.length ∧ (s.links l).conns = (res.link (s.links l).res).conns ∧
    Realizes t res s l (s.links l).res
  link_inj : ∀ l < t.links.length, ∀ l' < t.links.length,
    (s.links l).res = (s.links l').res → l = l'

/-- The search called `find_mapping` for these two nodes, or compared them as the clusters of
two such nodes, and did not take it back. -/
def Search.Met (s : Search) (a r : ℕ) : Prop := ∃ e ∈ s.log, e.2.pair = (a, r)

/-- No user node was met with two reserved nodes and no cluster was met twice; clusters were met
with clusters of their type, and virtual machines with nodes reserved as such. -/
structure Coherent (t res : Topology) (s : Search) : Prop where
  one : ∀ a r r', s.Met a r → s.Met a r' → r = r'
  cluster : ∀ a b r, s.Met a r → s.Met b r →
    ((t.node a).isParent = true ∨ (res.node r).isParent = true) → a = b
  clusterType : ∀ p q, s.Met p q → (t.node p).isParent = true →
    (t.node p).type = (res.node q).reservedType
  vm : ∀ a r, s.Met a r → (res.node r).IsVm → (t.node a).type = (res.node r).hostedType
  whole : ∀ a r, s.Met a r → (t.node a).type = (res.node r).hostedType →
    (res.node r).IsVm ∨ (res.node r).type = (res.node r).hostedType

/-! ### The parts that `fill_in_topology` makes -/

/-- The nodes of the list for a level; levels begin at one. -/
def partAt (lists : List (List AssignInfo)) (k a : ℕ) : Prop :=
  ∃ i al, k = i + 1 ∧ lists[i]? = some al ∧ Users al a

theorem partAt_iff {lists : List (List AssignInfo)} {i : ℕ} {al : List AssignInfo}
    (h : lists[i]? = some al) (a : ℕ) : partAt lists (i + 1) a ↔ Users al a := by
  constructor
  · rintro ⟨j, al', hj, hal', hu⟩
    obtain rfl : j = i := by omega
    rw [h] at hal'
    cases hal'
    exact hu
  · exact fun hu => ⟨i, al, rfl, h, hu⟩

theorem Subtopologies.parts {t : Topology} {lists : List (List AssignInfo)}
    (h : Subtopologies t lists) (ht : t.Wf) (hp : t.Plain) : Parts t (partAt lists) where
  leaf := by
    rintro k a ⟨i, al, -, hal, hu⟩
    obtain ⟨-, n, hn, hleaf, hr⟩ := h.root al (List.mem_of_getElem? hal)
    refine ((hr a).mp hu).induct
      (P := fun a => a < t.nodes.length ∧ (t.node a).isParent = false) ?_ ⟨hn, hleaf⟩
    exact fun l x y _ hy _ => ⟨ht.ends l y hy, hp.leaf l y hy⟩
  conn := by
    rintro k a b ⟨i, al, rfl, hal, hu⟩
    obtain ⟨-, n, -, -, hr⟩ := h.root al (List.mem_of_getElem? hal)
    have hna := (hr a).mp hu
    rw [partAt_iff hal, hr b]
    exact ⟨fun hnb => hna.symm.trans hnb, fun hab => hna.trans hab⟩
  one := by
    rintro k k' a ⟨i, al, rfl, hal, hu⟩ ⟨j, al', rfl, hal', hu'⟩
    have hdis := List.pairwise_iff_getElem.mp h.disjoint
    obtain ⟨hi, rfl⟩ := List.getElem?_eq_some_iff.mp hal
    obtain ⟨hj, rfl⟩ := List.getElem?_eq_some_iff.mp hal'
    rcases lt_trichotomy i j with hlt | rfl | hlt
    · exact absurd hu' (hdis i j hi hj hlt a hu)
    · rfl
    · exact absurd hu (hdis j i hj hi hlt a hu')

theorem inv_start {t res : Topology} {comp : ℕ → ℕ → Prop} {k : ℕ} :
    Inv t res comp k (Search.start t) := by
  refine ⟨?_, ?_, ?_⟩
  · constructor <;> simp [Search.start]
  · constructor <;> simp [Search.start]
  · simp [Search.start]

/-- What a successful `fill_in_topology` leaves: the invariant, with every part assigned. -/
structure Filled (t res : Topology) (s : Search) (comp : ℕ → ℕ → Prop) (k : ℕ) : Prop where
  setting : Setting t res comp
  inv : Inv t res comp k s
  cover : ∀ a < t.nodes.length, (t.node a).isParent = false → ∃ j, comp j a ∧ Done t comp j s

theorem fillInTopology_filled {fuel : ℕ} {t res : Topology} {s : Search} (ht : t.Wf)
    (hres : res.Wf) (hp : t.Plain) (h : fillInTopology fuel t (.ok res) = some (.ok s)) :
    ∃ comp k, Filled t res s comp k := by
  unfold fillInTopology at h
  obtain ⟨lists, hlists, h⟩ := Option.bind_eq_some_iff.mp h
  simp only at h
  split at h
  · cases h
  obtain ⟨⟨ok, s'⟩, hcall, h⟩ := Option.bind_eq_some_iff.mp h
  cases ok with
  | false => cases h
  | true =>
    obtain rfl : s' = s := by simpa using h
    have hsub := subtopologies_assignLists ht hlists
    have hset : Setting t res (partAt lists) := ⟨ht, hres, hp, hsub.parts ht hp⟩
    have hrl : Reserved res (reservedList res (List.range res.nodes.length) []) :=
      reserved_reservedList (by simp) (by simp [Reserved])
    have hparts : ∀ i al, lists[i]? = some al →
        Typed t al ∧ ∀ a, Users al a ↔ partAt lists (0 + 1 + i) a := by
      intro i al hal
      refine ⟨(hsub.root al (List.mem_of_getElem? hal)).1, fun a => ?_⟩
      rw [show 0 + 1 + i = i + 1 by omega, partAt_iff hal]
    obtain ⟨hkept, hdone⟩ := (hset.subsetAssign_spec hrl hparts inv_start hcall).2 rfl
    refine ⟨_, _, hset, hkept.inv, fun a ha hleaf => ?_⟩
    obtain ⟨al, hal, hu⟩ := hsub.cover a ha hleaf
    obtain ⟨i, hi, rfl⟩ := List.getElem_of_mem hal
    refine ⟨i + 1, (partAt_iff (List.getElem?_eq_getElem hi) a).mpr hu, ?_⟩
    have := hdone i hi
    rwa [show 0 + 1 + i = i + 1 by omega] at this

/-! ### Soundness is coherence -/

namespace Filled

variable {t res : Topology} {s : Search} {comp : ℕ → ℕ → Prop} {k : ℕ}

/-- A node outside clusters is in the log with the reserved node it has. -/
theorem node (h : Filled t res s comp k) {a : ℕ} (ha : a < t.nodes.length)
    (hleaf : (t.node a).isParent = false) : ∃ j, (j, Event.node a (s.nodes a).res) ∈ s.log := by
  obtain ⟨i, hc, hdone⟩ := h.cover a ha hleaf
  obtain ⟨j, r, he⟩ := (h.inv.fields.marked a hleaf).mp (hdone a hc).1
  rw [(h.inv.fields.copied j a r he).1]
  exact ⟨j, he⟩

/-- A cluster has a child, and so it is in the log with the reserved cluster it has. -/
theorem cluster (h : Filled t res s comp k) {p : ℕ} (hp : p < t.nodes.length)
    (hparent : (t.node p).isParent = true) : (s.nodes p).marked = true ∧
      ∃ j, (j, Event.parent p (s.nodes p).res) ∈ s.log := by
  obtain ⟨a, ha, hap⟩ := h.setting.user.child p hp hparent
  have hleaf : (t.node a).isParent = false := by
    by_contra hne
    rw [h.setting.plain.flat a ha (by simpa using hne)] at hap
    cases hap
  obtain ⟨j, he⟩ := h.node ha hleaf
  obtain ⟨q, -, hpq⟩ := h.inv.log.child j a _ p he hap
  have hm := (h.inv.fields.clusterMarked j p q hpq).1
  exact ⟨hm, _, (h.inv.fields.cluster p hparent hm).1⟩

theorem met_self (h : Filled t res s comp k) {a : ℕ} (ha : a < t.nodes.length) :
    s.Met a (s.nodes a).res := by
  cases hpar : (t.node a).isParent with
  | false =>
    obtain ⟨j, he⟩ := h.node ha hpar
    exact ⟨_, he, rfl⟩
  | true =>
    obtain ⟨-, j, he⟩ := h.cluster ha hpar
    exact ⟨_, he, rfl⟩

/-- Every user link is in the log, with the reserved link it has. -/
theorem link (h : Filled t res s comp k) {l : ℕ} (hl : l < t.links.length) :
    ∃ j b y, (j, Event.link l (s.links l).res b y) ∈ s.log := by
  have h1 : t.Inc l (t.link l).end1.node := ⟨hl, Or.inl rfl⟩
  obtain ⟨i, hc, hdone⟩ := h.cover _ (h.setting.user.ends l _ h1) (h.setting.plain.leaf l _ h1)
  obtain ⟨j, m, b, y, he⟩ := (h.inv.fields.linkMarked l).mp ((hdone _ hc).2 l h1)
  rw [(h.inv.fields.linkCopied j l m b y he).1]
  exact ⟨j, b, y, he⟩

theorem met_lt (h : Filled t res s comp k) {a r : ℕ} (hm : s.Met a r) : a < t.nodes.length := by
  obtain ⟨⟨j, e⟩, he, hpair⟩ := hm
  have hnode : ∀ {c z}, (j, Event.node c z) ∈ s.log → c < t.nodes.length :=
    fun hc => (h.setting.parts.leaf j _ (h.inv.log.node j _ _ hc).1).1
  cases e with
  | node c z =>
    obtain ⟨rfl, rfl⟩ := Prod.mk.inj hpair
    exact hnode he
  | parent p q =>
    obtain ⟨rfl, rfl⟩ := Prod.mk.inj hpair
    obtain ⟨c, z, hc, hcp, -⟩ := h.inv.log.parent j p q he
    exact (h.setting.user.parent c (hnode hc) p hcp).1
  | link l m b y =>
    obtain ⟨rfl, rfl⟩ := Prod.mk.inj hpair
    exact h.setting.user.ends l b (h.inv.log.link j l m b y he).2.1

/-- In a sound assignment, whatever a node was met with is what it has. -/
theorem eq_of_met (h : Filled t res s comp k) (hs : Sound t res s) {a r : ℕ}
    (hm : s.Met a r) : r = (s.nodes a).res := by
  obtain ⟨⟨j, e⟩, he, hpair⟩ := hm
  cases e with
  | node c z =>
    obtain ⟨rfl, rfl⟩ := Prod.mk.inj hpair
    exact (h.inv.fields.copied j c z he).1.symm
  | parent p q =>
    obtain ⟨rfl, rfl⟩ := Prod.mk.inj hpair
    obtain ⟨c, z, hc, hcp, hzq⟩ := h.inv.log.parent j p q he
    have hclt := (h.setting.parts.leaf j c (h.inv.log.node j c z hc).1).1
    have hchild := hs.child c hclt p hcp
    rw [(h.inv.fields.copied j c z hc).1, hzq] at hchild
    exact Option.some.inj hchild
  | link l m b y =>
    obtain ⟨rfl, rfl⟩ := Prod.mk.inj hpair
    obtain ⟨-, hb, -, c, z, hc, o, o', hoc, hob, hoz, hoy, -⟩ := h.inv.log.link j l m b y he
    obtain ⟨-, -, -, o'', h1, -, h2, -⟩ := hs.link l hb.1
    rw [(h.inv.fields.linkCopied j l m b y he).1] at h1 h2
    have hz := (h.inv.fields.copied j c z hc).1
    -- the sides of the reserved link at which the nodes of `c` and `b` lie
    have key : ∃ x : Bool, ((res.link m).side x).node = (s.nodes c).res ∧
        ((res.link m).side !x).node = (s.nodes b).res := by
      cases o with
      | true =>
        refine ⟨o'', ?_, ?_⟩
        · rw [← hoc]
          exact h1
        · rw [← hob]
          exact h2
      | false =>
        refine ⟨!o'', ?_, ?_⟩
        · rw [← hoc]
          exact h2
        · rw [← hob, Bool.not_not]
          exact h1
    obtain ⟨x, hxc, hxb⟩ := key
    by_cases hx : x = o'
    · rw [← hoy, ← hx]
      exact hxb
    · obtain rfl : x = !o' := by
        cases x <;> cases o' <;> simp_all
      rw [Bool.not_not] at hxb
      rw [← hoy, hxc, hz, ← hoz]
      exact hxb

theorem coherent (h : Filled t res s comp k) (hs : Sound t res s) : Coherent t res s where
  one a r r' hr hr' := (h.eq_of_met hs hr).trans (h.eq_of_met hs hr').symm
  cluster a b r hr hr' _ :=
    hs.inj a (h.met_lt hr) b (h.met_lt hr') ((h.eq_of_met hs hr).symm.trans (h.eq_of_met hs hr'))
  clusterType p q hpq _ := by
    rw [h.eq_of_met hs hpq]
    exact hs.type p (h.met_lt hpq)
  vm a r hr hvm := by
    have htype := hs.type a (h.met_lt hr)
    rwa [← h.eq_of_met hs hr, NodeResource.reservedType, if_pos hvm] at htype
  whole a r hr hhost := by
    have htype := hs.type a (h.met_lt hr)
    rw [← h.eq_of_met hs hr, NodeResource.reservedType] at htype
    by_cases hvm : (res.node r).IsVm
    · exact Or.inl hvm
    · rw [if_neg hvm] at htype
      exact Or.inr (htype.symm.trans hhost)

theorem sound (h : Filled t res s comp k) (hc : Coherent t res s) : Sound t res s := by
  -- what a node was met with is what it has
  have hself : ∀ {a r}, s.Met a r → r = (s.nodes a).res :=
    fun hm => hc.one _ _ _ hm (h.met_self (h.met_lt hm))
  refine ⟨?_, ?_, ?_, ?_, ?_, ?_⟩
  · intro a ha
    cases hpar : (t.node a).isParent with
    | false =>
      obtain ⟨j, he⟩ := h.node ha hpar
      exact ⟨(h.inv.fields.marked a hpar).mpr ⟨j, _, he⟩, (h.inv.log.node j a _ he).2.1,
        (h.inv.fields.copied j a _ he).2.1⟩
    | true =>
      obtain ⟨hm, j, he⟩ := h.cluster ha hpar
      obtain ⟨c, z, hcz, -, hzq⟩ := h.inv.log.parent j a _ he
      have hz := (h.inv.log.node j c z hcz).2.1
      exact ⟨hm, (h.setting.reserved.parent z hz _ hzq).1, (h.inv.fields.cluster a hpar hm).2⟩
  · intro a ha
    have hmet := h.met_self ha
    cases hpar : (t.node a).isParent with
    | false =>
      obtain ⟨j, he⟩ := h.node ha hpar
      have hfit := (h.inv.log.node j a _ he).2.2
      unfold NodeResource.reservedType
      split
      · rename_i hvm
        exact hc.vm a _ hmet hvm
      · rename_i hvm
        rcases hfit with hfit | hfit
        · exact hfit
        · exact hfit.symm.trans ((hc.whole a _ hmet hfit.symm).resolve_left hvm).symm
    | true => exact hc.clusterType a _ hmet hpar
  · intro a ha b hb hab
    have hma := h.met_self ha
    have hmb : s.Met b (s.nodes a).res := hab ▸ h.met_self hb
    by_cases hcl : (t.node a).isParent = true ∨ (res.node (s.nodes a).res).isParent = true
    · exact hc.cluster a b _ hma hmb hcl
    · rw [not_or] at hcl
      by_cases hbp : (t.node b).isParent = true
      · exact (hc.cluster b a _ hmb hma (Or.inl hbp)).symm
      · obtain ⟨j, hea⟩ := h.node ha (by simpa using hcl.1)
        obtain ⟨j', heb⟩ := h.node hb (by simpa using hbp)
        rw [← hab] at heb
        exact h.inv.log.inj j j' a b _ hea heb (by simpa using hcl.2)
  · intro a ha p hp
    have hleaf : (t.node a).isParent = false := by
      by_contra hne
      rw [h.setting.plain.flat a ha (by simpa using hne)] at hp
      cases hp
    obtain ⟨j, he⟩ := h.node ha hleaf
    obtain ⟨q, hq, hpq⟩ := h.inv.log.child j a _ p he hp
    rw [hq, hself ⟨_, hpq, rfl⟩]
  · intro l hl
    obtain ⟨j, b, y, he⟩ := h.link hl
    obtain ⟨-, -, hy, c, z, hcz, o, o', hoc, hob, hoz, hoy, hport, hport'⟩ :=
      h.inv.log.link j l _ b y he
    have hz : z = (s.nodes c).res := hself ⟨_, hcz, rfl⟩
    have hyb : y = (s.nodes b).res := hself ⟨_, he, rfl⟩
    refine ⟨(h.inv.fields.linkMarked l).mpr ⟨j, _, b, y, he⟩, hy.1,
      (h.inv.fields.linkCopied j l _ b y he).2, ?_⟩
    cases o with
    | true =>
      refine ⟨o', ?_, hport.symm, ?_, hport'.symm⟩
      · rw [hoz, hz, ← hoc]
        rfl
      · rw [hoy, hyb, ← hob]
        rfl
    | false =>
      refine ⟨!o', ?_, hport'.symm, ?_, ?_⟩
      · rw [hoy, hyb, ← hob]
        rfl
      · rw [Bool.not_not, hoz, hz, ← hoc]
        rfl
      · rw [Bool.not_not]
        exact hport.symm
  · intro l hl l' hl' hll
    obtain ⟨j, b, y, he⟩ := h.link hl
    obtain ⟨j', b', y', he'⟩ := h.link hl'
    rw [← hll] at he'
    exact h.inv.log.link_inj j j' l l' _ b b' y y' he he'

end Filled

/-- What a successful `fill_in_topology` has assigned is sound exactly when the pairs of nodes
its search brought together are coherent. -/
theorem fillInTopology_sound_iff {fuel : ℕ} {t res : Topology} {s : Search} (ht : t.Wf)
    (hres : res.Wf) (hp : t.Plain) (h : fillInTopology fuel t (.ok res) = some (.ok s)) :
    Sound t res s ↔ Coherent t res s := by
  obtain ⟨comp, k, hf⟩ := fillInTopology_filled ht hres hp h
  exact ⟨hf.coherent, hf.sound⟩

/-! ### Two computers and a third -/

/-- A computer of a reserved topology: `get_topology` fills in the name after `add_node`. -/
def computer (label : ℕ) (name : String) (links : List ℕ) : NodeResource :=
  { type := "pc", label, node := name, links }

/-- A link of 1000 between port `p` of the node `a` and port `q` of the node `b`. -/
def cable (label a p b q : ℕ) : LinkResource :=
  ⟨label, 1000, ⟨a, p, p, 1000⟩, ⟨b, q, q, 1000⟩, 0, 0, []⟩

/-- Two computers joined by one link. -/
def onePair (name₁ name₂ : String) : Topology where
  nodes := [computer 1 name₁ [0], computer 2 name₂ [0]]
  links := [cable 1 0 0 1 0]

/-- Two computers joined by two links. -/
def doublePair : Topology where
  nodes := [computer 1 "" [0, 1], computer 2 "" [0, 1]]
  links := [cable 1 0 0 1 0, cable 2 0 1 1 1]

/-- Three computers in a row. -/
def threeInRow : Topology where
  nodes := [computer 1 "pc1" [0], computer 2 "pc2" [0, 1], computer 3 "pc3" [1]]
  links := [cable 1 0 0 1 0, cable 2 1 1 2 1]

theorem onePair_wf (name₁ name₂ : String) : (onePair name₁ name₂).Wf := by
  have h₁ := Topology.addNode_wf Topology.wf_empty
    (rfl : Topology.addNode {} "pc" 1 0 false 1 1 = .ok _)
  have h₂ := Topology.addNode_wf h₁ (rfl : Topology.addNode _ "pc" 2 0 false 1 1 = .ok _)
  have h₃ := Topology.addLink_wf h₂
    (rfl : Topology.addLink _ 1 1000 1 0 0 2 0 0 0 0 0 0 = .ok _)
  refine h₃.congr rfl rfl ?_
  intro a ha
  change a < 2 at ha
  interval_cases a <;> exact ⟨rfl, rfl, rfl, rfl⟩

theorem doublePair_wf : doublePair.Wf := by
  have h₁ := Topology.addNode_wf Topology.wf_empty
    (rfl : Topology.addNode {} "pc" 1 0 false 1 1 = .ok _)
  have h₂ := Topology.addNode_wf h₁ (rfl : Topology.addNode _ "pc" 2 0 false 1 1 = .ok _)
  have h₃ := Topology.addLink_wf h₂
    (rfl : Topology.addLink _ 1 1000 1 0 0 2 0 0 0 0 0 0 = .ok _)
  have h₄ := Topology.addLink_wf h₃
    (rfl : Topology.addLink _ 2 1000 1 1 1 2 1 1 0 0 0 0 = .ok _)
  refine h₄.congr rfl rfl ?_
  intro a ha
  change a < 2 at ha
  interval_cases a <;> exact ⟨rfl, rfl, rfl, rfl⟩

theorem threeInRow_wf : threeInRow.Wf := by
  have h₁ := Topology.addNode_wf Topology.wf_empty
    (rfl : Topology.addNode {} "pc" 1 0 false 1 1 = .ok _)
  have h₂ := Topology.addNode_wf h₁ (rfl : Topology.addNode _ "pc" 2 0 false 1 1 = .ok _)
  have h₃ := Topology.addNode_wf h₂ (rfl : Topology.addNode _ "pc" 3 0 false 1 1 = .ok _)
  have h₄ := Topology.addLink_wf h₃
    (rfl : Topology.addLink _ 1 1000 1 0 0 2 0 0 0 0 0 0 = .ok _)
  have h₅ := Topology.addLink_wf h₄
    (rfl : Topology.addLink _ 2 1000 2 1 1 3 1 1 0 0 0 0 = .ok _)
  refine h₅.congr rfl rfl ?_
  intro a ha
  change a < 3 at ha
  interval_cases a <;> exact ⟨rfl, rfl, rfl, rfl⟩

/-- A topology without clusters is plain. -/
theorem Topology.plain_of_leaves {t : Topology} (ht : t.Wf)
    (h : ∀ a < t.nodes.length, (t.node a).isParent = false) : t.Plain where
  leaf l a hl := h a (ht.ends l a hl)
  flat p hp hpp := by
    rw [h p hp] at hpp
    cases hpp

/-- What the search ends with, where it ends with success. -/
theorem exists_of_match {r : Option (Except (ℤ × String) Search)} {p : Search → Prop}
    [DecidablePred p]
    (h : (match r with | some (.ok s) => decide (p s) | _ => false) = true) :
    ∃ s, r = some (.ok s) ∧ p s := by
  split at h
  · rename_i s
    exact ⟨s, rfl, of_decide_eq_true h⟩
  · cases h

/-- A pair of computers is found in a reserved pair. -/
theorem fillInTopology_onePair : ∃ s,
    fillInTopology 3 (onePair "" "") (.ok (onePair "pc1" "pc2")) = some (.ok s) ∧
      Sound (onePair "" "") (onePair "pc1" "pc2") s := by
  obtain ⟨s, hs, hlog⟩ := exists_of_match
    (r := fillInTopology 3 (onePair "" "") (.ok (onePair "pc1" "pc2")))
    (p := fun s => s.log = [(1, .node 0 0), (1, .link 0 0 1 1), (1, .node 1 1)]) (by decide)
  refine ⟨s, hs, (fillInTopology_sound_iff (onePair_wf _ _) (onePair_wf _ _)
    (Topology.plain_of_leaves (onePair_wf _ _) (by decide)) hs).mpr ?_⟩
  have hmet : ∀ a r, s.Met a r → a = 0 ∧ r = 0 ∨ a = 1 ∧ r = 1 := by
    rintro a r ⟨e, he, hpair⟩
    rw [hlog] at he
    simp only [List.mem_cons, List.not_mem_nil, or_false] at he
    rcases he with rfl | rfl | rfl <;> simp only [Event.pair, Prod.mk.injEq] at hpair <;> omega
  refine ⟨?_, ?_, ?_, ?_, ?_⟩
  · intro a r r' hr hr'
    have := hmet a r hr
    have := hmet a r' hr'
    omega
  · intro a b r hr hr' _
    have := hmet a r hr
    have := hmet b r hr'
    omega
  · intro p q hpq hp
    rcases hmet p q hpq with ⟨rfl, rfl⟩ | ⟨rfl, rfl⟩ <;> cases hp
  · intro a r hr hvm
    rcases hmet a r hr with ⟨rfl, rfl⟩ | ⟨rfl, rfl⟩ <;> exact absurd hvm.1 (by decide)
  · intro a r hr hhost
    rcases hmet a r hr with ⟨rfl, rfl⟩ | ⟨rfl, rfl⟩ <;> exact absurd hhost (by decide)

/-- The second link of a pair is given a link that leads to a third computer: when the search
comes back to the first computer along it, the first computer is marked. -/
theorem fillInTopology_unsound : ¬∀ (fuel : ℕ) (t res : Topology) (s : Search), t.Wf → res.Wf →
    t.Plain → fillInTopology fuel t (.ok res) = some (.ok s) → Sound t res s := by
  intro h
  obtain ⟨s, hs, h0, h1, hl⟩ := exists_of_match
    (r := fillInTopology 4 doublePair (.ok threeInRow))
    (p := fun s => (s.nodes 0).res = 0 ∧ (s.nodes 1).res = 1 ∧ (s.links 1).res = 1) (by decide)
  have hsound := h 4 doublePair threeInRow s doublePair_wf threeInRow_wf
    (Topology.plain_of_leaves doublePair_wf (by decide)) hs
  obtain ⟨-, -, -, o, hfirst, -, hsecond, -⟩ := hsound.link 1 (by decide)
  rw [hl] at hfirst hsecond
  change _ = (s.nodes 0).res at hfirst
  rw [h0] at hfirst
  cases o <;> cases hfirst

end OnlDaemons.Onldb

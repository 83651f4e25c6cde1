import OnlDaemons.Lib.Contraction
import OnlDaemons.Onldb.PathCosts

/-!
# Merging vgige nodes

`merge_vswitches` looks for a link between two vgige nodes whose loads are within the capacity between clusters. It
gives the links of the second node to the first one, takes the link and the second node away, and begins again.

The list of the second node is walked while the list of the first one grows. They are the same list when the link joins
a vgige to itself; the walk takes a number of steps, and has no result when it is too small.

## Main definitions

- `ReqTopology` — a request, with the order of its nodes and links
- `mergeVswitches`
- `Linked` — links and lists agree
- `NoCycle` — no link joins two vgige nodes that are merged because of other links, or a merged vgige to itself
- `Connected` — two nodes are connected through vgige nodes

## Main results

- `mergeVswitches_spec`
-/

namespace OnlDaemons.Onldb

open OnlDaemons.Lib Relation

/-- A request. -/
structure ReqTopology (N L : Type) extends Scheduling N L where
  nodes : List N
  links : List L

namespace ReqTopology

variable {N L : Type} [DecidableEq N] [DecidableEq L]

/-- The link is between vgige nodes, and its loads allow to merge them. -/
def mergeable (s : ReqTopology N L) (l : L) : Bool :=
  s.vgige (s.link l).node1 ∧ s.vgige (s.link l).node2 ∧
    (s.link l).lload ≤ MAX_INTERCLUSTER_CAPACITY ∧ (s.link l).rload ≤ MAX_INTERCLUSTER_CAPACITY

def setNode (s : ReqTopology N L) (n : N) (x : SchedNode N L) : ReqTopology N L :=
  { s with node := Function.update s.node n x }

def setLink (s : ReqTopology N L) (l : L) (x : SchedLink N L) : ReqTopology N L :=
  { s with link := Function.update s.link l x }

/-- One link of `node2`. A link that joins the two nodes is taken out of the request, but stays in the list of
`node1`. -/
def moveLink (node1 node2 : N) (reqlit : L) (s : ReqTopology N L) (nlit : L) : ReqTopology N L :=
  let x := s.link nlit
  if nlit = reqlit then s
  else if (node1 = x.node1 ∧ node2 = x.node2) ∨ (node2 = x.node1 ∧ node1 = x.node2) then
    { s with links := s.links.filter (· ≠ nlit) }
  else
    let s := if x.node1 = node2 then s.setLink nlit { x with node1 := node1 }
      else s.setLink nlit { x with node2 := node1 }
    s.setNode node1 { s.node node1 with links := (s.node node1).links ++ [nlit] }

/-- The walk over the links of `node2`, from the position `k`. -/
def moveLinks (node1 node2 : N) (reqlit : L) : ℕ → ℕ → ReqTopology N L → Option (ReqTopology N L)
  | 0, _, _ => none
  | steps + 1, k, s => match (s.node node2).links[k]? with
    | none => some s
    | some nlit => moveLinks node1 node2 reqlit steps (k + 1) (moveLink node1 node2 reqlit s nlit)

/-- What follows the walk. -/
def dropNode (node1 node2 : N) (reqlit : L) (s : ReqTopology N L) : ReqTopology N L :=
  let s := s.setNode node2 { s.node node2 with links := [] }
  let s := s.setNode node1 { s.node node1 with userNodes := (s.node node1).userNodes ++ (s.node node2).userNodes }
  let s := s.setNode node2 { s.node node2 with userNodes := [] }
  let s := s.setNode node1 { s.node node1 with links := (s.node node1).links.filter (· ≠ reqlit) }
  { s with links := s.links.erase reqlit, nodes := s.nodes.filter (· ≠ node2) }

/-- The nodes of a link are merged. -/
def mergeNodes (steps : ℕ) (s : ReqTopology N L) (l : L) : Option (ReqTopology N L) :=
  (moveLinks (s.link l).node1 (s.link l).node2 l steps 0 s).map (dropNode (s.link l).node1 (s.link l).node2 l)

def mergeLoop (steps : ℕ) : ℕ → ReqTopology N L → Option (ReqTopology N L)
  | 0, _ => none
  | rounds + 1, s => match s.links.find? s.mergeable with
    | none => some s
    | some l => (mergeNodes steps s l).bind (mergeLoop steps rounds)

/-- A topology with a fixed node is left as it is. -/
def mergeVswitches (steps rounds : ℕ) (s : ReqTopology N L) : Option (ReqTopology N L) :=
  if s.nodes.any fun n => (s.node n).fixed then some s else mergeLoop steps rounds s

/-! ### Graphs -/

/-- The link has its ends at the two nodes. -/
def Joins (s : ReqTopology N L) (l : L) (a b : N) : Prop :=
  (s.link l).node1 = a ∧ (s.link l).node2 = b ∨ (s.link l).node1 = b ∧ (s.link l).node2 = a

/-- Two nodes with a link of the request. -/
def Adjacent (s : ReqTopology N L) (a b : N) : Prop := ∃ l ∈ s.links, s.Joins l a b

/-- Two vgige nodes with a link. -/
def VgigeStep (s : ReqTopology N L) (a b : N) : Prop := s.vgige a = true ∧ s.vgige b = true ∧ s.Adjacent a b

/-- There is a link, or there are vgige nodes, connected among themselves, to both. -/
def Connected (s : ReqTopology N L) (u v : N) : Prop :=
  s.Adjacent u v ∨ ∃ x y, s.vgige x = true ∧ s.vgige y = true ∧ s.Adjacent u x ∧ ReflTransGen s.VgigeStep x y ∧
    s.Adjacent y v

/-- How many ends of a link are at the node. -/
def endsAt (x : SchedLink N L) (a : N) : ℕ := (if x.node1 = a then 1 else 0) + if x.node2 = a then 1 else 0

/-- The links have their ends at nodes of the request, and a node has a link in its list for each end at it. -/
structure Linked (s : ReqTopology N L) : Prop where
  nodup : s.links.Nodup
  ends : ∀ l ∈ s.links, (s.link l).node1 ∈ s.nodes ∧ (s.link l).node2 ∈ s.nodes
  count : ∀ a ∈ s.nodes, ∀ l, (s.node a).links.count l = if l ∈ s.links then endsAt (s.link l) a else 0

/-- Two nodes with a link that can be merged, and is not the given one. -/
def MergeStep (s : ReqTopology N L) (l : L) (a b : N) : Prop :=
  ∃ m ∈ s.links, m ≠ l ∧ s.mergeable m = true ∧ s.Joins m a b

/-- A link between two vgige nodes that are not merged because of other links, or a link of a vgige to itself that is
in no merge. -/
def OffCycle (s : ReqTopology N L) (l : L) : Prop :=
  (s.link l).node1 ≠ (s.link l).node2 ∧ ¬ReflTransGen (s.MergeStep l) (s.link l).node1 (s.link l).node2 ∨
    (s.link l).node1 = (s.link l).node2 ∧ s.mergeable l = false ∧ ∀ b, ¬s.MergeStep l (s.link l).node1 b

def NoCycle (s : ReqTopology N L) : Prop := ∀ l ∈ s.links, s.vgige (s.link l).node1 = true →
  s.vgige (s.link l).node2 = true → s.OffCycle l

variable {s s' : ReqTopology N L} {node1 node2 a b x y : N} {reqlit l m : L} {steps : ℕ}

/-! ### One merge -/

/-- The second node becomes the first one. -/
def redirect (node1 node2 n : N) : N := if n = node2 then node1 else n

def redirectEnds (node1 node2 : N) (x : SchedLink N L) : SchedLink N L :=
  { x with node1 := redirect node1 node2 x.node1, node2 := redirect node1 node2 x.node2 }

/-- The request after the links of `done`. -/
def walked (node1 node2 : N) (reqlit : L) (done : List L) (s : ReqTopology N L) : ReqTopology N L :=
  { s with
    link := fun l => if l ∈ done ∧ l ≠ reqlit then redirectEnds node1 node2 (s.link l) else s.link l
    node := Function.update s.node node1
      { s.node node1 with links := (s.node node1).links ++ done.filter (· ≠ reqlit) } }

/-- The link leaves the second node, and goes to neither of the two. -/
def LeavesOnce (node1 node2 : N) (x : SchedLink N L) : Prop :=
  x.node1 = node2 ∧ x.node2 ≠ node1 ∧ x.node2 ≠ node2 ∨ x.node2 = node2 ∧ x.node1 ≠ node1 ∧ x.node1 ≠ node2

theorem walked_nil : walked node1 node2 reqlit [] s = s := by
  unfold walked
  simp only [List.not_mem_nil, false_and, if_false, List.filter_nil, List.append_nil, Function.update_eq_self]

omit [DecidableEq N] [DecidableEq L] in
theorem eq_of_fields (hnode : s.node = s'.node) (hlink : s.link = s'.link) (hnodes : s.nodes = s'.nodes)
    (hlinks : s.links = s'.links) : s = s' := by
  cases s with | mk t _ _ =>
  cases s' with | mk t' _ _ =>
  cases t
  cases t'
  cases hnode
  cases hlink
  cases hnodes
  cases hlinks
  rfl

omit [DecidableEq L] in
/-- Both ends of the link are redirected by the one assignment. -/
theorem redirectEnds_eq (h : LeavesOnce node1 node2 (s.link l)) : redirectEnds node1 node2 (s.link l) =
    if (s.link l).node1 = node2 then { s.link l with node1 := node1 } else { s.link l with node2 := node1 } := by
  unfold redirectEnds redirect
  obtain ⟨h1, -, h2⟩ | ⟨h2, -, h1⟩ := h
  · rw [if_pos h1, if_neg h2, if_pos h1]
  · rw [if_neg h1, if_pos h2, if_neg h1]

theorem moveLink_walked {done : List L} (hnew : l ∉ done)
    (hl : l ≠ reqlit → LeavesOnce node1 node2 (s.link l)) :
    moveLink node1 node2 reqlit (walked node1 node2 reqlit done s) l =
      walked node1 node2 reqlit (done ++ [l]) s := by
  have hlink : (walked node1 node2 reqlit done s).link l = s.link l := if_neg fun h => hnew h.1
  unfold moveLink
  rw [hlink]
  by_cases hreq : l = reqlit
  · rw [if_pos hreq]
    refine eq_of_fields ?_ (funext fun m => ?_) rfl rfl
    · unfold walked
      rw [List.filter_append, List.filter_singleton, decide_eq_false (not_not.mpr hreq)]
      simp only [cond_false, List.append_nil]
    · have hiff : m ∈ done ++ [l] ∧ m ≠ reqlit ↔ m ∈ done ∧ m ≠ reqlit := by
        refine and_congr_left fun hm => ?_
        rw [List.mem_append, List.mem_singleton, or_iff_left]
        rintro rfl
        exact hm hreq
      unfold walked
      simp only [hiff]
  · rw [if_neg hreq]
    have hleaves := hl hreq
    have hpar : ¬((node1 = (s.link l).node1 ∧ node2 = (s.link l).node2) ∨
        (node2 = (s.link l).node1 ∧ node1 = (s.link l).node2)) := by
      unfold LeavesOnce at hleaves
      grind
    rw [if_neg hpar]
    have hset : (if (s.link l).node1 = node2 then
        (walked node1 node2 reqlit done s).setLink l { s.link l with node1 := node1 }
      else (walked node1 node2 reqlit done s).setLink l { s.link l with node2 := node1 }) =
        (walked node1 node2 reqlit done s).setLink l (redirectEnds node1 node2 (s.link l)) := by
      rw [redirectEnds_eq hleaves]
      split
      · rfl
      · rfl
    dsimp only
    rw [hset]
    refine eq_of_fields ?_ (funext fun m => ?_) rfl rfl
    · show Function.update (Function.update s.node node1 _) node1 _ = Function.update s.node node1 _
      have hnode : (walked node1 node2 reqlit done s).node node1 =
          { s.node node1 with links := (s.node node1).links ++ done.filter (· ≠ reqlit) } := Function.update_self ..
      rw [Function.update_idem, List.filter_append, List.filter_singleton, decide_eq_true hreq]
      rw [show ((walked node1 node2 reqlit done s).setLink l (redirectEnds node1 node2 (s.link l))).node node1 = _
        from hnode, cond_true, List.append_assoc]
    · show Function.update (walked node1 node2 reqlit done s).link l _ m = _
      by_cases hm : m = l
      · rw [hm, Function.update_self]
        exact (if_pos ⟨List.mem_append_right _ List.mem_cons_self, hreq⟩).symm
      · rw [Function.update_of_ne hm]
        have hiff : m ∈ done ++ [l] ∧ m ≠ reqlit ↔ m ∈ done ∧ m ≠ reqlit := by
          rw [List.mem_append, List.mem_singleton, or_iff_left hm]
        unfold walked
        simp only [hiff]

/-- The walk goes over all links of the second node. -/
theorem moveLinks_eq (hne : node1 ≠ node2) (hnodup : (s.node node2).links.Nodup)
    (hleaves : ∀ l ∈ (s.node node2).links, l ≠ reqlit → LeavesOnce node1 node2 (s.link l))
    (hsteps : (s.node node2).links.length < steps) :
    moveLinks node1 node2 reqlit steps 0 s = some (walked node1 node2 reqlit (s.node node2).links s) := by
  suffices h : ∀ rest done k steps, (s.node node2).links = done ++ rest → done.length = k → rest.length < steps →
      moveLinks node1 node2 reqlit steps k (walked node1 node2 reqlit done s) =
        some (walked node1 node2 reqlit (s.node node2).links s) by
    have hall := h _ [] 0 steps rfl rfl hsteps
    rwa [walked_nil] at hall
  have hsame : ∀ done, (walked node1 node2 reqlit done s).node node2 = s.node node2 := fun done =>
    Function.update_of_ne (Ne.symm hne) ..
  intro rest
  induction rest with
  | nil =>
    intro done k steps hsplit hk hsteps
    obtain ⟨steps, rfl⟩ := Nat.exists_eq_add_one_of_ne_zero (Nat.pos_iff_ne_zero.mp hsteps)
    rw [List.append_nil] at hsplit
    rw [moveLinks, hsame, hsplit, List.getElem?_eq_none (Nat.le_of_eq hk)]
  | cons l rest ih =>
    intro done k steps hsplit hk hsteps
    obtain ⟨steps, rfl⟩ := Nat.exists_eq_add_one_of_ne_zero (Nat.pos_iff_ne_zero.mp (Nat.zero_lt_of_lt hsteps))
    have hnew : l ∉ done := by
      rw [hsplit] at hnodup
      exact fun hmem => (List.nodup_append.mp hnodup).2.2 l hmem l List.mem_cons_self rfl
    have hl : l ∈ (s.node node2).links := by
      rw [hsplit]
      exact List.mem_append_right _ List.mem_cons_self
    have hget : (s.node node2).links[k]? = some l := by
      rw [hsplit, List.getElem?_append_right (Nat.le_of_eq hk), hk, Nat.sub_self, List.getElem?_cons_zero]
    rw [moveLinks, hsame, hget]
    dsimp only
    rw [moveLink_walked hnew (hleaves l hl)]
    refine ih (done ++ [l]) (k + 1) steps ?_ ?_ ?_
    · rw [hsplit, List.append_assoc]
      rfl
    · rw [List.length_append, hk, List.length_singleton]
    · exact Nat.lt_of_succ_lt_succ hsteps

/-- What a merge makes of the request. -/
structure Merged (s : ReqTopology N L) (reqlit : L) (s' : ReqTopology N L) : Prop where
  links : s'.links = s.links.erase reqlit
  nodes : s'.nodes = s.nodes.filter (· ≠ (s.link reqlit).node2)
  type : ∀ n, (s'.node n).type = (s.node n).type
  lload : ∀ l, (s'.link l).lload = (s.link l).lload
  rload : ∀ l, (s'.link l).rload = (s.link l).rload
  ends1 : ∀ l ∈ s.links, l ≠ reqlit → (s'.link l).node1 =
    redirect (s.link reqlit).node1 (s.link reqlit).node2 (s.link l).node1
  ends2 : ∀ l ∈ s.links, l ≠ reqlit → (s'.link l).node2 =
    redirect (s.link reqlit).node1 (s.link reqlit).node2 (s.link l).node2
  list1 : (s'.node (s.link reqlit).node1).links = (s.node (s.link reqlit).node1).links.filter (· ≠ reqlit) ++
    (s.node (s.link reqlit).node2).links.filter (· ≠ reqlit)
  lists : ∀ n, n ≠ (s.link reqlit).node1 → n ≠ (s.link reqlit).node2 → (s'.node n).links = (s.node n).links

omit [DecidableEq N] [DecidableEq L] in
theorem mergeable_iff : s.mergeable l = true ↔ s.vgige (s.link l).node1 = true ∧ s.vgige (s.link l).node2 = true ∧
    (s.link l).lload ≤ MAX_INTERCLUSTER_CAPACITY ∧ (s.link l).rload ≤ MAX_INTERCLUSTER_CAPACITY := by
  rw [mergeable, decide_eq_true_iff]

theorem Linked.mem (h : s.Linked) (ha : a ∈ s.nodes) :
    l ∈ (s.node a).links ↔ l ∈ s.links ∧ ((s.link l).node1 = a ∨ (s.link l).node2 = a) := by
  rw [← List.count_pos_iff, h.count a ha]
  unfold endsAt
  grind

omit [DecidableEq N] [DecidableEq L] in
/-- The ends of a link that is merged are vgige nodes. -/
theorem Joins.vgige (hm : s.mergeable reqlit = true) (hj : s.Joins reqlit a b) :
    s.vgige a = true ∧ s.vgige b = true := by
  obtain ⟨hv1, hv2, -⟩ := mergeable_iff.mp hm
  obtain ⟨rfl, rfl⟩ | ⟨rfl, rfl⟩ := hj
  · exact ⟨hv1, hv2⟩
  · exact ⟨hv2, hv1⟩

omit [DecidableEq N] [DecidableEq L] in
/-- The two nodes that are merged are two. -/
theorem NoCycle.ne (h : s.NoCycle) (hreq : reqlit ∈ s.links) (hm : s.mergeable reqlit = true) :
    (s.link reqlit).node1 ≠ (s.link reqlit).node2 := by
  obtain ⟨hv1, hv2, -⟩ := mergeable_iff.mp hm
  obtain ⟨hne, -⟩ | ⟨-, hnot, -⟩ := h reqlit hreq hv1 hv2
  · exact hne
  · rw [hnot] at hm
    cases hm

omit [DecidableEq N] [DecidableEq L] in
/-- A link that is merged is not in parallel to another one. -/
theorem NoCycle.not_joins (h : s.NoCycle) (hreq : reqlit ∈ s.links) (hm : s.mergeable reqlit = true)
    (hl : l ∈ s.links) (hne : l ≠ reqlit) : ¬s.Joins l (s.link reqlit).node1 (s.link reqlit).node2 := by
  intro hj
  have hjoin : s.Joins reqlit (s.link l).node1 (s.link l).node2 := by
    obtain ⟨h1, h2⟩ | ⟨h1, h2⟩ := hj
    · exact .inl ⟨h1.symm, h2.symm⟩
    · exact .inr ⟨h2.symm, h1.symm⟩
  obtain ⟨hv1, hv2⟩ := hjoin.vgige hm
  obtain ⟨-, hwalk⟩ | ⟨-, -, hnone⟩ := h l hl hv1 hv2
  · exact hwalk (.single ⟨reqlit, hreq, Ne.symm hne, hm, hjoin⟩)
  · exact hnone _ ⟨reqlit, hreq, Ne.symm hne, hm, hjoin⟩

omit [DecidableEq N] [DecidableEq L] in
/-- A node that is merged has no link to itself. -/
theorem NoCycle.ends_ne (h : s.NoCycle) (hreq : reqlit ∈ s.links) (hm : s.mergeable reqlit = true)
    (hj : s.Joins reqlit a b) (hl : l ∈ s.links) (hend : (s.link l).node1 = a ∨ (s.link l).node2 = a) :
    (s.link l).node1 ≠ (s.link l).node2 := by
  intro heq
  have h1 : (s.link l).node1 = a := hend.elim id heq.trans
  have hv1 : s.vgige (s.link l).node1 = true := by rw [h1, (hj.vgige hm).1]
  obtain ⟨hne, -⟩ | ⟨-, hnot, hnone⟩ := h l hl hv1 (by rw [← heq, hv1])
  · exact hne heq
  · refine hnone b ⟨reqlit, hreq, ?_, hm, by rw [h1]; exact hj⟩
    rintro rfl
    rw [hnot] at hm
    cases hm

/-- The links of a node that is merged are in its list once. -/
theorem NoCycle.list_nodup (h : s.NoCycle) (hL : s.Linked) (hreq : reqlit ∈ s.links) (hm : s.mergeable reqlit = true)
    (hj : s.Joins reqlit a b) (ha : a ∈ s.nodes) : (s.node a).links.Nodup := by
  rw [List.nodup_iff_count_le_one]
  intro l
  rw [hL.count a ha]
  split
  · next hl =>
    have hends := h.ends_ne hreq hm hj hl
    unfold endsAt
    grind
  · exact Nat.zero_le 1

/-- The links of the second node leave it for other nodes. -/
theorem leavesOnce (h : s.Linked) (hc : s.NoCycle) (hreq : reqlit ∈ s.links) (hm : s.mergeable reqlit = true)
    (hl : l ∈ (s.node (s.link reqlit).node2).links) (hne : l ≠ reqlit) :
    LeavesOnce (s.link reqlit).node1 (s.link reqlit).node2 (s.link l) := by
  obtain ⟨hls, hend⟩ := (h.mem (h.ends _ hreq).2).mp hl
  have hpar := hc.not_joins hreq hm hls hne
  have hself := hc.ends_ne hreq hm (.inr ⟨rfl, rfl⟩) hls hend
  unfold Joins at hpar
  unfold LeavesOnce
  grind

theorem dropNode_type (n : N) : ((dropNode node1 node2 reqlit s).node n).type = (s.node n).type := by
  unfold dropNode setNode
  simp only [Function.update_apply]
  grind

theorem dropNode_links (hne : node1 ≠ node2) (n : N) : ((dropNode node1 node2 reqlit s).node n).links =
    if n = node1 then (s.node node1).links.filter (· ≠ reqlit) else if n = node2 then [] else (s.node n).links := by
  unfold dropNode setNode
  simp only [Function.update_apply]
  grind

theorem walked_type {done : List L} (n : N) :
    ((walked node1 node2 reqlit done s).node n).type = (s.node n).type := by
  unfold walked
  simp only [Function.update_apply]
  grind

/-- The ends after the walk over all links of the second node. -/
theorem walked_ends (h : s.Linked) (hreq : reqlit ∈ s.links) (hl : l ∈ s.links) (hne : l ≠ reqlit) :
    (walked (s.link reqlit).node1 (s.link reqlit).node2 reqlit (s.node (s.link reqlit).node2).links s).link l =
      redirectEnds (s.link reqlit).node1 (s.link reqlit).node2 (s.link l) := by
  by_cases hmem : l ∈ (s.node (s.link reqlit).node2).links
  · exact if_pos ⟨hmem, hne⟩
  · have hends : ¬((s.link l).node1 = (s.link reqlit).node2 ∨ (s.link l).node2 = (s.link reqlit).node2) := fun hend =>
      hmem ((h.mem (h.ends _ hreq).2).mpr ⟨hl, hend⟩)
    rw [not_or] at hends
    rw [redirectEnds, redirect, if_neg hends.1, redirect, if_neg hends.2]
    exact if_neg fun hin => hmem hin.1

theorem exists_mergeNodes (h : s.Linked) (hc : s.NoCycle) (hreq : reqlit ∈ s.links) (hm : s.mergeable reqlit = true) :
    ∃ s', (∀ steps, (s.node (s.link reqlit).node2).links.length < steps → mergeNodes steps s reqlit = some s') ∧
      s.Merged reqlit s' := by
  have hne := hc.ne hreq hm
  have hin := h.ends _ hreq
  refine ⟨dropNode (s.link reqlit).node1 (s.link reqlit).node2 reqlit
    (walked (s.link reqlit).node1 (s.link reqlit).node2 reqlit (s.node (s.link reqlit).node2).links s), ?_, ?_⟩
  · intro steps hsteps
    have hnodup := hc.list_nodup h hreq hm (.inr ⟨rfl, rfl⟩) hin.2
    rw [mergeNodes, moveLinks_eq hne hnodup (fun l hl hlne => leavesOnce h hc hreq hm hl hlne) hsteps]
    rfl
  · refine ⟨rfl, rfl, fun n => ?_, fun l => ?_, fun l => ?_, fun l hl hlne => ?_, fun l hl hlne => ?_, ?_,
      fun n hn1 hn2 => ?_⟩
    · rw [dropNode_type, walked_type]
    · show ((walked _ _ _ _ s).link l).lload = _
      unfold walked redirectEnds
      dsimp only
      split <;> rfl
    · show ((walked _ _ _ _ s).link l).rload = _
      unfold walked redirectEnds
      dsimp only
      split <;> rfl
    · exact congrArg SchedLink.node1 (walked_ends h hreq hl hlne)
    · exact congrArg SchedLink.node2 (walked_ends h hreq hl hlne)
    · rw [dropNode_links hne, if_pos rfl]
      unfold walked
      simp only [Function.update_self, List.filter_append, List.filter_filter, Bool.and_self]
    · rw [dropNode_links hne, if_neg hn1, if_neg hn2]
      exact congrArg SchedNode.links (Function.update_of_ne hn1 ..)

/-! ### What a merge keeps -/

omit [DecidableEq L] in
theorem redirect_eq_iff {c : N} (ha : c ≠ node1) (hb : c ≠ node2) (n : N) : redirect node1 node2 n = c ↔ n = c := by
  unfold redirect
  split
  · next h =>
    rw [h]
    exact ⟨fun heq => absurd heq.symm ha, fun heq => absurd heq.symm hb⟩
  · rfl

theorem Merged.mem (hM : s.Merged reqlit s') (h : s.Linked) : l ∈ s'.links ↔ l ∈ s.links ∧ l ≠ reqlit := by
  rw [hM.links, h.nodup.mem_erase_iff, and_comm]

theorem Merged.vgige (hM : s.Merged reqlit s') (n : N) : s'.vgige n = s.vgige n := by
  rw [Scheduling.vgige, hM.type, Scheduling.vgige]

omit [DecidableEq L] in
theorem vgige_redirect (hm : s.mergeable reqlit = true) (n : N) :
    s.vgige (redirect (s.link reqlit).node1 (s.link reqlit).node2 n) = s.vgige n := by
  obtain ⟨hv1, hv2, -⟩ := mergeable_iff.mp hm
  unfold redirect
  split
  · next h => rw [h, hv1, hv2]
  · rfl

theorem Merged.mergeable (hM : s.Merged reqlit s') (hm : s.mergeable reqlit = true) (hl : l ∈ s.links)
    (hne : l ≠ reqlit) : s'.mergeable l = s.mergeable l := by
  rw [Bool.eq_iff_iff, mergeable_iff, mergeable_iff, hM.ends1 l hl hne, hM.ends2 l hl hne, hM.lload, hM.rload,
    hM.vgige, hM.vgige, vgige_redirect hm, vgige_redirect hm]

theorem Merged.joins (hM : s.Merged reqlit s') (hl : l ∈ s.links) (hne : l ≠ reqlit) (hj : s.Joins l a b) :
    s'.Joins l (redirect (s.link reqlit).node1 (s.link reqlit).node2 a)
      (redirect (s.link reqlit).node1 (s.link reqlit).node2 b) := by
  unfold Joins
  rw [hM.ends1 l hl hne, hM.ends2 l hl hne]
  exact hj.imp (fun hj => ⟨by rw [hj.1], by rw [hj.2]⟩) fun hj => ⟨by rw [hj.1], by rw [hj.2]⟩

theorem Merged.joins_of (hM : s.Merged reqlit s') (hl : l ∈ s.links) (hne : l ≠ reqlit) (hj : s'.Joins l x y) :
    ∃ a b, redirect (s.link reqlit).node1 (s.link reqlit).node2 a = x ∧
      redirect (s.link reqlit).node1 (s.link reqlit).node2 b = y ∧ s.Joins l a b := by
  unfold Joins at hj
  rw [hM.ends1 l hl hne, hM.ends2 l hl hne] at hj
  obtain ⟨h1, h2⟩ | ⟨h1, h2⟩ := hj
  · exact ⟨_, _, h1, h2, .inl ⟨rfl, rfl⟩⟩
  · exact ⟨_, _, h2, h1, .inr ⟨rfl, rfl⟩⟩

omit [DecidableEq L] in
/-- Nodes that become one are the same, or joined by the link. -/
theorem joins_of_redirect (h : redirect (s.link reqlit).node1 (s.link reqlit).node2 a =
    redirect (s.link reqlit).node1 (s.link reqlit).node2 b) : a = b ∨ s.Joins reqlit a b := by
  unfold redirect at h
  unfold Joins
  grind

omit [DecidableEq L] in
theorem redirect_eq_of_joins (hj : s.Joins reqlit a b) : redirect (s.link reqlit).node1 (s.link reqlit).node2 a =
    redirect (s.link reqlit).node1 (s.link reqlit).node2 b := by
  unfold Joins at hj
  unfold redirect
  grind

/-- The ends at the second node are added to those at the first one. -/
theorem Merged.endsAt_first (hM : s.Merged reqlit s') (hne : (s.link reqlit).node1 ≠ (s.link reqlit).node2)
    (hl : l ∈ s.links) (hlne : l ≠ reqlit) : endsAt (s'.link l) (s.link reqlit).node1 =
      endsAt (s.link l) (s.link reqlit).node1 + endsAt (s.link l) (s.link reqlit).node2 := by
  unfold endsAt
  rw [hM.ends1 l hl hlne, hM.ends2 l hl hlne]
  unfold redirect
  grind

theorem Merged.endsAt_other (hM : s.Merged reqlit s') (hl : l ∈ s.links) (hlne : l ≠ reqlit)
    (h1 : a ≠ (s.link reqlit).node1) (h2 : a ≠ (s.link reqlit).node2) :
    endsAt (s'.link l) a = endsAt (s.link l) a := by
  unfold endsAt
  simp only [hM.ends1 l hl hlne, hM.ends2 l hl hlne, redirect_eq_iff h1 h2]

omit [DecidableEq N] in
theorem count_filter_ne (links : List L) (reqlit l : L) :
    (links.filter (· ≠ reqlit)).count l = if l = reqlit then 0 else links.count l := by
  split
  · next h => exact List.count_eq_zero.mpr fun hmem => of_decide_eq_true (List.mem_filter.mp hmem).2 h
  · next h => exact List.count_filter (decide_eq_true h)

theorem Merged.linked (hM : s.Merged reqlit s') (h : s.Linked) (hc : s.NoCycle) (hreq : reqlit ∈ s.links)
    (hm : s.mergeable reqlit = true) : s'.Linked := by
  have hne := hc.ne hreq hm
  have hin := h.ends _ hreq
  have hnode : ∀ n, n ∈ s'.nodes ↔ n ∈ s.nodes ∧ n ≠ (s.link reqlit).node2 := by
    intro n
    rw [hM.nodes, List.mem_filter, decide_eq_true_iff]
  constructor
  case nodup =>
    rw [hM.links]
    exact h.nodup.erase _
  case ends =>
    intro l hl
    obtain ⟨hl, hlne⟩ := (hM.mem h).mp hl
    have hstay : ∀ n ∈ s.nodes, redirect (s.link reqlit).node1 (s.link reqlit).node2 n ∈ s'.nodes := by
      intro n hn
      unfold redirect
      rw [hnode]
      split
      · exact ⟨hin.1, hne⟩
      · next hn2 => exact ⟨hn, hn2⟩
    rw [hM.ends1 l hl hlne, hM.ends2 l hl hlne]
    exact ⟨hstay _ (h.ends l hl).1, hstay _ (h.ends l hl).2⟩
  case count =>
    intro n hn l
    obtain ⟨hn, hn2⟩ := (hnode n).mp hn
    by_cases hn1 : n = (s.link reqlit).node1
    · rw [hn1, hM.list1, List.count_append, count_filter_ne, count_filter_ne, h.count _ hin.1, h.count _ hin.2]
      by_cases hlne : l = reqlit
      · rw [if_pos hlne, if_pos hlne, if_neg fun hmem => ((hM.mem h).mp hmem).2 hlne]
      · rw [if_neg hlne, if_neg hlne]
        by_cases hl : l ∈ s.links
        · rw [if_pos hl, if_pos hl, if_pos ((hM.mem h).mpr ⟨hl, hlne⟩), hM.endsAt_first hne hl hlne]
        · rw [if_neg hl, if_neg hl, if_neg fun hmem => hl ((hM.mem h).mp hmem).1]
    · rw [hM.lists n hn1 hn2, h.count n hn]
      by_cases hlne : l = reqlit
      · rw [if_neg fun hmem => ((hM.mem h).mp hmem).2 hlne, hlne, if_pos hreq]
        unfold endsAt
        rw [if_neg (Ne.symm hn1), if_neg (Ne.symm hn2)]
      · by_cases hl : l ∈ s.links
        · rw [if_pos hl, if_pos ((hM.mem h).mpr ⟨hl, hlne⟩), hM.endsAt_other hl hlne hn1 hn2]
        · rw [if_neg hl, if_neg fun hmem => hl ((hM.mem h).mp hmem).1]

/-- A cycle would have been there before. -/
theorem Merged.noCycle (hM : s.Merged reqlit s') (h : s.Linked) (hc : s.NoCycle) (hreq : reqlit ∈ s.links)
    (hm : s.mergeable reqlit = true) : s'.NoCycle := by
  intro l hl hv1 hv2
  obtain ⟨hl, hlne⟩ := (hM.mem h).mp hl
  rw [hM.vgige, hM.ends1 l hl hlne, vgige_redirect hm] at hv1
  rw [hM.vgige, hM.ends2 l hl hlne, vgige_redirect hm] at hv2
  have hstep : ∀ x y, s'.MergeStep l x y → ∃ a b, redirect (s.link reqlit).node1 (s.link reqlit).node2 a = x ∧
      redirect (s.link reqlit).node1 (s.link reqlit).node2 b = y ∧ s.MergeStep l a b := by
    rintro x y ⟨m, hml, hmne, hmm, hj⟩
    obtain ⟨hml, hmreq⟩ := (hM.mem h).mp hml
    rw [hM.mergeable hm hml hmreq] at hmm
    obtain ⟨a, b, ha, hb, hj⟩ := hM.joins_of hml hmreq hj
    exact ⟨a, b, ha, hb, m, hml, hmne, hmm, hj⟩
  have hfib : ∀ a b, redirect (s.link reqlit).node1 (s.link reqlit).node2 a =
      redirect (s.link reqlit).node1 (s.link reqlit).node2 b → ReflTransGen (s.MergeStep l) a b := by
    intro a b hab
    obtain rfl | hj := joins_of_redirect hab
    · exact .refl
    · exact .single ⟨reqlit, hreq, Ne.symm hlne, hm, hj⟩
  unfold OffCycle
  rw [hM.ends1 l hl hlne, hM.ends2 l hl hlne]
  obtain ⟨-, hwalk⟩ | ⟨heq, hnot, hnone⟩ := hc l hl hv1 hv2
  · exact .inl ⟨fun heq => hwalk (hfib _ _ heq), fun hwalk' => hwalk (lift hfib hstep hwalk' rfl rfl)⟩
  · refine .inr ⟨by rw [heq], by rw [hM.mergeable hm hl hlne, hnot], fun b hb => ?_⟩
    obtain ⟨a, b, ha, -, hab⟩ := hstep _ _ hb
    obtain rfl | hj := joins_of_redirect ha
    · exact hnone b hab
    · refine hnone a ⟨reqlit, hreq, Ne.symm hlne, hm, ?_⟩
      exact hj.symm

theorem Merged.adjacent (hM : s.Merged reqlit s') (h : s.Linked) (hadj : s.Adjacent a b) :
    s'.Adjacent (redirect (s.link reqlit).node1 (s.link reqlit).node2 a)
        (redirect (s.link reqlit).node1 (s.link reqlit).node2 b) ∨
      s.Joins reqlit a b := by
  obtain ⟨l, hl, hj⟩ := hadj
  by_cases hne : l = reqlit
  · exact .inr (hne ▸ hj)
  · exact .inl ⟨l, (hM.mem h).mpr ⟨hl, hne⟩, hM.joins hl hne hj⟩

theorem Merged.adjacent_of (hM : s.Merged reqlit s') (h : s.Linked) (hadj : s'.Adjacent x y) :
    ∃ a b, redirect (s.link reqlit).node1 (s.link reqlit).node2 a = x ∧
      redirect (s.link reqlit).node1 (s.link reqlit).node2 b = y ∧ s.Adjacent a b := by
  obtain ⟨l, hl, hj⟩ := hadj
  obtain ⟨hl, hne⟩ := (hM.mem h).mp hl
  obtain ⟨a, b, ha, hb, hj⟩ := hM.joins_of hl hne hj
  exact ⟨a, b, ha, hb, l, hl, hj⟩

omit [DecidableEq L] in
/-- Only vgige nodes are redirected. -/
theorem redirect_of_not_vgige (hm : s.mergeable reqlit = true) (ha : s.vgige a = false) :
    redirect (s.link reqlit).node1 (s.link reqlit).node2 a = a := by
  refine if_neg fun h => ?_
  rw [h, (mergeable_iff.mp hm).2.1] at ha
  cases ha

omit [DecidableEq L] in
theorem eq_of_redirect_not_vgige (hm : s.mergeable reqlit = true)
    (hx : redirect (s.link reqlit).node1 (s.link reqlit).node2 a = x) (hv : s.vgige x = false) : a = x := by
  rw [← hx]
  refine (redirect_of_not_vgige hm ?_).symm
  rw [← vgige_redirect hm, hx, hv]

/-- The nodes that are connected through vgige nodes are those that were. -/
theorem Merged.connected (hM : s.Merged reqlit s') (h : s.Linked) (hreq : reqlit ∈ s.links)
    (hm : s.mergeable reqlit = true) {u v : N} (hu : s.vgige u = false) (hv : s.vgige v = false) :
    s'.Connected u v ↔ s.Connected u v := by
  have hru := redirect_of_not_vgige hm hu
  have hrv := redirect_of_not_vgige hm hv
  -- the link that is merged does not end at them
  have hnot : ∀ a b, s.vgige a = false ∨ s.vgige b = false → ¬s.Joins reqlit a b := by
    rintro a b hab hj
    obtain ⟨ha, hb⟩ := hj.vgige hm
    rw [ha, hb] at hab
    exact hab.elim Bool.noConfusion Bool.noConfusion
  constructor
  · rintro (hadj | ⟨x, y, hx, hy, hux, hxy, hyv⟩)
    · obtain ⟨a, b, ha, hb, hab⟩ := hM.adjacent_of h hadj
      rw [← eq_of_redirect_not_vgige hm ha hu, ← eq_of_redirect_not_vgige hm hb hv]
      exact .inl hab
    · obtain ⟨a, x', ha, hx', hax⟩ := hM.adjacent_of h hux
      obtain ⟨y', b, hy', hb, hyb⟩ := hM.adjacent_of h hyv
      rw [eq_of_redirect_not_vgige hm ha hu] at hax
      rw [eq_of_redirect_not_vgige hm hb hv] at hyb
      rw [hM.vgige, ← hx', vgige_redirect hm] at hx
      rw [hM.vgige, ← hy', vgige_redirect hm] at hy
      refine .inr ⟨x', y', hx, hy, hax, lift (fun a b hab => ?_) (fun a b hab => ?_) hxy hx' hy', hyb⟩
      · obtain rfl | hj := joins_of_redirect hab
        · exact .refl
        · obtain ⟨hva, hvb⟩ := hj.vgige hm
          exact .single ⟨hva, hvb, reqlit, hreq, hj⟩
      · obtain ⟨hva, hvb, hadj⟩ := hab
        obtain ⟨a', b', rfl, rfl, hold⟩ := hM.adjacent_of h hadj
        rw [hM.vgige, vgige_redirect hm] at hva hvb
        exact ⟨a', b', rfl, rfl, hva, hvb, hold⟩
  · rintro (hadj | ⟨x, y, hx, hy, hux, hxy, hyv⟩)
    · refine .inl ?_
      obtain hadj | hj := hM.adjacent h hadj
      · rwa [hru, hrv] at hadj
      · exact absurd hj (hnot _ _ (.inl hu))
    · have hux := (hM.adjacent h hux).resolve_right (hnot _ _ (.inl hu))
      have hyv := (hM.adjacent h hyv).resolve_right (hnot _ _ (.inr hv))
      rw [hru] at hux
      rw [hrv] at hyv
      refine .inr ⟨_, _, ?_, ?_, hux, contract (fun a b hab => ?_) hxy, hyv⟩
      · rw [hM.vgige, vgige_redirect hm, hx]
      · rw [hM.vgige, vgige_redirect hm, hy]
      · obtain ⟨hva, hvb, hadj⟩ := hab
        obtain hadj | hj := hM.adjacent h hadj
        · refine .inr ⟨?_, ?_, hadj⟩
          · rw [hM.vgige, vgige_redirect hm, hva]
          · rw [hM.vgige, vgige_redirect hm, hvb]
        · exact .inl (redirect_eq_of_joins hj)

/-! ### All merges -/

/-- The request `s'` is what the merges may make of `s`. -/
structure Simplified (s s' : ReqTopology N L) : Prop where
  linked : s'.Linked
  vgige : ∀ n, s'.vgige n = s.vgige n
  links : ∀ l ∈ s'.links, l ∈ s.links
  nodes : ∀ n, s.vgige n = false → (n ∈ s'.nodes ↔ n ∈ s.nodes)
  connected : ∀ u v, s.vgige u = false → s.vgige v = false → (s'.Connected u v ↔ s.Connected u v)

theorem Simplified.refl (h : s.Linked) : s.Simplified s :=
  ⟨h, fun _ => rfl, fun _ hl => hl, fun _ _ => .rfl, fun _ _ _ _ => .rfl⟩

theorem Simplified.trans {t : ReqTopology N L} (h : s.Simplified s') (h' : s'.Simplified t) : s.Simplified t := by
  refine ⟨h'.linked, fun n => ?_, fun l hl => ?_, fun n hn => ?_, fun u v hu hv => ?_⟩
  · rw [h'.vgige, h.vgige]
  · exact h.links l (h'.links l hl)
  · rw [h'.nodes n (by rw [h.vgige, hn]), h.nodes n hn]
  · rw [h'.connected u v (by rw [h.vgige, hu]) (by rw [h.vgige, hv]), h.connected u v hu hv]

theorem Merged.simplified (hM : s.Merged reqlit s') (h : s.Linked) (hc : s.NoCycle) (hreq : reqlit ∈ s.links)
    (hm : s.mergeable reqlit = true) : s.Simplified s' := by
  refine ⟨hM.linked h hc hreq hm, hM.vgige, fun l hl => ((hM.mem h).mp hl).1, fun n hn => ?_, fun u v hu hv =>
    hM.connected h hreq hm hu hv⟩
  rw [hM.nodes, List.mem_filter, decide_eq_true_iff]
  refine and_iff_left fun heq => ?_
  rw [heq, (mergeable_iff.mp hm).2.1] at hn
  cases hn

/-- Every merge takes a link away. -/
theorem exists_mergeLoop (h : s.Linked) (hc : s.NoCycle) :
    ∃ s' bound, (∀ steps rounds, bound ≤ steps → s.links.length < rounds → mergeLoop steps rounds s = some s') ∧
      s.Simplified s' ∧ ∀ l ∈ s'.links, s'.mergeable l = false := by
  induction hn : s.links.length generalizing s with
  | zero =>
    refine ⟨s, 0, fun steps rounds _ hrounds => ?_, .refl h, fun l hl => ?_⟩
    · obtain ⟨rounds, rfl⟩ := Nat.exists_eq_add_one_of_ne_zero (Nat.pos_iff_ne_zero.mp hrounds)
      rw [mergeLoop, List.length_eq_zero_iff.mp hn, List.find?_nil]
    · rw [List.length_eq_zero_iff.mp hn] at hl
      exact absurd hl List.not_mem_nil
  | succ n ih =>
    cases hfind : s.links.find? s.mergeable with
    | none =>
      refine ⟨s, 0, fun steps rounds _ hrounds => ?_, .refl h, fun l hl => ?_⟩
      · obtain ⟨rounds, rfl⟩ := Nat.exists_eq_add_one_of_ne_zero (Nat.pos_iff_ne_zero.mp (Nat.zero_lt_of_lt hrounds))
        rw [mergeLoop, hfind]
      · exact Bool.eq_false_of_not_eq_true (List.find?_eq_none.mp hfind l hl)
    | some l =>
      have hl := List.mem_of_find?_eq_some hfind
      have hm := List.find?_some hfind
      obtain ⟨s1, hone, hM⟩ := exists_mergeNodes h hc hl hm
      have hlength : s1.links.length = n := by
        rw [hM.links, List.length_erase_of_mem hl, hn, Nat.add_sub_cancel]
      obtain ⟨s', bound, hloop, hs', hleft⟩ := ih (hM.linked h hc hl hm) (hM.noCycle h hc hl hm) hlength
      refine ⟨s', max bound ((s.node (s.link l).node2).links.length + 1), fun steps rounds hsteps hrounds => ?_,
        (hM.simplified h hc hl hm).trans hs', hleft⟩
      obtain ⟨rounds, rfl⟩ := Nat.exists_eq_add_one_of_ne_zero (Nat.pos_iff_ne_zero.mp (Nat.zero_lt_of_lt hrounds))
      obtain ⟨hbound, hsteps⟩ := max_le_iff.mp hsteps
      rw [mergeLoop, hfind]
      dsimp only
      rw [hone steps hsteps, Option.bind_some]
      exact hloop steps rounds hbound (Nat.lt_of_succ_lt_succ hrounds)

/-- The merges end. A topology with a fixed node stays the same. In another one, links and lists agree afterwards, the
nodes that are no vgige are connected as they were, and no link is left that can be merged. -/
theorem mergeVswitches_spec (h : s.Linked) (hc : s.NoCycle) :
    ∃ s' bound, (∀ steps rounds, bound ≤ steps → bound ≤ rounds → mergeVswitches steps rounds s = some s') ∧
      s.Simplified s' ∧
      if ∃ n ∈ s.nodes, (s.node n).fixed = true then s' = s
      else ∀ l ∈ s'.links, ¬(s'.vgige (s'.link l).node1 = true ∧ s'.vgige (s'.link l).node2 = true ∧
        (s'.link l).lload ≤ MAX_INTERCLUSTER_CAPACITY ∧ (s'.link l).rload ≤ MAX_INTERCLUSTER_CAPACITY) := by
  have hany : (s.nodes.any fun n => (s.node n).fixed) = true ↔ ∃ n ∈ s.nodes, (s.node n).fixed = true := List.any_eq_true
  by_cases hfixed : ∃ n ∈ s.nodes, (s.node n).fixed = true
  · refine ⟨s, 0, fun steps rounds _ _ => ?_, .refl h, ?_⟩
    · rw [mergeVswitches, if_pos (hany.mpr hfixed)]
    · rw [if_pos hfixed]
  · obtain ⟨s', bound, hloop, hs', hleft⟩ := exists_mergeLoop h hc
    refine ⟨s', max bound (s.links.length + 1), fun steps rounds hsteps hrounds => ?_, hs', ?_⟩
    · rw [mergeVswitches, if_neg fun hf => hfixed (hany.mp hf)]
      exact hloop steps rounds (max_le_iff.mp hsteps).1 (max_le_iff.mp hrounds).2
    · rw [if_neg hfixed]
      intro l hl hm
      have hnot := hleft l hl
      rw [mergeable_iff.mpr hm] at hnot
      cases hnot

local instance neZero_nodes : NeZero 4 := ⟨by decide⟩

local instance neZero_links : NeZero 3 := ⟨by decide⟩

/-- Two vgige nodes with a link and a host each. -/
def vgigePair (fixed : Bool) : ReqTopology (Fin 4) (Fin 3) where
  node n := match n with
    | 0 => { type := "ixp", links := [0], fixed }
    | 1 => { type := "vgige", links := [0, 1] }
    | 2 => { type := "vgige", links := [1, 2] }
    | 3 => { type := "ixp", links := [2] }
  link l := match l with
    | 0 => { node1 := 0, node2 := 1 }
    | 1 => { node1 := 1, node2 := 2 }
    | 2 => { node1 := 2, node2 := 3 }
  nodes := [0, 1, 2, 3]
  links := [0, 1, 2]

theorem vgigePair_linked (fixed : Bool) : (vgigePair fixed).Linked := by
  cases fixed
  · exact ⟨by decide, by decide, by decide⟩
  · exact ⟨by decide, by decide, by decide⟩

theorem vgigePair_noCycle (fixed : Bool) : (vgigePair fixed).NoCycle := by
  have hone : ∀ l, (vgigePair fixed).vgige ((vgigePair fixed).link l).node1 = true →
      (vgigePair fixed).vgige ((vgigePair fixed).link l).node2 = true → l = 1 := by
    cases fixed
    · decide
    · decide
  intro l _ hv1 hv2
  obtain rfl := hone l hv1 hv2
  refine .inl ⟨by decide +revert, fun hwalk => ?_⟩
  obtain heq | ⟨_, ⟨m, -, hm, hmm, -⟩, -⟩ := hwalk.cases_head
  · revert heq
    cases fixed
    · decide
    · decide
  · obtain ⟨h1, h2, -⟩ := mergeable_iff.mp hmm
    exact hm (hone m h1 h2)

theorem mergeVswitches_vgigePair :
    ∃ s' bound, (∀ steps rounds, bound ≤ steps → bound ≤ rounds →
        mergeVswitches steps rounds (vgigePair false) = some s') ∧
      (vgigePair false).Simplified s' ∧
      if ∃ n ∈ (vgigePair false).nodes, ((vgigePair false).node n).fixed = true then s' = vgigePair false
      else ∀ l ∈ s'.links, ¬(s'.vgige (s'.link l).node1 = true ∧ s'.vgige (s'.link l).node2 = true ∧
        (s'.link l).lload ≤ MAX_INTERCLUSTER_CAPACITY ∧ (s'.link l).rload ≤ MAX_INTERCLUSTER_CAPACITY) :=
  mergeVswitches_spec (vgigePair_linked false) (vgigePair_noCycle false)

/-- With a fixed node, a link that could be merged is left. -/
theorem mergeVswitches_fixed_pair : (vgigePair true).Linked ∧ (vgigePair true).NoCycle ∧
    ∀ steps rounds, ∃ s', mergeVswitches steps rounds (vgigePair true) = some s' ∧ 1 ∈ s'.links ∧
      (s'.link 1).node1 ≠ (s'.link 1).node2 ∧ s'.vgige (s'.link 1).node1 = true ∧
      s'.vgige (s'.link 1).node2 = true ∧ (s'.link 1).lload < MAX_INTERCLUSTER_CAPACITY ∧
      (s'.link 1).rload < MAX_INTERCLUSTER_CAPACITY :=
  ⟨vgigePair_linked true, vgigePair_noCycle true, fun _ _ =>
    ⟨vgigePair true, rfl, by decide, by decide, by decide, by decide, by decide, by decide⟩⟩

end ReqTopology

end OnlDaemons.Onldb

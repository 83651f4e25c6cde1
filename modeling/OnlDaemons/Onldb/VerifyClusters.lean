import OnlDaemons.Onldb.ReservationQueries
import OnlDaemons.Onldb.Topology
import Mathlib.Data.List.Nodup
import Mathlib.Data.List.Perm.Basic
import Mathlib.Data.List.Range
import Mathlib.Tactic.IntervalCases

/-!
# Clusters

`verify_clusters` looks at the nodes that are put into a cluster. The first of a cluster makes an abstract topology
from the description of the cluster in the table `clustercomps`, and each of them takes a node of its type there. In
the end no node of an abstract topology may be left.

Nodes without a parent are skipped: they are marked from the beginning. The marks of the links, which the function does
not look at, are left out.

## Main definitions

- `verifyClusters`
- `remaining` — the types of the nodes of an abstract topology that are not marked
- `ClustersOk` — what the topology has to satisfy

## Main results

- `verifyClusters_iff`
-/

namespace OnlDaemons.Onldb

structure ClusterElem where
  compid : ℕ
  type : String
deriving DecidableEq

/-- The table `clustercomps`. The number of a component and the type of the cluster are its key. -/
structure ClusterTable where
  comps : String → List ClusterElem
  key : ∀ tid, ((comps tid).map (·.compid)).Nodup

/-- `topology_resource`: the label of a cluster, with its abstract topology and the nodes of it that are marked. -/
structure AbstractTop where
  label : ℕ
  cluster : Topology
  marked : List ℕ := []

instance : Inhabited AbstractTop := ⟨⟨0, {}, []⟩⟩

def AbstractTop.mark (j : ℕ) (top : AbstractTop) : AbstractTop := { top with marked := j :: top.marked }

structure ClusterScan where
  marked : ℕ → Bool
  abstractTops : List AbstractTop := []

namespace Topology

def inconsistent {α : Type} : Except OnldbResp α := .error ⟨-1, "database consistency problem"⟩

/-- The cluster from the description in the database. -/
def buildCluster (ces : List ClusterElem) : Except String Topology :=
  ces.foldlM (fun cluster ce => cluster.addNode ce.type ce.compid 0 false 1 1) {}

/-- If there is no abstract topology for this cluster yet, add it. -/
def addAbstractTop (table : ClusterTable) (pl : ℕ) (pt : String) (abstractTops : List AbstractTop) :
    Except OnldbResp (List AbstractTop) :=
  if abstractTops.any (fun top => top.label = pl) then .ok abstractTops
  else match table.comps pt with
    | [] => inconsistent
    | ces => match buildCluster ces with
      | .error _ => inconsistent
      | .ok cluster => .ok (abstractTops ++ [⟨pl, cluster, []⟩])

/-- The first node of the type that is not marked. -/
def fits (top : AbstractTop) (type : String) : Option ℕ :=
  (List.range top.cluster.nodes.length).find? fun j => j ∉ top.marked ∧ (top.cluster.node j).type = type

variable (table : ClusterTable) (devType : ℕ → String) (t : Topology)

/-- One node of the topology, with its parent. -/
def verifyChild (a p : ℕ) (s : ClusterScan) : Except OnldbResp ClusterScan :=
  let pl := (t.node p).label
  let pt := (t.node p).type
  if devType p ≠ "hwcluster" then .error ⟨-1, "node " ++ toString pl ++ " is not a valid cluster type"⟩
  else match addAbstractTop table pl pt s.abstractTops with
    | .error r => .error r
    | .ok abstractTops =>
      let i := abstractTops.findIdx fun top => top.label = pl
      match fits (abstractTops.getD i default) (t.node a).type with
      | none =>
        .error ⟨-1, "node " ++ toString (t.node a).label ++ " does not fit into cluster type " ++ pt⟩
      | some j => .ok ⟨Function.update s.marked a true, abstractTops.modify i (AbstractTop.mark j)⟩

/-- A node that is marked is skipped; the others have a parent. -/
def verifyNode (s : ClusterScan) (a : ℕ) : Except OnldbResp ClusterScan :=
  if s.marked a then .ok s
  else match (t.node a).parent with
    | none => .ok s
    | some p => verifyChild table devType t a p s

/-- A node of the abstract topology is left. -/
def incomplete (top : AbstractTop) : Bool := (List.range top.cluster.nodes.length).any fun j => j ∉ top.marked

def verifyClusters : OnldbResp :=
  match (List.range t.nodes.length).foldlM (verifyNode table devType t) ⟨fun a => (t.node a).parent.isNone, []⟩ with
  | .error r => r
  | .ok s => match s.abstractTops.find? incomplete with
    | some top => ⟨-1, "cluster " ++ toString top.label ++ " is incomplete"⟩
    | none => ⟨1, "success"⟩

/-! ### What is verified -/

/-- The types of some nodes that are put into a cluster. -/
def typesIn (p : ℕ) (as : List ℕ) : List String :=
  (as.filter fun a => (t.node a).parent = some p).map fun a => (t.node a).type

/-- The types of the nodes of a cluster. -/
def childTypes (p : ℕ) : List String := t.typesIn p (List.range t.nodes.length)

/-- The types that the table gives for a cluster. -/
def clusterTypes (type : String) : List String := (table.comps type).map fun ce => lowercase ce.type

/-- The types of the nodes that are left of an abstract topology. -/
def remaining (top : AbstractTop) : List String :=
  ((List.range top.cluster.nodes.length).filter fun j => j ∉ top.marked).map fun j => (top.cluster.node j).type

/-- Each parent is a hardware cluster, and the nodes of each cluster have the types in the table, as often as there. -/
structure ClustersOk : Prop where
  parent : ∀ a < t.nodes.length, ∀ p, (t.node a).parent = some p → devType p = "hwcluster"
  children : ∀ p < t.nodes.length, devType p = "hwcluster" →
    (t.childTypes p).Perm (clusterTypes table (t.node p).type)

variable {table : ClusterTable} {devType : ℕ → String} {t : Topology} {top : AbstractTop} {tops : List AbstractTop}
  {s : ClusterScan} {a p j : ℕ} {as bs done : List ℕ} {type : String}

theorem typesIn_append (p : ℕ) (as bs : List ℕ) : t.typesIn p (as ++ bs) = t.typesIn p as ++ t.typesIn p bs := by
  rw [typesIn, List.filter_append, List.map_append]
  rfl

theorem typesIn_singleton (p a : ℕ) :
    t.typesIn p [a] = if (t.node a).parent = some p then [(t.node a).type] else [] := by
  by_cases h : (t.node a).parent = some p
  · rw [if_pos h, typesIn, List.filter_singleton, decide_eq_true h]
    rfl
  · rw [if_neg h, typesIn, List.filter_singleton, decide_eq_false h]
    rfl

theorem typesIn_eq_nil (h : ∀ a ∈ as, (t.node a).parent ≠ some p) : t.typesIn p as = [] := by
  rw [typesIn, List.filter_eq_nil_iff.mpr]
  · rfl
  · intro a ha
    rw [decide_eq_true_iff]
    exact h a ha

/-! ### An abstract topology -/

/-- The description of a cluster makes an abstract topology: its components have different numbers. -/
theorem exists_buildCluster (ces : List ClusterElem) (h : (ces.map (·.compid)).Nodup) :
    ∃ cluster, buildCluster ces = .ok cluster ∧ cluster.nodes.map (·.type) = ces.map fun ce => lowercase ce.type := by
  suffices hbuild : ∀ cluster : Topology, (∀ n ∈ cluster.nodes, n.label ∉ ces.map (·.compid)) →
      ∃ cluster', ces.foldlM (fun cluster ce => cluster.addNode ce.type ce.compid 0 false 1 1) cluster = .ok cluster' ∧
        cluster'.nodes.map (·.type) = cluster.nodes.map (·.type) ++ ces.map fun ce => lowercase ce.type from
    hbuild {} nofun
  induction ces with
  | nil => exact fun cluster _ => ⟨cluster, rfl, (List.append_nil _).symm⟩
  | cons ce ces ih =>
    intro cluster hfree
    obtain ⟨hnew, hrest⟩ := List.nodup_cons.mp h
    have hany : cluster.nodes.any (fun n => n.label = ce.compid) = false := by
      rw [List.any_eq_false]
      intro n hn
      rw [decide_eq_true_iff]
      exact fun heq => hfree n hn (heq ▸ List.mem_cons_self)
    have hadd : cluster.addNode ce.type ce.compid 0 false 1 1 =
        .ok { cluster with nodes := cluster.nodes ++ [{ type := lowercase ce.type, label := ce.compid }] } := by
      unfold addNode
      rw [hany]
      rfl
    obtain ⟨cluster', hfold, htypes⟩ := ih hrest
      { cluster with nodes := cluster.nodes ++ [{ type := lowercase ce.type, label := ce.compid }] } (by
        intro n hn
        obtain hn | hn := List.mem_append.mp hn
        · exact fun hmem => hfree n hn (List.mem_cons_of_mem _ hmem)
        · rw [List.mem_singleton.mp hn]
          exact hnew)
    refine ⟨cluster', ?_, ?_⟩
    · rw [List.foldlM_cons, hadd]
      exact hfold
    · rw [htypes, List.map_append, List.append_assoc]
      rfl

/-- All nodes of a new abstract topology are left. -/
theorem remaining_new (pl : ℕ) (cluster : Topology) : remaining ⟨pl, cluster, []⟩ = cluster.nodes.map (·.type) := by
  unfold remaining
  rw [List.filter_eq_self.mpr]
  · refine List.ext_getElem (by simp) fun j h1 h2 => ?_
    rw [List.getElem_map, List.getElem_map, List.getElem_range, node, List.getD_eq_getElem]
  · exact fun j _ => decide_eq_true List.not_mem_nil

/-- A node that fits is taken away from those that are left. -/
theorem remaining_mark (h : fits top type = some j) : (remaining top).Perm (type :: remaining (top.mark j)) := by
  obtain ⟨hfits, hmem⟩ := And.intro (List.find?_some h) (List.mem_of_find?_eq_some h)
  rw [decide_eq_true_iff] at hfits
  obtain ⟨hfree, rfl⟩ := hfits
  have hin : j ∈ (List.range top.cluster.nodes.length).filter fun j => j ∉ top.marked :=
    List.mem_filter.mpr ⟨hmem, decide_eq_true hfree⟩
  have hperm := (List.perm_cons_erase hin).map fun j => (top.cluster.node j).type
  rw [List.map_cons, (List.nodup_range.filter _).erase_eq_filter, List.filter_filter] at hperm
  unfold remaining
  refine hperm.trans (List.Perm.of_eq ?_)
  have hsame : ∀ k, ((k != j) && decide (k ∉ top.marked)) = decide (k ∉ (top.mark j).marked) := by
    intro k
    by_cases hk : k = j
    · simp [AbstractTop.mark, hk]
    · simp [AbstractTop.mark, hk]
  simp only [hsame]
  rfl

/-- Where no node fits, none of the type is left. -/
theorem not_mem_remaining (h : fits top type = none) : type ∉ remaining top := by
  intro hmem
  obtain ⟨j, hj, rfl⟩ := List.mem_map.mp hmem
  obtain ⟨hj, hfree⟩ := List.mem_filter.mp hj
  have hno := List.find?_eq_none.mp h j hj
  rw [decide_eq_true_iff] at hno hfree
  exact hno ⟨hfree, rfl⟩

theorem incomplete_eq_false : incomplete top = false ↔ remaining top = [] := by
  rw [incomplete, List.any_eq_false, remaining, List.map_eq_nil_iff, List.filter_eq_nil_iff]

/-! ### The nodes, one after the other -/

/-- What an abstract topology stands for, after some nodes: what they have taken and what is left make the cluster. -/
def Stands (table : ClusterTable) (devType : ℕ → String) (t : Topology) (done : List ℕ) (top : AbstractTop) : Prop :=
  ∃ p < t.nodes.length, (t.node p).label = top.label ∧ devType p = "hwcluster" ∧
    (t.typesIn p done ++ remaining top).Perm (clusterTypes table (t.node p).type)

/-- The scan after some nodes. -/
structure Scanned (table : ClusterTable) (devType : ℕ → String) (t : Topology) (done : List ℕ) (s : ClusterScan) :
    Prop where
  marked : ∀ a, a ∉ done → s.marked a = (t.node a).parent.isNone
  nodup : (s.abstractTops.map (·.label)).Nodup
  stands : ∀ top ∈ s.abstractTops, Stands table devType t done top
  covered : ∀ a ∈ done, ∀ p, (t.node a).parent = some p →
    devType p = "hwcluster" ∧ ∃ top ∈ s.abstractTops, top.label = (t.node p).label

theorem scanned_nil : Scanned table devType t [] ⟨fun a => (t.node a).parent.isNone, []⟩ where
  marked _ _ := rfl
  nodup := List.nodup_nil
  stands := nofun
  covered := nofun

/-- The cluster of a node has an abstract topology, or gets one, or the table has none. -/
theorem Scanned.addAbstractTop (h : Scanned table devType t done s) (hp : p < t.nodes.length)
    (hdev : devType p = "hwcluster") :
    (addAbstractTop table (t.node p).label (t.node p).type s.abstractTops = inconsistent ∧
        clusterTypes table (t.node p).type = []) ∨
      ∃ tops, addAbstractTop table (t.node p).label (t.node p).type s.abstractTops = .ok tops ∧
        (tops.map (·.label)).Nodup ∧ (∀ top ∈ tops, Stands table devType t done top) ∧
          (∀ top ∈ s.abstractTops, top ∈ tops) ∧ ∃ top ∈ tops, top.label = (t.node p).label := by
  unfold Topology.addAbstractTop
  by_cases hany : s.abstractTops.any (fun top => top.label = (t.node p).label) = true
  · rw [if_pos hany]
    obtain ⟨top, htop, hlabel⟩ := List.any_eq_true.mp hany
    exact .inr ⟨_, rfl, h.nodup, h.stands, fun _ h => h, top, htop, of_decide_eq_true hlabel⟩
  · rw [if_neg hany]
    have hnew : ∀ top ∈ s.abstractTops, top.label ≠ (t.node p).label := by
      intro top htop hlabel
      exact hany (List.any_eq_true.mpr ⟨top, htop, decide_eq_true hlabel⟩)
    have hkey := table.key (t.node p).type
    unfold clusterTypes at *
    cases hces : table.comps (t.node p).type with
    | nil => exact .inl ⟨rfl, rfl⟩
    | cons ce ces =>
      rw [hces] at hkey
      obtain ⟨cluster, hbuild, htypes⟩ := exists_buildCluster (ce :: ces) hkey
      refine .inr ⟨s.abstractTops ++ [⟨(t.node p).label, cluster, []⟩], by simp only [hbuild], ?_, ?_, ?_, ?_⟩
      · rw [List.map_append, List.nodup_append]
        refine ⟨h.nodup, List.nodup_singleton _, fun l hl m hm => ?_⟩
        obtain ⟨top, htop, rfl⟩ := List.mem_map.mp hl
        rw [List.map_singleton, List.mem_singleton] at hm
        rw [hm]
        exact hnew top htop
      · intro top htop
        obtain htop | htop := List.mem_append.mp htop
        · exact h.stands top htop
        · rw [List.mem_singleton.mp htop]
          -- none of the nodes before has been put into this cluster
          have hnone : t.typesIn p done = [] := typesIn_eq_nil fun a ha hpar => by
            obtain ⟨-, top, htop, hlabel⟩ := h.covered a ha p hpar
            exact hnew top htop hlabel
          refine ⟨p, hp, rfl, hdev, ?_⟩
          rw [hnone, List.nil_append, remaining_new, htypes, clusterTypes, hces]
      · exact fun top htop => List.mem_append_left _ htop
      · exact ⟨_, List.mem_append_right _ List.mem_cons_self, rfl⟩

/-- A node that is put into no cluster. -/
theorem Scanned.skip (h : Scanned table devType t done s) (hpar : (t.node a).parent = none) :
    Scanned table devType t (done ++ [a]) s := by
  refine ⟨fun b hb => h.marked b fun hb' => hb (List.mem_append_left _ hb'), h.nodup, fun top htop => ?_,
    fun b hb p hp => ?_⟩
  · obtain ⟨p, hp, hlabel, hdev, hperm⟩ := h.stands top htop
    refine ⟨p, hp, hlabel, hdev, ?_⟩
    rw [typesIn_append, typesIn_singleton, if_neg (by rw [hpar]; nofun), List.append_nil]
    exact hperm
  · obtain hb | hb := List.mem_append.mp hb
    · exact h.covered b hb p hp
    · rw [List.mem_singleton.mp hb, hpar] at hp
      cases hp

theorem labels_modify (tops : List AbstractTop) (i j : ℕ) :
    (tops.modify i (AbstractTop.mark j)).map (·.label) = tops.map (·.label) := by
  refine List.ext_getElem (by simp) fun k h1 h2 => ?_
  rw [List.getElem_map, List.getElem_map, List.getElem_modify]
  split
  · rfl
  · rfl

/-- The types of a cluster: those of the nodes before, of one node and of the nodes after it. -/
theorem childTypes_split (hsplit : List.range t.nodes.length = done ++ a :: bs) (hpar : (t.node a).parent = some p) :
    t.childTypes p = t.typesIn p done ++ (t.node a).type :: t.typesIn p bs := by
  rw [childTypes, hsplit, typesIn_append, show a :: bs = [a] ++ bs from rfl, typesIn_append, typesIn_singleton,
    if_pos hpar]
  rfl

/-- A node takes a node of its type in the abstract topology of its cluster. -/
theorem Scanned.take (hwf : t.Wf) (h : Scanned table devType t done s) (hp : p < t.nodes.length)
    (hpar : (t.node a).parent = some p) (hdev : devType p = "hwcluster") (hnodup : (tops.map (·.label)).Nodup)
    (hstands : ∀ top ∈ tops, Stands table devType t done top) (hold : ∀ top ∈ s.abstractTops, top ∈ tops) {i : ℕ}
    (hidx : i < tops.length) (hlabel : tops[i].label = (t.node p).label)
    (hfits : fits tops[i] (t.node a).type = some j) : Scanned table devType t (done ++ [a])
      ⟨Function.update s.marked a true, tops.modify i (AbstractTop.mark j)⟩ := by
  have hmem : ∀ top ∈ tops, ∃ top' ∈ tops.modify i (AbstractTop.mark j), top'.label = top.label := by
    intro top htop
    have hl := List.mem_map_of_mem (f := (·.label)) htop
    rw [← labels_modify tops i j] at hl
    exact List.mem_map.mp hl
  constructor
  case marked =>
    intro b hb
    rw [List.mem_append, not_or, List.mem_singleton] at hb
    exact (Function.update_of_ne hb.2 _ _).trans (h.marked b hb.1)
  case nodup =>
    rw [labels_modify]
    exact hnodup
  case stands =>
    intro top htop
    obtain ⟨k, hk, rfl⟩ := List.mem_iff_getElem.mp htop
    rw [List.length_modify] at hk
    rw [List.getElem_modify]
    obtain ⟨q, hq, hql, hqd, hqp⟩ := hstands _ (List.getElem_mem hk)
    by_cases hik : i = k
    · subst hik
      obtain rfl : q = p := hwf.label_inj q hq p hp (hql.trans hlabel)
      rw [if_pos rfl]
      refine ⟨q, hq, hql, hdev, ?_⟩
      rw [typesIn_append, typesIn_singleton, if_pos hpar, List.append_assoc]
      exact (((remaining_mark hfits).append_left _).symm).trans hqp
    · rw [if_neg hik]
      refine ⟨q, hq, hql, hqd, ?_⟩
      have hne : (t.node a).parent ≠ some q := by
        rw [hpar]
        rintro heq
        cases heq
        have hsame := List.inj_on_of_nodup_map hnodup (List.getElem_mem hidx) (List.getElem_mem hk) (hlabel.trans hql)
        exact hik ((List.Nodup.of_map _ hnodup).getElem_inj_iff.mp hsame)
      rw [typesIn_append, typesIn_singleton, if_neg hne, List.append_nil]
      exact hqp
  case covered =>
    intro b hb q hq
    obtain hb | hb := List.mem_append.mp hb
    · obtain ⟨hqd, top, htop, hql⟩ := h.covered b hb q hq
      obtain ⟨top', htop', heq⟩ := hmem top (hold top htop)
      exact ⟨hqd, top', htop', heq.trans hql⟩
    · rw [List.mem_singleton.mp hb, hpar] at hq
      cases hq
      obtain ⟨top', htop', heq⟩ := hmem _ (List.getElem_mem hidx)
      exact ⟨hdev, top', htop', heq.trans hlabel⟩

/-- A node that is put into a cluster: it takes a node of its type, or the clusters are not in order. -/
theorem Scanned.verifyChild (hwf : t.Wf) (h : Scanned table devType t done s)
    (hsplit : List.range t.nodes.length = done ++ a :: bs) (hpar : (t.node a).parent = some p) :
    (∃ r, verifyChild table devType t a p s = .error r ∧ r.result ≠ 1 ∧ ¬ClustersOk table devType t) ∨
      ∃ s', verifyChild table devType t a p s = .ok s' ∧ Scanned table devType t (done ++ [a]) s' := by
  have ha : a < t.nodes.length := by
    rw [← List.mem_range, hsplit]
    exact List.mem_append_right _ List.mem_cons_self
  have hp := (hwf.parent a ha p hpar).1
  have htypes := childTypes_split hsplit hpar
  unfold Topology.verifyChild
  by_cases hdev : devType p = "hwcluster"
  · rw [if_neg (not_not.mpr hdev)]
    obtain ⟨hbad, hempty⟩ | ⟨tops, htops, hnodup, hstands, hold, top, htop, hhas⟩ := h.addAbstractTop hp hdev
    · rw [hbad]
      refine .inl ⟨_, rfl, by decide, fun hok => ?_⟩
      have hperm := hok.children p hp hdev
      rw [hempty, htypes] at hperm
      exact absurd hperm.eq_nil (by simp)
    · rw [htops]
      have hidx : tops.findIdx (fun top => top.label = (t.node p).label) < tops.length :=
        List.findIdx_lt_length_of_exists ⟨top, htop, decide_eq_true hhas⟩
      have hlabel := of_decide_eq_true (List.findIdx_getElem (w := hidx))
      dsimp only
      generalize tops.findIdx (fun top => top.label = (t.node p).label) = i at hidx hlabel ⊢
      rw [List.getD_eq_getElem _ _ hidx]
      cases hfits : fits tops[i] (t.node a).type with
      | none =>
        refine .inl ⟨_, rfl, (by decide : (-1 : ℤ) ≠ 1), fun hok => ?_⟩
        obtain ⟨q, hq, hql, -, hperm⟩ := hstands _ (List.getElem_mem hidx)
        obtain rfl : q = p := hwf.label_inj q hq p hp (hql.trans hlabel)
        have hboth := (hok.children q hp hdev).trans hperm.symm
        rw [htypes] at hboth
        have hrest := (List.perm_append_left_iff _).mp hboth
        exact not_mem_remaining hfits (hrest.mem_iff.mp List.mem_cons_self)
      | some j => exact .inr ⟨_, rfl, h.take hwf hp hpar hdev hnodup hstands hold hidx hlabel hfits⟩
  · rw [if_pos hdev]
    exact .inl ⟨_, rfl, (by decide : (-1 : ℤ) ≠ 1), fun hok => hdev (hok.parent a ha p hpar)⟩

/-- All nodes. -/
theorem scanned_foldlM (hwf : t.Wf) (rest : List ℕ) (hsplit : List.range t.nodes.length = done ++ rest)
    (h : Scanned table devType t done s) :
    (∃ r, rest.foldlM (verifyNode table devType t) s = .error r ∧ r.result ≠ 1 ∧ ¬ClustersOk table devType t) ∨
      ∃ s', rest.foldlM (verifyNode table devType t) s = .ok s' ∧
        Scanned table devType t (List.range t.nodes.length) s' := by
  induction rest generalizing done s with
  | nil =>
    rw [List.append_nil] at hsplit
    exact .inr ⟨s, rfl, hsplit ▸ h⟩
  | cons a rest ih =>
    have hnew : a ∉ done := by
      have hnodup := List.nodup_range (n := t.nodes.length)
      rw [hsplit] at hnodup
      exact fun hmem => (List.nodup_append.mp hnodup).2.2 a hmem a List.mem_cons_self rfl
    have hnext : List.range t.nodes.length = (done ++ [a]) ++ rest := by
      rw [hsplit, List.append_assoc]
      rfl
    rw [List.foldlM_cons]
    unfold verifyNode
    rw [h.marked a hnew]
    cases hpar : (t.node a).parent with
    | none => exact ih hnext (h.skip hpar)
    | some p =>
      rw [show (some p).isNone = false from rfl, if_neg Bool.false_ne_true]
      obtain ⟨r, hr, hbad⟩ | ⟨s', hs', hscan⟩ := h.verifyChild hwf hsplit hpar
      · refine .inl ⟨r, ?_, hbad⟩
        simp only [hr]
        rfl
      · simp only [hs']
        exact ih hnext hscan

/-- The clusters are in order if and only if nothing of the abstract topologies is left. -/
theorem Scanned.ok_iff (hwf : t.Wf) (h : Scanned table devType t (List.range t.nodes.length) s)
    (hchild : ∀ p < t.nodes.length, devType p = "hwcluster" → ∃ a < t.nodes.length, (t.node a).parent = some p) :
    ClustersOk table devType t ↔ ∀ top ∈ s.abstractTops, remaining top = [] := by
  constructor
  · intro hok top htop
    obtain ⟨p, hp, -, hdev, hperm⟩ := h.stands top htop
    have hboth := hperm.trans (hok.children p hp hdev).symm
    rw [show t.childTypes p = t.childTypes p ++ [] from (List.append_nil _).symm] at hboth
    exact ((List.perm_append_left_iff _).mp hboth).eq_nil
  · intro hleft
    refine ⟨fun a ha p hpar => (h.covered a (List.mem_range.mpr ha) p hpar).1, fun p hp hdev => ?_⟩
    obtain ⟨a, ha, hpar⟩ := hchild p hp hdev
    obtain ⟨-, top, htop, hlabel⟩ := h.covered a (List.mem_range.mpr ha) p hpar
    obtain ⟨q, hq, hql, -, hperm⟩ := h.stands top htop
    obtain rfl : q = p := hwf.label_inj q hq p hp (hql.trans hlabel)
    rw [hleft top htop, List.append_nil] at hperm
    exact hperm

/-- Where each hardware cluster has a node, `verify_clusters` succeeds if and only if the clusters are in order. -/
theorem verifyClusters_iff (hwf : t.Wf)
    (hchild : ∀ p < t.nodes.length, devType p = "hwcluster" → ∃ a < t.nodes.length, (t.node a).parent = some p) :
    (verifyClusters table devType t).result = 1 ↔ ClustersOk table devType t := by
  unfold verifyClusters
  obtain ⟨r, hr, hres, hbad⟩ | ⟨s, hs, hscan⟩ := scanned_foldlM hwf (List.range t.nodes.length) rfl
    (scanned_nil : Scanned table devType t [] _)
  · rw [hr]
    exact ⟨fun h => absurd h hres, fun h => absurd h hbad⟩
  · rw [hs, hscan.ok_iff hwf hchild]
    cases hfind : s.abstractTops.find? incomplete with
    | some top =>
      refine ⟨fun h => absurd (show (-1 : ℤ) = 1 by simpa only [hfind] using h) (by decide), fun h => ?_⟩
      have hinc := List.find?_some hfind
      rw [incomplete_eq_false.mpr (h top (List.mem_of_find?_eq_some hfind))] at hinc
      cases hinc
    | none =>
      refine ⟨fun _ top htop => ?_, fun _ => by simp only [hfind]⟩
      rw [← incomplete_eq_false, ← Bool.not_eq_true]
      exact List.find?_eq_none.mp hfind top htop

/-! ### A cluster with two parts -/

/-- Clusters have two parts. -/
def twoParts : ClusterTable where
  comps tid := if tid = "cluster" then [⟨1, "part"⟩, ⟨2, "part"⟩] else []
  key tid := by
    split
    · decide
    · exact List.nodup_nil

def wholeCluster : Topology where
  nodes := [{ type := "cluster", label := 1, isParent := true, nodeChildren := [1, 2] },
    { type := "part", label := 2, parent := some 0 }, { type := "part", label := 3, parent := some 0 }]

def onlyPart : Topology where
  nodes := [{ type := "part", label := 1 }]

/-- A computer that is put into a computer. -/
def pcInPc : Topology where
  nodes := [{ type := "pc", label := 1, isParent := true, nodeChildren := [1] },
    { type := "pc", label := 2, parent := some 0 }]

theorem wholeCluster_wf : wholeCluster.Wf := by
  have h₁ := addNode_wf wf_empty (rfl : addNode {} "cluster" 1 0 false 1 1 = .ok _)
  have h₂ := addNode_wf h₁ (rfl : addNode _ "part" 2 1 false 1 1 = .ok _)
  have h₃ := addNode_wf h₂ (rfl : addNode _ "part" 3 1 false 1 1 = .ok _)
  refine h₃.congr rfl rfl ?_
  intro a ha
  change a < 3 at ha
  interval_cases a <;> exact ⟨rfl, rfl, rfl, rfl⟩

theorem onlyPart_wf : onlyPart.Wf := by
  refine (addNode_wf wf_empty (rfl : addNode {} "part" 1 0 false 1 1 = .ok _)).congr rfl rfl ?_
  intro a ha
  change a < 1 at ha
  interval_cases a
  exact ⟨rfl, rfl, rfl, rfl⟩

theorem pcInPc_wf : pcInPc.Wf := by
  have h₁ := addNode_wf wf_empty (rfl : addNode {} "pc" 1 0 false 1 1 = .ok _)
  refine (addNode_wf h₁ (rfl : addNode _ "pc" 2 1 false 1 1 = .ok _)).congr rfl rfl ?_
  intro a ha
  change a < 2 at ha
  interval_cases a <;> exact ⟨rfl, rfl, rfl, rfl⟩

theorem verifyClusters_wholeCluster :
    (verifyClusters twoParts (fun a => if a = 0 then "hwcluster" else "") wholeCluster).result = 1 ↔
      ClustersOk twoParts (fun a => if a = 0 then "hwcluster" else "") wholeCluster :=
  verifyClusters_iff wholeCluster_wf fun p _ hdev =>
    ⟨1, by decide, by
      by_cases hp : p = 0
      · rw [hp]
        rfl
      · rw [if_neg hp] at hdev
        exact absurd hdev (by decide)⟩

/-- A parent that is not a cluster is rejected, and a part without a parent is not. -/
theorem verifyClusters_parents :
    (¬∀ (table : ClusterTable) (devType : ℕ → String) (t : Topology) (partOnly : String → Prop), t.Wf →
      (∀ p < t.nodes.length, devType p = "hwcluster" → (t.childTypes p).Perm (clusterTypes table (t.node p).type)) →
      (∀ a < t.nodes.length, partOnly (t.node a).type →
        ∃ p, (t.node a).parent = some p ∧ devType p = "hwcluster") →
      (verifyClusters table devType t).result = 1) ∧
    ¬∀ (table : ClusterTable) (devType : ℕ → String) (t : Topology) (partOnly : String → Prop), t.Wf →
      (verifyClusters table devType t).result = 1 → ∀ a < t.nodes.length, partOnly (t.node a).type →
        ∃ p, (t.node a).parent = some p ∧ devType p = "hwcluster" := by
  constructor
  · intro h
    have hone := h twoParts (fun _ => "") pcInPc (· = "part") pcInPc_wf (fun _ _ hdev => absurd hdev (by decide)) (by
      intro a ha hpart
      change a < 2 at ha
      interval_cases a
      · exact absurd hpart (by decide)
      · exact absurd hpart (by decide))
    exact absurd hone (by decide)
  · intro h
    obtain ⟨p, hpar, -⟩ := h twoParts (fun _ => "") onlyPart (· = "part") onlyPart_wf (by decide) 0 (by decide) rfl
    cases hpar

end Topology

end OnlDaemons.Onldb

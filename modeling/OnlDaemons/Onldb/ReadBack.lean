import Mathlib.Data.List.Find
import OnlDaemons.Onldb.StoredNodes

/-!
# A stored reservation reads back

The nodes and links that are read are compared with the request they were stored for: the nodes
by their label mapping, each link with the link that is read under its number.

## Main definitions

- `MappedTopology.ReadBack` — the reservation reads back as the topology that was stored
- `MappedTopology.Kept` — nothing of the request is lost in the rows or while they are read

## Main result

- `readBack_iff_kept`
-/

namespace OnlDaemons.Onldb

open Lib

/-! ### What is kept -/

/-- The first node of the connection of a pass, and its port. -/
def Pass.firstNode (db : Database) (p : Pass) : String × ℕ :=
  ((p.connection db).node1, (p.connection db).node1port)

/-- The loads and the capacity of the link are those in the row of the pass. -/
def Pass.Carries (l : MappedLink) (p : Pass) : Prop :=
  smallint (p.capacity l) = l.capacity ∧ smallint (p.loads l).1 = l.rload ∧
    smallint (p.loads l).2 = l.lload

instance (l : MappedLink) (p : Pass) : Decidable (p.Carries l) :=
  inferInstanceAs (Decidable (_ ∧ _))

/-- The port of the last connection whose first node has this name. -/
def lastPort (name : String) (conns : List (String × ℕ)) : Option ℕ :=
  (conns.filter (fun c => c.1 = name)).getLast?.map Prod.snd

namespace MappedTopology

/-- A link that is read has the ends, the real ports, the capacity and the loads of the user's
link. -/
structure SameLink (t : MappedTopology) (t' : Topology) (l : MappedLink) (m : LinkResource) :
    Prop where
  node1 : (t.out l.end1.node).Reads (t'.node m.end1.node).key
  node2 : (t.out l.end2.node).Reads (t'.node m.end2.node).key
  rport1 : m.end1.rport = l.end1.rport
  rport2 : m.end2.rport = l.end2.rport
  capacity : m.capacity = l.capacity
  rload : m.rload = l.rload
  lload : m.lload = l.lload

/-- The reservation reads back as the topology that was stored. -/
structure ReadBack (t : MappedTopology) (t' : Topology) : Prop where
  nodes : ∀ a < t.nodes.length, t'.nodes.countP (fun n => (t.out a).Reads n.key) = 1
  links : ∀ l < t.links.length, ∃ m, t'.links[t.linkid l - 1]? = some m ∧
    t.SameLink t' (t.link l) m

/-- Of the nodes on one base node, the one that has it for itself is read before the virtual
machines. -/
def EndFound (db : Database) (t : MappedTopology) (a : ℕ) : Prop :=
  (t.node a).isWhole = true → ∀ b,
    (t.nodesRead db).find? (fun b => (t.out b).node = (t.out a).node) = some b →
      (t.node b).isVm = false

instance (db : Database) (t : MappedTopology) (a : ℕ) : Decidable (t.EndFound db a) :=
  inferInstanceAs (Decidable (_ → ∀ b ∈
    (t.nodesRead db).find? (fun b => (t.out b).node = (t.out a).node), (t.node b).isVm = false))

/-- The real ports before the rows of a link are read. -/
def startPorts (u : Uninitialised) (t : MappedTopology) (l : ℕ) : ℕ × ℕ :=
  if t.linkid l = 1 then (u.rport1, u.rport2) else (0, 0)

/-- The first nodes of the connections of a link in the order they are read. -/
def firstNodes (db : Database) (t : MappedTopology) (l : ℕ) : List (String × ℕ) :=
  (t.passesRead db l).map (Pass.firstNode db)

/-- The names under which the two ends are stored. -/
def name1 (t : MappedTopology) (l : ℕ) : String := (t.out (t.link l).end1.node).node

def name2 (t : MappedTopology) (l : ℕ) : String := (t.out (t.link l).end2.node).node

/-- Nothing of a link is lost: its ends are found, the row that is read first carries its loads
and its capacity, and each real port is that of the last row that begins at its end. -/
structure LinkKept (db : Database) (u : Uninitialised) (t : MappedTopology) (l : ℕ) : Prop where
  end1 : t.EndFound db (t.link l).end1.node
  end2 : t.EndFound db (t.link l).end2.node
  carries : ∃ p, (t.passesRead db l).head? = some p ∧ p.Carries (t.link l)
  port1 : (((lastPort (t.name1 l) (t.firstNodes db l)).getD (t.startPorts u l).1 : ℕ) : ℤ) =
    (t.link l).end1.rport
  port2 : (((if t.name1 l = t.name2 l then none else lastPort (t.name2 l) (t.firstNodes db l)).getD
    (t.startPorts u l).2 : ℕ) : ℤ) = (t.link l).end2.rport

structure Kept (db : Database) (u : Uninitialised) (t : MappedTopology) : Prop where
  /-- no base node is given to two nodes -/
  distinct : ∀ a < t.nodes.length, ∀ b < t.nodes.length, (t.node a).isWhole = true →
    (t.node b).isWhole = true → (t.node b).node = (t.node a).node → b = a
  links : ∀ l < t.links.length, t.LinkKept db u l

end MappedTopology

/-- The real ports after all connections of a link. -/
theorem realPorts_eq (n1 n2 : String) (p : ℕ × ℕ) (conns : List (String × ℕ)) :
    realPorts n1 n2 p conns = ((lastPort n1 conns).getD p.1,
      (if n1 = n2 then none else lastPort n2 conns).getD p.2) := by
  induction conns using List.reverseRecOn with
  | nil => simp [realPorts, lastPort]
  | append_singleton conns c ih =>
    have hlast : ∀ n, lastPort n (conns ++ [c]) = if c.1 = n then some c.2 else lastPort n conns := by
      intro n
      unfold lastPort
      rw [List.filter_append]
      by_cases h : c.1 = n <;> simp [h]
    have hstep : realPorts n1 n2 p (conns ++ [c]) =
        if n1 = c.1 then (c.2, (realPorts n1 n2 p conns).2)
        else if n2 = c.1 then ((realPorts n1 n2 p conns).1, c.2) else realPorts n1 n2 p conns := by
      simp [realPorts]
    rw [hstep, ih, hlast, hlast]
    by_cases h1 : n1 = c.1
    · by_cases h2 : n1 = n2
      · simp [h1, ← h2]
      · have h2' : ¬c.1 = n2 := fun h => h2 (h1.trans h)
        simp [h1, h2']
    · have h1' : ¬c.1 = n1 := fun h => h1 h.symm
      by_cases h2 : n2 = c.1
      · simp [h1, h1', h2]
      · have h2' : ¬c.1 = n2 := fun h => h2 h.symm
        simp [h1, h1', h2, h2']

namespace Stored

variable {db : Database} {t : MappedTopology} {a b : ℕ}

theorem smallint_vmid (hw : t.Wf) (hf : t.Fits) (ha : a < t.nodes.length) :
    smallint (t.out a).vmid = (t.out a).vmid := by
  have := hf.nodes
  apply smallint_of_lt
  by_cases hv : (t.node a).isVswitch = true
  · rw [(MappedTopology.out_vswitch ha hv).2]
    exact lt_of_le_of_lt (MappedTopology.vswitchNumber_le ha) hf.nodes
  · rw [MappedTopology.out_vmid hw ha (by simpa using hv)]
    split
    · exact lt_of_le_of_lt (MappedTopology.vmNumber_le ha ‹_›) hf.nodes
    · omega

/-- A base node does not have the name of a vswitch. -/
theorem name_ne (h : Stored db t) (ha : a < t.nodes.length) (hv : (t.node a).isVswitch = false)
    (v : ℕ) : (t.out a).node ≠ "vgige" ++ toString v := by
  rw [MappedTopology.out_node ha hv]
  intro hname
  by_cases hc : (t.node a).isCluster = true
  · have := h.cluster a ha hc
    rw [hname, db.hwclusters_name] at this
    cases this
  · have := h.node a ha (by simp [hv]) hc
    rw [hname, db.nodes_name] at this
    cases this

theorem isVswitch_of_name (h : Stored db t) (ha : a < t.nodes.length) (hb : b < t.nodes.length)
    (hname : (t.out b).node = (t.out a).node) :
    (t.node b).isVswitch = (t.node a).isVswitch := by
  by_cases hva : (t.node a).isVswitch = true <;> by_cases hvb : (t.node b).isVswitch = true
  · rw [hva, hvb]
  · rw [(MappedTopology.out_vswitch ha hva).1] at hname
    exact absurd hname (h.name_ne hb (by simpa using hvb) _)
  · rw [(MappedTopology.out_vswitch hb hvb).1] at hname
    exact absurd hname.symm (h.name_ne ha (by simpa using hva) _)
  · simp_all

/-- When the node `b` reads back as `a`. -/
theorem reads_iff (h : Stored db t) (hw : t.Wf) (hf : t.Fits) (ha : a < t.nodes.length)
    (hb : b < t.nodes.length) : (t.out a).Reads (t.keyRead db b) ↔
      (t.out b).node = (t.out a).node ∧
        ((t.node a).isVswitch = false → (t.out b).vmid = (t.out a).vmid) := by
  obtain ⟨h1, h2, h3⟩ := h.keyRead_spec hw hf hb
  unfold MappedNode.Reads
  rw [MappedTopology.isVswitch_out ha, h1]
  constructor
  · rintro ⟨hname, hk⟩
    refine ⟨hname, fun hv => ?_⟩
    rw [if_neg (by simp [hv])] at hk
    have hvb : (t.node b).isVswitch = false := by
      simpa using mt h2.mpr hk.1
    rw [← h3 hvb]
    exact hk.2
  · rintro ⟨hname, hvmid⟩
    refine ⟨hname, ?_⟩
    have hk := h.isVswitch_of_name ha hb hname
    split
    · rename_i hv
      exact h2.mpr (hk.trans hv)
    · rename_i hv
      have hv' : (t.node a).isVswitch = false := by simpa using hv
      exact ⟨by rw [ne_eq, h2, hk]; exact hv, (h3 (hk.trans hv')).trans (hvmid hv')⟩

/-- Every node reads back once exactly if no base node is given to two nodes. -/
theorem nodes_iff (h : Stored db t) (hw : t.Wf) (hf : t.Fits) {order : List ℕ}
    (ho : t.Written order) {t' : Topology} (hn : Named t' (db.keys (addReservation t))) :
    (∀ a < t.nodes.length, t'.nodes.countP (fun n => (t.out a).Reads n.key) = 1) ↔
      ∀ a < t.nodes.length, ∀ b < t.nodes.length, (t.node a).isWhole = true →
        (t.node b).isWhole = true → (t.node b).node = (t.node a).node → b = a := by
  have hcount : ∀ a < t.nodes.length, (t'.nodes.countP (fun n => (t.out a).Reads n.key) = 1 ↔
      ∀ b < t.nodes.length, (t.out a).Reads (t.keyRead db b) → b = a) := by
    intro a ha
    have hmap : t'.nodes.countP (fun n => (t.out a).Reads n.key) =
        (t.nodesRead db).countP (fun b => (t.out a).Reads (t.keyRead db b)) := by
      have h1 := List.countP_map (p := fun k => decide ((t.out a).Reads k))
        (f := NodeResource.key) (l := t'.nodes)
      rw [hn.keys, h.keys_eq ho hf, List.countP_map] at h1
      exact h1.symm
    have hmem : ∀ b, b ∈ t.nodesRead db ↔ b < t.nodes.length := by
      intro b
      rw [(nodesRead_perm db t).mem_iff, List.mem_range]
    rw [hmap, countP_eq_one_iff ((nodesRead_perm db t).nodup_iff.mpr List.nodup_range)
      ((hmem a).mpr ha) (by simpa using (h.reads_iff hw hf ha ha).mpr ⟨rfl, fun _ => rfl⟩)]
    simp only [hmem, decide_eq_true_eq]
  have hwhole : ∀ a < t.nodes.length, (t.node a).isWhole = true →
      (t.node a).isVswitch = false ∧ (t.out a).vmid = 0 := by
    intro a ha hwa
    simp only [MappedNode.isWhole, Bool.and_eq_true, Bool.not_eq_true'] at hwa
    refine ⟨hwa.1, ?_⟩
    rw [MappedTopology.out_vmid hw ha hwa.1, hwa.2]
    rfl
  constructor
  · intro hall a ha b hb hwa hwb hname
    refine (hcount a ha).mp (hall a ha) b hb ((h.reads_iff hw hf ha hb).mpr ⟨?_, fun _ => ?_⟩)
    · rw [MappedTopology.out_node ha (hwhole a ha hwa).1,
        MappedTopology.out_node hb (hwhole b hb hwb).1, hname]
    · rw [(hwhole a ha hwa).2, (hwhole b hb hwb).2]
  · intro hd a ha
    rw [hcount a ha]
    intro b hb hr
    obtain ⟨hname, hvmid⟩ := (h.reads_iff hw hf ha hb).mp hr
    rcases MappedTopology.out_inj hw ha hb (h.isVswitch_of_name ha hb hname) hname hvmid with
      rfl | ⟨hwa, hwb⟩
    · rfl
    · rw [MappedTopology.out_node ha (hwhole a ha hwa).1,
        MappedTopology.out_node hb (hwhole b hb hwb).1] at hname
      exact hd a ha b hb hwa hwb hname

/-- The node that is found for an end. -/
theorem end_iff (h : Stored db t) (hw : t.Wf) (hf : t.Fits) {order : List ℕ}
    (ho : t.Written order) (ha : a < t.nodes.length) :
    ∃ k, (db.keys (addReservation t)).find?
        (fun k => k.Answers (t.out a).node (smallint (t.out a).vmid)) = some k ∧
      ((t.out a).Reads k ↔ t.EndFound db a) := by
  have hself : (t.out a).Reads (t.keyRead db a) :=
    (h.reads_iff hw hf ha ha).mpr ⟨rfl, fun _ => rfl⟩
  have hkey : ∀ b < t.nodes.length, ((t.keyRead db b).Answers (t.out a).node
      (smallint (t.out a).vmid) ↔ (t.out b).node = (t.out a).node ∧
        ((t.node a).isWhole = true ∨ b = a)) := by
    intro b hb
    obtain ⟨h1, h2, h3⟩ := h.keyRead_spec hw hf hb
    unfold Key.Answers
    rw [smallint_vmid hw hf ha, h1, h2]
    refine and_congr_right fun hname => ?_
    have hk := h.isVswitch_of_name ha hb hname
    by_cases hv : (t.node a).isVswitch = true
    · have hba : b = a := by
        rcases MappedTopology.out_inj hw ha hb hk hname (by simp [hv]) with hba | ⟨hwa, -⟩
        · exact hba
        · simp [MappedNode.isWhole, hv] at hwa
      simp [hv, hba]
    · have hv' : (t.node a).isVswitch = false := by simpa using hv
      rw [h3 (hk.trans hv'), hk, hv']
      by_cases hvm : (t.node a).isVm = true
      · have hne : (t.out a).vmid ≠ 0 := by
          rw [MappedTopology.out_vmid hw ha hv', if_pos hvm]
          unfold MappedTopology.vmNumber
          omega
        constructor
        · rintro (hvmid | h0 | hf)
          · rcases MappedTopology.out_inj hw ha hb hk hname (fun _ => hvmid) with hba | hww
            · exact Or.inr hba
            · exact Or.inl hww.1
          · exact absurd h0 hne
          · cases hf
        · rintro (hwa | rfl)
          · simp [MappedNode.isWhole, hvm] at hwa
          · exact Or.inl rfl
      · have hzero : (t.out a).vmid = 0 := by
          rw [MappedTopology.out_vmid hw ha hv', if_neg hvm]
        simp [hzero, MappedNode.isWhole, hv', hvm]
  have hsome : ((t.nodesRead db).find? (fun b => (t.keyRead db b).Answers (t.out a).node
      (smallint (t.out a).vmid))).isSome := by
    rw [List.find?_isSome]
    refine ⟨a, (nodesRead_perm db t).mem_iff.mpr (List.mem_range.mpr ha), ?_⟩
    simpa using (hkey a ha).mpr ⟨rfl, Or.inr rfl⟩
  obtain ⟨b, hfind⟩ := Option.isSome_iff_exists.mp hsome
  have hb : b < t.nodes.length := nodesRead_lt (List.mem_of_find?_eq_some hfind)
  have hans : (t.keyRead db b).Answers (t.out a).node (smallint (t.out a).vmid) := by
    simpa using List.find?_some hfind
  refine ⟨t.keyRead db b, ?_, ?_⟩
  · rw [h.keys_eq ho hf, List.find?_map, Function.comp_def, hfind, Option.map_some]
  obtain ⟨hname, hcase⟩ := (hkey b hb).mp hans
  by_cases hwa : (t.node a).isWhole = true
  · have hfind' : (t.nodesRead db).find? (fun b => (t.out b).node = (t.out a).node) = some b := by
      rw [← hfind]
      apply List.find?_congr
      intro c hc
      simp [hkey c (nodesRead_lt hc), hwa]
    have hwa' := hwa
    simp only [MappedNode.isWhole, Bool.and_eq_true, Bool.not_eq_true'] at hwa'
    have hvb := (h.isVswitch_of_name ha hb hname).trans hwa'.1
    have hvmid : (t.out b).vmid = (t.out a).vmid ↔ (t.node b).isVm = false := by
      rw [MappedTopology.out_vmid hw ha hwa'.1, MappedTopology.out_vmid hw hb hvb, hwa'.2]
      by_cases hvm : (t.node b).isVm = true
      · simp [hvm, MappedTopology.vmNumber]
      · simp [hvm]
    rw [h.reads_iff hw hf ha hb]
    constructor
    · rintro ⟨-, hr⟩ - c hc
      rw [hfind', Option.some.injEq] at hc
      exact hc ▸ hvmid.mp (hr hwa'.1)
    · intro he
      exact ⟨hname, fun _ => hvmid.mpr (he hwa b hfind')⟩
  · obtain rfl := hcase.resolve_left hwa
    exact ⟨fun _ hwb => absurd hwb hwa, fun _ => hself⟩

/-- The rows of a link make a block, and its row in the link schedule is found. -/
theorem block (h : Stored db t) (hw : t.Wf) (hf : t.Fits) {order : List ℕ}
    (ho : t.Written order) {l : ℕ} (hl : l < t.links.length) :
    (db.select (addReservation t).linkschedule).find? (fun v => v.linkid = t.linkid l) =
        some ((t.link l).linkRow t.scheduled (order.idxOf l + 1)) ∧
      Block (db.keys (addReservation t)) (db.select (addReservation t).linkschedule) (t.linkid l)
        ((t.passesRead db l).map (Pass.info db (t.link l) (t.linkid l))) := by
  have hfind : (db.select (addReservation t).linkschedule).find?
      (fun v => v.linkid = t.linkid l) =
        some ((t.link l).linkRow t.scheduled (order.idxOf l + 1)) := by
    rw [ho.links, Database.select_map, List.find?_map, Option.map_eq_some_iff]
    refine ⟨l, ?_, rfl⟩
    have hperm := db.select_perm (List.range t.links.length)
    have hlinkid : ∀ l' < t.links.length, ((t.link l').linkRow t.scheduled
        (order.idxOf l' + 1)).linkid = t.linkid l' := by
      intro l' hl'
      rw [← ho.linkid_eq hf hl']
      exact smallint_of_lt (ho.linkid_lt hf hl')
    cases hf' : (db.select (List.range t.links.length)).find? ((fun v => decide (v.linkid =
        t.linkid l)) ∘ fun l => (t.link l).linkRow t.scheduled (order.idxOf l + 1)) with
    | none =>
      have := List.find?_eq_none.mp hf' l (hperm.mem_iff.mpr (List.mem_range.mpr hl))
      simp [hlinkid l hl] at this
    | some l' =>
      have hl' := List.mem_range.mp (hperm.mem_iff.mp (List.mem_of_find?_eq_some hf'))
      have := List.find?_some hf'
      simp only [Function.comp_apply, decide_eq_true_eq, hlinkid l' hl'] at this
      rw [ho.linkid_inj hf hl' hl this]
  refine ⟨hfind, ⟨?_, ?_, _, hfind, ?_, ?_⟩⟩
  · simpa using t.passesRead_ne_nil db l
  · intro row hrow
    obtain ⟨p, -, rfl⟩ := List.mem_map.mp hrow
    rfl
  · obtain ⟨k, hk, -⟩ := h.end_iff hw hf ho (hw.ends l hl).1
    exact ⟨k, hk⟩
  · obtain ⟨k, hk, -⟩ := h.end_iff hw hf ho (hw.ends l hl).2
    exact ⟨k, hk⟩

/-- Every link is read under its number, made from its own rows. -/
theorem links_made (h : Stored db t) (hw : t.Wf) (hf : t.Fits) {order : List ℕ}
    (ho : t.Written order) {u : Uninitialised} {t' : Topology}
    (hread : getTopology db u (addReservation t) = .ok t') :
    Named t' (db.keys (addReservation t)) ∧ ∀ l < t.links.length,
      ∃ m, t'.links[t.linkid l - 1]? = some m ∧
        Made (db.keys (addReservation t)) (db.select (addReservation t).linkschedule)
          (t.startPorts u l) (t.linkid l)
          ((t.passesRead db l).map (Pass.info db (t.link l) (t.linkid l))) m := by
  obtain ⟨t₀, hn, hlinks, hrest⟩ := getTopology_nodes hread
  rw [h.selectByLinkid ho hf] at hrest
  have hpos : ∀ l < t.links.length, t.linkid l = order.idxOf l + 1 := fun l hl =>
    ho.linkid_eq hf hl
  cases horder : order with
  | nil =>
    rw [horder] at hrest
    have hnone : ∀ l, ¬l < t.links.length := by
      intro l hl
      have := (ho.mem l).mpr hl
      rw [horder] at this
      cases this
    rcases hrest with ⟨-, rfl⟩ | ⟨row, rows, hrows, -⟩
    · exact ⟨hn, fun l hl => absurd hl (hnone l)⟩
    · cases hrows
  | cons l₀ ls =>
    let block := fun l => (t.linkid l,
      (t.passesRead db l).map (Pass.info db (t.link l) (t.linkid l)))
    have hlt : ∀ l ∈ l₀ :: ls, l < t.links.length := fun l hl => (ho.mem l).mp (horder ▸ hl)
    have hb : ∀ l ∈ l₀ :: ls, Block (db.keys (addReservation t))
        (db.select (addReservation t).linkschedule) (block l).1 (block l).2 :=
      fun l hl => (h.block hw hf ho (hlt l hl)).2
    have hchain : List.IsChain (· ≠ ·) ((block l₀ :: ls.map block).map Prod.fst) := by
      apply List.Pairwise.isChain
      rw [← List.map_cons, List.map_map]
      refine List.Nodup.map_on ?_ (horder ▸ ho.nodup)
      intro a ha b hb hab
      exact ho.linkid_inj hf (hlt a ha) (hlt b hb) hab
    have hflat : order.flatMap (fun l => (block l).2) =
        (block l₀ :: ls.map block).flatMap Prod.snd := by
      rw [horder, ← List.map_cons, List.flatMap_map]
    obtain ⟨row, rest, hrows⟩ := List.exists_cons_of_ne_nil (hb l₀ List.mem_cons_self).ne
    have hcons : order.flatMap (fun l => (block l).2) =
        row :: (rest ++ (ls.map block).flatMap Prod.snd) := by
      rw [hflat, List.flatMap_cons, hrows, List.cons_append]
    replace hrest : readLinks db (addReservation t) (db.select (addReservation t).linkschedule)
        ((block l₀ :: ls.map block).flatMap Prod.snd) 1
        ((Reading.first u row).lookup t₀ (db.select (addReservation t).linkschedule)) t₀ =
          .ok t' := by
      rcases hrest with ⟨hnil, -⟩ | ⟨row', rows', hrows', hread'⟩
      · cases hnil.symm.trans hcons
      · obtain ⟨rfl, -⟩ := List.cons.inj (hrows'.symm.trans hcons)
        rwa [← hrows', hflat] at hread'
    obtain ⟨hn', m, ms, hl', hm, hms⟩ := readLinks_all (hb l₀ List.mem_cons_self)
      (by
        intro b hb'
        obtain ⟨l, hl, rfl⟩ := List.mem_map.mp hb'
        exact hb l (List.mem_cons_of_mem _ hl))
      hchain hn (by rw [hrows]; rfl) hrest
    rw [hlinks, List.nil_append] at hl'
    refine ⟨hn', fun l hl => ?_⟩
    have hmem : l ∈ l₀ :: ls := horder ▸ (ho.mem l).mpr hl
    have hindex : t.linkid l - 1 = (l₀ :: ls).idxOf l := by
      rw [hpos l hl, horder, Nat.add_sub_cancel]
    rw [hindex, hl']
    by_cases hfirst : l = l₀
    · subst hfirst
      have hstart : t.startPorts u l = (u.rport1, u.rport2) := by
        rw [MappedTopology.startPorts, if_pos (by rw [hpos l hl, horder, List.idxOf_cons_self])]
      rw [hstart]
      exact ⟨m, by simp, hm⟩
    · have hls : l ∈ ls := (List.mem_cons.mp hmem).resolve_left hfirst
      have hidx : (l₀ :: ls).idxOf l = ls.idxOf l + 1 := List.idxOf_cons_ne _ (Ne.symm hfirst)
      have hstart : t.startPorts u l = (0, 0) := by
        rw [MappedTopology.startPorts, if_neg (by rw [hpos l hl, horder, hidx]; omega)]
      obtain ⟨hlen, hget⟩ := List.forall₂_iff_get.mp hms
      have hi : ls.idxOf l < ls.length := List.idxOf_lt_length_iff.mpr hls
      have hi' : ls.idxOf l < ms.length := by rwa [← hlen, List.length_map]
      have hm' := hget (ls.idxOf l) (by rwa [List.length_map]) hi'
      rw [List.get_eq_getElem, List.getElem_map, List.getElem_idxOf] at hm'
      rw [hidx, hstart, List.getElem?_cons_succ, List.getElem?_eq_getElem hi']
      exact ⟨_, rfl, hm'⟩

/-- A link reads back exactly if nothing of it is lost. -/
theorem link_iff (h : Stored db t) (hw : t.Wf) (hf : t.Fits) {order : List ℕ}
    (ho : t.Written order) {u : Uninitialised} {t' : Topology}
    (hn : Named t' (db.keys (addReservation t))) {l : ℕ} (hl : l < t.links.length)
    {m : LinkResource}
    (hm : Made (db.keys (addReservation t)) (db.select (addReservation t).linkschedule)
      (t.startPorts u l) (t.linkid l)
      ((t.passesRead db l).map (Pass.info db (t.link l) (t.linkid l))) m) :
    t.SameLink t' (t.link l) m ↔ t.LinkKept db u l := by
  obtain ⟨v, hv, hk1, hk2, hr1, hr2⟩ := hm.ends
  obtain ⟨row, hrow, hcap, hrl, hll⟩ := hm.row
  rw [(h.block hw hf ho hl).1, Option.some.injEq] at hv
  subst hv
  obtain ⟨k1, hf1, he1⟩ := h.end_iff hw hf ho (hw.ends l hl).1
  obtain ⟨k2, hf2, he2⟩ := h.end_iff hw hf ho (hw.ends l hl).2
  have hkey : ∀ {i : ℕ} {k : Key}, (db.keys (addReservation t))[i]? = some k →
      (t'.node i).key = k := by
    intro i k hk
    have hi : i < t'.nodes.length := by
      obtain ⟨hlt, -⟩ := List.getElem?_eq_some_iff.mp hk
      rwa [← hn.keys, List.length_map] at hlt
    rw [hn.key hi, Option.some.injEq] at hk
    exact hk
  have hnode1 : (t'.node m.end1.node).key = k1 := hkey (hk1.trans hf1)
  have hnode2 : (t'.node m.end2.node).key = k2 := hkey (hk2.trans hf2)
  rw [List.map_map, realPorts_eq] at hr1 hr2
  rw [List.head?_map, Option.map_eq_some_iff] at hrow
  obtain ⟨p, hp, rfl⟩ := hrow
  constructor
  · rintro ⟨h1, h2, h3, h4, h5, h6, h7⟩
    refine ⟨he1.mp (hnode1 ▸ h1), he2.mp (hnode2 ▸ h2), ⟨p, hp, ?_, ?_, ?_⟩, ?_, ?_⟩
    · exact hcap.symm.trans h5
    · exact hrl.symm.trans h6
    · exact hll.symm.trans h7
    · exact hr1.symm.trans h3
    · exact hr2.symm.trans h4
  · rintro ⟨h1, h2, ⟨q, hq, h3, h4, h5⟩, h6, h7⟩
    obtain rfl : p = q := Option.some.inj (hp.symm.trans hq)
    exact ⟨hnode1 ▸ he1.mpr h1, hnode2 ▸ he2.mpr h2, hr1.trans h6, hr2.trans h7,
      hcap.trans h3, hrl.trans h4, hll.trans h5⟩

end Stored

/-- A stored reservation reads back as the topology that was stored exactly if no base node is
given to two nodes and nothing of its links is lost. -/
theorem readBack_iff_kept {db : Database} {u : Uninitialised} {t : MappedTopology}
    {t' : Topology} (hw : t.Wf) (hf : t.Fits) (hs : Stored db t)
    (h : getTopology db u (addReservation t) = .ok t') : t.ReadBack t' ↔ t.Kept db u := by
  obtain ⟨order, ho⟩ := hw.written
  obtain ⟨hn, hmade⟩ := hs.links_made hw hf ho h
  have hnodes := hs.nodes_iff hw hf ho hn
  constructor
  · rintro ⟨h1, h2⟩
    refine ⟨hnodes.mp h1, fun l hl => ?_⟩
    obtain ⟨m, hm, hsame⟩ := h2 l hl
    obtain ⟨m', hm', hmade'⟩ := hmade l hl
    obtain rfl : m' = m := Option.some.inj (hm'.symm.trans hm)
    exact (hs.link_iff hw hf ho hn hl hmade').mp hsame
  · rintro ⟨h1, h2⟩
    refine ⟨hnodes.mpr h1, fun l hl => ?_⟩
    obtain ⟨m, hm, hmade'⟩ := hmade l hl
    exact ⟨m, hm, (hs.link_iff hw hf ho hn hl hmade').mpr (h2 l hl)⟩

/-! ### Two hosts and a switch -/

theorem vgige_ne {name : String} (h : name.toList.head? = some 'p') (v : ℕ) :
    "vgige" ++ toString v ≠ name := by
  rintro rfl
  rw [String.toList_append] at h
  simp at h

/-- The hosts `pc1` and `pc2` on the switch `sw1`. -/
def twoHosts : Database where
  connections k :=
    [⟨"", 0, "", 0⟩, ⟨"pc1", 0, "sw1", 0⟩, ⟨"pc2", 1, "sw1", 1⟩, ⟨"pc1", 1, "sw1", 2⟩][k]?
  nodes n := if n = "pc1" ∨ n = "pc2" then some { tid := "pc" } else none
  hwclusters _ := none
  types := [{ tid := "pc" }]
  infrastructure n := if n = "sw1" then some true else none
  order := List.range
  connOrder _ := List.range
  order_perm _ := List.Perm.refl _
  connOrder_perm _ _ := List.Perm.refl _
  connections_key k c h := by
    obtain ⟨hk, -⟩ := List.getElem?_eq_some_iff.mp h
    exact lt_trans hk (by decide)
  nodes_type n e h := by
    split at h
    · cases h
      decide
    · cases h
  nodes_name v := by
    rw [if_neg]
    rintro (h | h)
    · exact vgige_ne (by decide) v h
    · exact vgige_ne (by decide) v h
  hwclusters_type n e h := by cases h
  hwclusters_name v := rfl

/-- A link between the two hosts. -/
def direct : MappedTopology where
  nodes := [{ type := "pc", node := "pc1", links := [0] }, { type := "pc", node := "pc2", links := [0] }]
  links := [{
    capacity := 100
    end1 := ⟨0, 0, 0, 100⟩
    end2 := ⟨1, 0, 1, 100⟩
    rload := 20
    lload := 10
    mappedPath := [⟨1, 1000, true⟩, ⟨2, 1000, false⟩] }]

/-- A link between two ports of one host. -/
def loopback : MappedTopology where
  nodes := [{ type := "pc", node := "pc1", links := [0] }]
  links := [{
    capacity := 100
    end1 := ⟨0, 0, 0, 100⟩
    end2 := ⟨0, 1, 1, 100⟩
    rload := 20
    lload := 10
    mappedPath := [⟨1, 1000, true⟩, ⟨3, 1000, false⟩] }]

theorem wf_direct : direct.Wf where
  ends := by decide
  mem_links := by
    intro a ha l
    have hl : l ∈ (direct.node a).links ↔ l = 0 := by
      rcases (show a = 0 ∨ a = 1 by change a < 2 at ha; omega) with rfl | rfl <;>
        exact List.mem_singleton
    rw [hl]
    constructor
    · rintro rfl
      revert a
      decide
    · rintro ⟨h, -⟩
      exact Nat.lt_one_iff.mp h
  cluster := by decide

theorem wf_loopback : loopback.Wf where
  ends := by decide
  mem_links := by
    intro a ha l
    obtain rfl : a = 0 := Nat.lt_one_iff.mp ha
    rw [show (loopback.node 0).links = [0] from rfl, List.mem_singleton]
    constructor
    · rintro rfl
      decide
    · rintro ⟨h, -⟩
      exact Nat.lt_one_iff.mp h
  cluster := by decide

theorem stored_direct : Stored twoHosts direct where
  node := by decide
  cluster := by decide
  null := by decide
  conn := by decide
  added := by decide

theorem stored_loopback : Stored twoHosts loopback where
  node := by decide
  cluster := by decide
  null := by decide
  conn := by decide
  added := by decide

theorem readBack_direct : ∃ t', getTopology twoHosts {} (addReservation direct) = .ok t' ∧
    direct.ReadBack t' :=
  ⟨_, rfl, (readBack_iff_kept wf_direct ⟨by decide, by decide⟩ stored_direct rfl).mpr
    ⟨by decide, fun l hl => by
      obtain rfl : l = 0 := Nat.lt_one_iff.mp hl
      exact ⟨by decide, by decide, ⟨_, rfl, by decide⟩, by decide, by decide⟩⟩⟩

/-- Both rows of a loopback link count for its first end, and the second real port is lost. -/
theorem loopback_not_readBack : loopback.Wf ∧ loopback.Fits ∧ Stored twoHosts loopback ∧
    ∃ t', getTopology twoHosts {} (addReservation loopback) = .ok t' ∧ ¬loopback.ReadBack t' := by
  refine ⟨wf_loopback, ⟨by decide, by decide⟩, stored_loopback, _, rfl, fun h => ?_⟩
  obtain ⟨m, hm, hsame⟩ := h.links 0 (by decide)
  have hport : m.end2.rport = 0 := by
    obtain rfl := Option.some.inj (hm : some _ = some m)
    rfl
  have := hsame.rport2
  rw [hport] at this
  exact absurd this (by decide)

end OnlDaemons.Onldb

import OnlDaemons.Onldb.ReadLinks

/-!
# The stored rows and how they are read

The rows of a link are grouped again by the number of the link; within the group the database
chooses the order. A row keeps the link of the mapped path it was written for.

## Main definitions

- `Pass` — what a row of the connection schedule is written for
- `MappedTopology.linkid` — the number under which a link is stored
- `MappedTopology.passesRead` — the passes of a link in the order their rows are read
-/

namespace OnlDaemons.Onldb

open Lib

/-- What a row of the connection schedule is written for: the null connection, a base link on
the mapped path, or a base link on the mapped path of an added link. -/
inductive Pass where
  | null
  | hop (h : Hop)
  | added (add : AddedLink) (h : Hop)

namespace Pass

def conn : Pass → ℕ
  | null => 0
  | hop h => h.conn
  | added _ h => h.conn

/-- The capacity written for a pass of the link `l`. -/
def capacity (l : MappedLink) : Pass → ℕ
  | null => l.capacity
  | hop _ => l.capacity
  | added add _ => add.capacity

/-- The two loads written for a pass of the link `l`. -/
def loads (l : MappedLink) : Pass → ℕ × ℕ
  | null => (l.rload, l.lload)
  | hop h =>
    if h.right then (min l.rload h.capacity, min l.lload h.capacity)
    else (min l.lload h.capacity, min l.rload h.capacity)
  | added add h =>
    if h.right then (min add.rload h.capacity, min add.lload h.capacity)
    else (min l.lload h.capacity, min l.rload h.capacity)

def row (l : MappedLink) (linkid : ℕ) (p : Pass) : ConnRow where
  linkid := smallint linkid
  cid := smallint p.conn
  capacity := smallint (p.capacity l)
  rload := smallint (p.loads l).1
  lload := smallint (p.loads l).2

/-- The connection that is found for a pass. -/
def connection (db : Database) (p : Pass) : Connection :=
  (db.connections p.conn).getD ⟨"", 0, "", 0⟩

/-- The row of a pass joined with its connection. -/
def info (db : Database) (l : MappedLink) (linkid : ℕ) (p : Pass) : LinkInfo where
  linkid := linkid
  capacity := smallint (p.capacity l)
  cid := p.conn
  node1 := (p.connection db).node1
  node1port := (p.connection db).node1port
  rload := smallint (p.loads l).1
  lload := smallint (p.loads l).2

theorem join_row {db : Database} {l : MappedLink} {linkid : ℕ} {p : Pass} (hk : linkid < 65536)
    (hp : (db.connections p.conn).isSome) :
    (p.row l linkid).join db = some (p.info db l linkid) := by
  obtain ⟨c, hc⟩ := Option.isSome_iff_exists.mp hp
  simp [ConnRow.join, row, info, connection, smallint_of_lt (db.connections_key _ _ hc), hc,
    smallint_of_lt hk]

end Pass

namespace MappedLink

def passes (l : MappedLink) : List Pass :=
  if l.mappedPath = [] then [.null] else l.mappedPath.map .hop

def addedPasses (l : MappedLink) : List Pass :=
  l.addedVgigeLinks.flatMap (fun add => add.mappedPath.map (.added add))

theorem rows_eq (l : MappedLink) (linkid : ℕ) : l.rows linkid = l.passes.map (Pass.row l linkid) := by
  unfold rows passes
  split
  · rfl
  · rw [List.map_map]
    apply List.map_congr_left
    intro h _
    by_cases hr : h.right <;> simp [Hop.row, Pass.row, Pass.conn, Pass.capacity, Pass.loads, hr]

theorem addedRows_eq (l : MappedLink) (linkid : ℕ) :
    l.addedRows linkid = l.addedPasses.map (Pass.row l linkid) := by
  unfold addedRows addedPasses
  rw [List.map_flatMap]
  apply List.flatMap_congr
  intro add _
  rw [List.map_map]
  apply List.map_congr_left
  intro h _
  by_cases hr : h.right <;> simp [Hop.row, Pass.row, Pass.conn, Pass.capacity, Pass.loads, hr]

theorem passes_ne_nil (l : MappedLink) : l.passes ≠ [] := by
  unfold passes
  split
  · simp
  · simpa

end MappedLink

namespace MappedTopology

/-- The number under which a link is stored. -/
def linkid (t : MappedTopology) (l : ℕ) : ℕ :=
  ((addReservation t).linkschedule[l]?.map (·.linkid)).getD 0

def passes (t : MappedTopology) (l : ℕ) : List Pass :=
  (t.link l).passes ++ if atVswitch t.nodes (t.link l) then (t.link l).addedPasses else []

def passesRead (db : Database) (t : MappedTopology) (l : ℕ) : List Pass :=
  arrange (db.connOrder (t.linkid l) (t.passes l).length) (t.passes l)

theorem rows_eq (t : MappedTopology) (l linkid : ℕ) :
    t.rows l linkid = (t.passes l).map (Pass.row (t.link l) linkid) := by
  unfold rows passes
  rw [List.map_append, MappedLink.rows_eq]
  split
  · rw [MappedLink.addedRows_eq]
  · rfl

theorem passesRead_perm (db : Database) (t : MappedTopology) (l : ℕ) :
    (t.passesRead db l).Perm (t.passes l) := arrange_perm (db.connOrder_perm _ _)

theorem passesRead_ne_nil (db : Database) (t : MappedTopology) (l : ℕ) :
    t.passesRead db l ≠ [] := by
  intro h
  have hnil := (t.passesRead_perm db l)
  rw [h, List.nil_perm, passes, List.append_eq_nil_iff] at hnil
  exact (t.link l).passes_ne_nil hnil.1

/-- The nodes and the links can be numbered with 16 bits. -/
structure Fits (t : MappedTopology) : Prop where
  nodes : t.nodes.length < 65536
  links : t.links.length < 65536

variable {t : MappedTopology} {order : List ℕ}

theorem Written.length (h : t.Written order) : order.length = t.links.length := by
  have hp : order.Perm (List.range t.links.length) :=
    (List.perm_ext_iff_of_nodup h.nodup List.nodup_range).mpr (fun l => by
      rw [h.mem, List.mem_range])
  rw [hp.length_eq, List.length_range]

theorem Written.idxOf_lt (h : t.Written order) {l : ℕ} (hl : l < t.links.length) :
    order.idxOf l < t.links.length := by
  rw [← h.length]
  exact List.idxOf_lt_length_iff.mpr ((h.mem l).mpr hl)

theorem Written.linkid_eq (h : t.Written order) (hf : t.Fits) {l : ℕ} (hl : l < t.links.length) :
    t.linkid l = order.idxOf l + 1 := by
  have := h.idxOf_lt hl
  have := hf.links
  simp only [linkid, h.links, List.getElem?_map, List.getElem?_range hl, Option.map_some,
    Option.getD_some, MappedLink.linkRow]
  exact smallint_of_lt (by omega)

/-- The links in the order of their numbers. -/
theorem Written.mem_zipIdx (h : t.Written order) (hf : t.Fits) {p : ℕ × ℕ}
    (hp : p ∈ order.zipIdx 1) : p.1 < t.links.length ∧ p.2 = t.linkid p.1 := by
  obtain ⟨l, k⟩ := p
  obtain ⟨h₁, h₂, h₃⟩ := List.mem_zipIdx hp
  have hlt : k - 1 < order.length := by omega
  have hl : l < t.links.length := (h.mem l).mp (h₃ ▸ List.getElem_mem hlt)
  refine ⟨hl, ?_⟩
  rw [h.linkid_eq hf hl]
  simp only [h₃, h.nodup.idxOf_getElem]
  omega

theorem Written.linkid_lt (h : t.Written order) (hf : t.Fits) {l : ℕ} (hl : l < t.links.length) :
    t.linkid l < 65536 := by
  have := h.idxOf_lt hl
  have := hf.links
  rw [h.linkid_eq hf hl]
  omega

theorem Written.linkid_inj (h : t.Written order) (hf : t.Fits) {l l' : ℕ}
    (hl : l < t.links.length) (hl' : l' < t.links.length) (heq : t.linkid l = t.linkid l') :
    l = l' := by
  rw [h.linkid_eq hf hl, h.linkid_eq hf hl'] at heq
  exact (List.idxOf_inj ((h.mem l).mpr hl)).mp (by omega)

end MappedTopology

/-- The hardware that a mapped request refers to is in the tables; so is the null connection. -/
structure Stored (db : Database) (t : MappedTopology) : Prop where
  node : ∀ a < t.nodes.length, ¬(t.node a).isVswitch → ¬(t.node a).isCluster →
    (db.nodes (t.node a).node).isSome
  cluster : ∀ a < t.nodes.length, (t.node a).isCluster → (db.hwclusters (t.node a).node).isSome
  null : (db.connections 0).isSome
  conn : ∀ l < t.links.length, ∀ h ∈ (t.link l).mappedPath, (db.connections h.conn).isSome
  added : ∀ l < t.links.length, ∀ add ∈ (t.link l).addedVgigeLinks, ∀ h ∈ add.mappedPath,
    (db.connections h.conn).isSome

namespace Stored

variable {db : Database} {t : MappedTopology}

theorem pass (h : Stored db t) {l : ℕ} (hl : l < t.links.length) {p : Pass}
    (hp : p ∈ t.passes l) : (db.connections p.conn).isSome := by
  unfold MappedTopology.passes at hp
  rcases List.mem_append.mp hp with hp | hp
  · unfold MappedLink.passes at hp
    split at hp
    · obtain rfl := List.mem_singleton.mp hp
      exact h.null
    · obtain ⟨x, hx, rfl⟩ := List.mem_map.mp hp
      exact h.conn l hl x hx
  · split at hp
    · obtain ⟨add, hadd, hp⟩ := List.mem_flatMap.mp hp
      obtain ⟨x, hx, rfl⟩ := List.mem_map.mp hp
      exact h.added l hl add hadd x hx
    · cases hp

/-- The rows come link by link. -/
theorem selectByLinkid (h : Stored db t) {order : List ℕ} (hw : t.Written order) (hf : t.Fits) :
    (db.selectByLinkid (addReservation t).connschedule).filterMap (ConnRow.join db) =
      order.flatMap (fun l =>
        (t.passesRead db l).map (Pass.info db (t.link l) (t.linkid l))) := by
  have hkey : ∀ p ∈ order.zipIdx 1, ∀ x ∈ t.rows p.1 p.2, x.linkid = p.2 := by
    intro p hp x hx
    obtain ⟨hl, hk⟩ := hw.mem_zipIdx hf hp
    rw [MappedTopology.rows_eq] at hx
    obtain ⟨y, -, rfl⟩ := List.mem_map.mp hx
    exact smallint_of_lt (hk ▸ hw.linkid_lt hf hl)
  have hmax : ∀ (rows : List ConnRow), ∀ x ∈ rows, x.linkid < Database.maxLinkid rows + 1 := by
    intro rows x hx
    have : ∀ (ns : List ℕ), ∀ n ∈ ns, n ≤ ns.foldr max 0 := by
      intro ns
      induction ns with
      | nil => simp
      | cons m ns ih =>
        intro n hn
        rcases List.mem_cons.mp hn with rfl | hn
        · exact le_max_left _ _
        · exact (ih n hn).trans (le_max_right _ _)
    exact Nat.lt_succ_of_le (this _ _ (List.mem_map_of_mem hx))
  unfold Database.selectByLinkid
  simp only
  rw [hw.conns, flatMap_range_groups order (g := fun p => t.rows p.1 p.2) hkey
    (F := fun k group => arrange (db.connOrder k group.length) group) (fun k => by simp [arrange])
    (fun x hx => hmax _ x hx), List.filterMap_flatMap]
  have hfst : (order.zipIdx 1).map Prod.fst = order := List.zipIdx_map_fst 1 order
  conv_rhs => rw [← hfst, List.flatMap_map]
  apply List.flatMap_congr
  intro p hp
  obtain ⟨hl, hk⟩ := hw.mem_zipIdx hf hp
  rw [MappedTopology.rows_eq, arrange_map, List.length_map, hk, List.filterMap_map,
    ← List.filterMap_eq_map]
  apply List.filterMap_congr
  intro x hx
  exact Pass.join_row (hw.linkid_lt hf hl) (h.pass hl ((t.passesRead_perm db p.1).mem_iff.mp hx))

end Stored

end OnlDaemons.Onldb

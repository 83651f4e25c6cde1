import OnlDaemons.Lib.Arrange
import OnlDaemons.Onldb.Schedule

/-!
# Reading a reservation

`get_topology` reads the rows of a reservation and builds a topology from them. The tables of
the hardware, which a reservation refers to, and the order in which a query returns rows that
its `order by` leaves open belong to the database.

The two ports and the two real ports are uninitialised when the first link is read; their values
are a parameter. The columns with hardware addresses, which are read into nothing, are left out.

## Main definitions

- `Database` — the hardware tables and the order of the rows of each query
- `getTopology` — the reader
-/

namespace OnlDaemons.Onldb

open Lib

/-- A row of `connections`. -/
structure Connection where
  node1 : String
  node1port : ℕ
  node2 : String
  node2port : ℕ
deriving DecidableEq

/-- A row of `nodes`, with the cluster of the node in `hwclustercomps`. -/
structure NodeEntry where
  tid : String
  cluster : Option String := none
  acl : String := ""
  daemonhost : String := ""

/-- A row of `hwclusters`. -/
structure ClusterEntry where
  tid : String
  acl : String := ""

/-- A row of `types`. -/
structure TypeEntry where
  tid : String
  hasvport : Bool := false
  rootonly : Bool := false
  hostedtype : String := ""

/-- The hardware tables by their keys, and the order of the rows of a query: of a result of `n`
rows, the positions in the order they are returned; of the connections of one link, this
order depends on the link. -/
structure Database where
  connections : ℕ → Option Connection
  nodes : String → Option NodeEntry
  hwclusters : String → Option ClusterEntry
  types : List TypeEntry
  infrastructure : String → Option Bool
  order : ℕ → List ℕ
  connOrder : ℕ → ℕ → List ℕ
  order_perm : ∀ n, (order n).Perm (List.range n)
  connOrder_perm : ∀ k n, (connOrder k n).Perm (List.range n)
  /-- the key of a connection is a smallint -/
  connections_key : ∀ k c, connections k = some c → k < 65536
  /-- a virtual switch is not in the tables, neither by its type nor by its name -/
  nodes_type : ∀ n e, nodes n = some e → Topology.lowercase e.tid ≠ "vgige"
  nodes_name : ∀ v : ℕ, nodes ("vgige" ++ toString v) = none
  hwclusters_type : ∀ n e, hwclusters n = some e → Topology.lowercase e.tid ≠ "vgige"
  hwclusters_name : ∀ v : ℕ, hwclusters ("vgige" ++ toString v) = none

namespace Database

variable (db : Database)

/-- The rows of a query without an order. -/
def select {α : Type} (l : List α) : List α := arrange (db.order l.length) l

/-- The largest number of a link. -/
def maxLinkid (rows : List ConnRow) : ℕ := (rows.map (·.linkid)).foldr max 0

/-- The rows of the connection schedule, ordered by the number of the link. -/
def selectByLinkid (rows : List ConnRow) : List ConnRow :=
  (List.range (maxLinkid rows + 1)).flatMap (fun k =>
    let group := rows.filter (fun r => r.linkid = k)
    arrange (db.connOrder k group.length) group)

end Database

/-- `linkinfo`: a row of the connection schedule joined with its connection. -/
structure LinkInfo where
  linkid : ℕ
  capacity : ℕ
  cid : ℕ
  node1 : String
  node1port : ℕ
  rload : ℕ
  lload : ℕ
deriving DecidableEq

def ConnRow.join (db : Database) (r : ConnRow) : Option LinkInfo :=
  (db.connections r.cid).map (fun c =>
    ⟨r.linkid, r.capacity, r.cid, c.node1, c.node1port, r.rload, r.lload⟩)

/-- The answer to every failure of `get_topology` but one. -/
def consistencyProblem {α : Type} : Except (ℤ × String) α :=
  .error (-1, "database consistency problem")

/-- Fields of `nodes.back()` are filled in. -/
def Topology.setBack (t : Topology) (f : NodeResource → NodeResource) : Topology :=
  { t with nodes := t.nodes.modify (t.nodes.length - 1) f }

/-! ### The nodes -/

/-- The fields of a node that `get_topology` fills in after `add_node`: for a cluster, -/
def fillCluster (row : ClusterRow) (e : ClusterEntry) (n : NodeResource) : NodeResource :=
  { n with node := row.cluster, acl := e.acl, cp := "unused", fixed := row.fixed }

/-- for a vswitch, -/
def fillVswitch (vlanid : ℕ) (n : NodeResource) : NodeResource :=
  { n with node := "vgige" ++ toString vlanid, acl := "unused", cp := "unused" }

/-- and for a node. -/
def fillNode (row : NodeRow) (e : NodeEntry) (tp : TypeEntry) (n : NodeResource) : NodeResource :=
  { n with
    node := row.node
    acl := e.acl
    cp := e.daemonhost
    vmid := row.vmid
    rootOnly := tp.rootonly
    hostedType := tp.hostedtype
    fixed := row.fixed }

/-- The loop over the clusters; clusters that are not in the table are lost in the join. -/
def readClusters (db : Database) :
    List ClusterRow → ℕ → Topology → Except (ℤ × String) (ℕ × Topology)
  | [], hwid, t => .ok (hwid, t)
  | row :: rows, hwid, t =>
    match db.hwclusters row.cluster with
    | none => readClusters db rows hwid t
    | some e =>
      match t.addNode e.tid hwid 0 false 1 1 with
      | .error _ => consistencyProblem
      | .ok t => readClusters db rows (hwid + 1) (t.setBack (fillCluster row e))

/-- The loop over the vswitches. -/
def readVswitches : List ℕ → ℕ → Topology → Except (ℤ × String) (ℕ × Topology)
  | [], hwid, t => .ok (hwid, t)
  | vlanid :: vs, hwid, t =>
    match t.addNode "vgige" hwid 0 false 1 1 with
    | .error _ => consistencyProblem
    | .ok t => readVswitches vs (hwid + 1) (t.setBack (fillVswitch vlanid))

/-- The loop over the nodes. A node in a cluster of the hardware needs the cluster to be among
those read before. -/
def readNodes (db : Database) :
    List NodeRow → ℕ → Topology → Except (ℤ × String) (ℕ × Topology)
  | [], hwid, t => .ok (hwid, t)
  | row :: rows, hwid, t =>
    match db.nodes row.node with
    | none => readNodes db rows hwid t
    | some e =>
      let parentLabel := (e.cluster.map (fun c => t.getLabel c 0)).getD 0
      if e.cluster.isSome ∧ parentLabel = 0 then consistencyProblem
      else match db.types.find? (fun tp => tp.tid = e.tid) with
        | none => .error (-1, "no such type")
        | some tp =>
          match t.addNode e.tid hwid parentLabel tp.hasvport row.cores row.memory with
          | .error _ => consistencyProblem
          | .ok t => readNodes db rows (hwid + 1) (t.setBack (fillNode row e tp))

/-! ### The links -/

/-- What is known about one end of the link being read. -/
structure EndRead where
  label : ℕ := 0
  port : ℕ := 0
  rport : ℕ := 0
  cap : ℕ := 0
  name : String := ""

/-- `cur_link` and the variables that go with it. -/
structure Reading where
  link : ℕ
  cap : ℕ
  rload : ℕ
  lload : ℕ
  conns : List ℤ := []
  end1 : EndRead
  end2 : EndRead

/-- The values the four uninitialised port variables happen to have. -/
structure Uninitialised where
  port1 : ℕ := 0
  rport1 : ℕ := 0
  port2 : ℕ := 0
  rport2 : ℕ := 0

namespace Reading

/-- The variables as they are when the first row is read. -/
def first (u : Uninitialised) (row : LinkInfo) : Reading where
  link := row.linkid
  cap := row.capacity
  rload := row.rload
  lload := row.lload
  end1 := { port := u.port1, rport := u.rport1 }
  end2 := { port := u.port2, rport := u.rport2 }

/-- The variables at the first row of another link; the names stay. -/
def next (r : Reading) (row : LinkInfo) : Reading where
  link := row.linkid
  cap := row.capacity
  rload := row.rload
  lload := row.lload
  end1 := { name := r.end1.name }
  end2 := { name := r.end2.name }

/-- The search for the link in the link schedule. -/
def lookup (t : Topology) (vps : List LinkRow) (r : Reading) : Reading :=
  match vps.find? (fun v => v.linkid = r.link) with
  | none => r
  | some v =>
    { r with
      end1 := { r.end1 with
        label := t.getLabel v.node1 v.node1vmid
        port := v.port1
        name := v.node1
        cap := v.port1capacity }
      end2 := { r.end2 with
        label := t.getLabel v.node2 v.node2vmid
        port := v.port2
        name := v.node2
        cap := v.port2capacity } }

/-- What is done with each row. A link with an unknown end is from a reservation of the old
style. -/
def row (db : Database) (t : Topology) (r : Reading) (row : LinkInfo) :
    Except (ℤ × String) Reading :=
  let r := { r with conns := r.conns ++ [(row.cid : ℤ)] }
  if r.end1.label = 0 ∨ r.end2.label = 0 then
    match db.infrastructure row.node1 with
    | none => consistencyProblem
    | some true => .ok r
    | some false =>
      if r.end1.label = 0 then
        .ok { r with end1 := { r.end1 with
          label := t.getLabel row.node1 0
          port := row.node1port
          rport := row.node1port
          cap := r.cap } }
      else
        .ok { r with end2 := { r.end2 with
          label := t.getLabel row.node1 0
          port := row.node1port
          rport := r.end1.port
          cap := r.cap } }
  else if r.end1.label = t.getLabel row.node1 0 ∨ r.end1.name = row.node1 then
    .ok { r with end1 := { r.end1 with rport := row.node1port } }
  else if r.end2.label = t.getLabel row.node1 0 ∨ r.end2.name = row.node1 then
    .ok { r with end2 := { r.end2 with rport := row.node1port } }
  else .ok r

/-- The ends that `onldb::add_link` works with: a vswitch without a label is looked up in the
vswitch schedule. None where that has another number of rows than expected. -/
def ends (db : Database) (t : Topology) (vswitches : List VswitchRow) (r : Reading) :
    Option (EndRead × EndRead) :=
  if r.end2.label ≠ 0 then some (r.end1, r.end2)
  else
    match db.select (vswitches.filter (fun v => v.linkid = r.link)), decide (r.end1.label = 0) with
    | [v0], false =>
      some ({ r.end1 with rport := v0.port },
        { r.end2 with label := t.getLabel ("vgige" ++ toString v0.vlanid) 0, port := v0.port })
    | [v0, v1], true =>
      some ({ r.end1 with
          label := t.getLabel ("vgige" ++ toString v1.vlanid) 0, port := v1.port, rport := v0.port },
        { r.end2 with label := t.getLabel ("vgige" ++ toString v0.vlanid) 0, port := v0.port })
    | _, _ => none

/-- `onldb::add_link`, and the connections of the new link. -/
def finish (db : Database) (tb : Tables) (t : Topology) (linkid : ℕ) (r : Reading) :
    Except (ℤ × String) Topology :=
  match r.ends db t tb.vswitchschedule with
  | none => consistencyProblem
  | some (e1, e2) =>
    match t.addLink linkid r.cap e1.label e1.port e1.rport e2.label e2.port e2.rport r.rload
        r.lload e1.cap e2.cap with
    | .error _ => consistencyProblem
    | .ok t =>
      .ok { t with links := t.links.modify (t.links.length - 1) (fun l =>
        { l with conns := r.conns }) }

end Reading

/-- The loop over the rows of the connections. -/
def readLinks (db : Database) (tb : Tables) (vps : List LinkRow) :
    List LinkInfo → ℕ → Reading → Topology → Except (ℤ × String) Topology
  | [], linkid, r, t => r.finish db tb t linkid
  | row :: rows, linkid, r, t =>
    if r.link ≠ row.linkid then do
      let t ← r.finish db tb t linkid
      let r ← ((r.next row).lookup t vps).row db t row
      readLinks db tb vps rows (linkid + 1) r t
    else do
      let r ← r.row db t row
      readLinks db tb vps rows linkid r t

/-- `get_topology`. -/
def getTopology (db : Database) (u : Uninitialised) (tb : Tables) :
    Except (ℤ × String) Topology := do
  let (hwid, t) ← readClusters db (db.select tb.hwclusterschedule) 1 {}
  let (hwid, t) ← readVswitches (db.select (tb.vswitchschedule.map (·.vlanid)).dedup) hwid t
  let (_, t) ← readNodes db (db.select tb.nodeschedule) hwid t
  let vps := db.select tb.linkschedule
  match (db.selectByLinkid tb.connschedule).filterMap (ConnRow.join db) with
  | [] => .ok t
  | row :: rows => readLinks db tb vps (row :: rows) 1 ((Reading.first u row).lookup t vps) t

end OnlDaemons.Onldb

import Mathlib.Algebra.Order.BigOperators.Group.List
import Mathlib.Algebra.Order.Group.Nat
import Mathlib.Algebra.Order.Monoid.Prod
import OnlDaemons.Onldb.ExtendReservation
import OnlDaemons.Onldb.ReadPlaces

/-!
# The stored reservations

The rows of all reservations, and the answers that the queries of `extend_current_reservation`
give on them. What a row takes of its node is a number of cores and an amount of memory, which
are added and compared together.

## Main definitions

- `Store` — the reservations with their rows
- `Store.Answers` — the answers that agree with what is stored
- `Store.NodeFree`, `Store.HostWithin` — no conflict in the time that is added
-/

namespace OnlDaemons.Onldb

open OnlDaemons.Lib

/-! ### Amounts -/

/-- Cores and memory. -/
abbrev Amount : Type := ℕ × ℕ

def NodeRow.amount (row : NodeRow) : Amount := (row.cores,row.memory)

def NodeRow.use (row : NodeRow) : NodeUse := ⟨.ofNat row.cores,.ofNat row.memory⟩

def NodeUse.amount (use : NodeUse) : Amount := (use.cores.toNat,use.memory.toNat)

def Capacity.amount (c : Capacity) : Amount := (c.cores.toNat,c.memory.toNat)

def TopNode.amount (hw : TopNode) : Amount := (hw.coreCapacity.toNat,hw.memCapacity.toNat)

theorem NodeRow.amount_use {row : NodeRow} (h : row.cores < 65536 ∧ row.memory < 65536) :
    row.use.amount = row.amount := by
  have hcores : row.cores % 2 ^ 32 = row.cores := Nat.mod_eq_of_lt (by omega)
  have hmemory : row.memory % 2 ^ 32 = row.memory := Nat.mod_eq_of_lt (by omega)
  simp only [use,NodeUse.amount,amount,UInt32.toNat_ofNat',hcores,hmemory]

/-- A subtraction that does not wrap. -/
theorem Capacity.amount_sub {c : Capacity} {use : NodeUse} (h : use.amount ≤ c.amount) :
    (c.sub use).amount + use.amount = c.amount := by
  obtain ⟨hcores,hmemory⟩ := Prod.le_def.1 h
  refine Prod.ext ?_ ?_
  · show (c.cores - use.cores).toNat + use.cores.toNat = c.cores.toNat
    rw [UInt32.toNat_sub_of_le _ _ (UInt32.le_iff_toNat_le.2 hcores)]
    exact Nat.sub_add_cancel hcores
  · show (c.memory - use.memory).toNat + use.memory.toNat = c.memory.toNat
    rw [UInt32.toNat_sub_of_le _ _ (UInt32.le_iff_toNat_le.2 hmemory)]
    exact Nat.sub_add_cancel hmemory

/-! ### The store -/

/-- `state!='cancelled' and state!='timedout'`. -/
def Reservation.Live (r : Reservation) : Prop := r.state ≠ "cancelled" ∧ r.state ≠ "timedout"

instance (r : Reservation) : Decidable r.Live := inferInstanceAs (Decidable (_ ∧ _))

/-- The tables with the reservations and their rows, and the tables they refer to. -/
structure Store where
  db : Database
  types : List TypeCaps
  priv : String → ℕ
  reservations : List Reservation
  tables : ℕ → Tables
  rid_nodup : (reservations.map (·.rid)).Nodup
  /-- the columns are smallint -/
  amount_lt : ∀ rid, ∀ row ∈ (tables rid).nodeschedule, row.cores < 65536 ∧ row.memory < 65536
  /-- the cluster of a node is a cluster and not a node -/
  cluster_key : ∀ n e c, db.nodes n = some e → e.cluster = some c →
    db.nodes c = none ∧ (db.hwclusters c).isSome
  /-- a reservation that has a node of a cluster has the cluster, as `get_topology` asks for -/
  cluster_row : ∀ rid, ∀ row ∈ (tables rid).nodeschedule, ∀ e c, db.nodes row.node = some e →
    e.cluster = some c → ∃ row' ∈ (tables rid).hwclusterschedule, row'.cluster = c

namespace Store

variable (S : Store)

/-- The reservations `begin<=new_end and end>end_` of all users but some. -/
def overlapping (hidden : List String) (end_ newEnd : ℤ) : List Reservation :=
  S.reservations.filter fun r =>
    r.Live ∧ r.user ∉ hidden ∧ r.begin ≤ newEnd ∧ end_ < r.end_

/-- The rows of the node in some reservations. -/
def rowsOn (node : String) (rs : List Reservation) : List NodeRow :=
  rs.flatMap fun r => (S.tables r.rid).nodeschedule.filter (·.node = node)

def amountOn (node : String) (rs : List Reservation) : Amount :=
  ((S.rowsOn node rs).map NodeRow.amount).sum

/-- The capacity of the type of the node, as `fill_node_info` finds it. -/
def capacity (node : String) : Capacity :=
  match S.db.nodes node with
  | some e => fillNodeInfo S.types (Topology.lowercase e.tid)
  | none => ⟨0,0⟩

/-- The users whose reservations do not keep an administrator off a host or a node. -/
def hiddenHosts (admin : Bool) : List String := if admin then ["testing","repair"] else []

def hiddenNodes (admin : Bool) : List String := if admin then ["system","testing","repair"] else []

/-- The answers that agree with what is stored; a query may throw. -/
def Answers : ∀ q : Query, q.Answer → Prop
  | .currentReservation username current, .ok rows => ∀ r ∈ rows, r ∈ S.reservations ∧ r.Live ∧
      r.user = username ∧ r.begin ≤ current ∧ current ≤ r.end_
  | .getTopology rid, answer => 1 ≤ answer.1.result → ∃ u t,
      getTopology S.db u (S.tables rid) = .ok t ∧ answer.2 = t.nodes.map NodeResource.topNode
  | .types, .ok types => types = S.types
  | .isAdmin username, answer => answer.result = 1 → 0 < S.priv username
  | .isSysadmin username, answer => answer.result = 1 → 2 < S.priv username
  | .vmUse node admin end_ newEnd, .ok rows => rows.Perm
      ((S.rowsOn node (S.overlapping (hiddenHosts admin) end_ newEnd)).map NodeRow.use)
  | .clusterRids cluster admin end_ newEnd, .ok rids => ∀ rid, rid ∈ rids ↔
      ∃ r ∈ S.overlapping (hiddenNodes admin) end_ newEnd, r.rid = rid ∧
        ∃ row ∈ (S.tables rid).hwclusterschedule, row.cluster = cluster
  | .nodeRids node admin end_ newEnd, .ok rids => ∀ rid, rid ∈ rids ↔
      ∃ r ∈ S.overlapping (hiddenNodes admin) end_ newEnd, r.rid = rid ∧
        ∃ row ∈ (S.tables rid).nodeschedule, row.node = node
  | _, _ => True

/-- An environment in which no query throws: the divisor is 2, it is time 0, and nobody is kept
off by the policies. -/
def env : ∀ q : Query, q.Answer
  | .policy _ => .ok [2]
  | .timeNow => (0 : ℤ)
  | .currentReservation username current => .ok (S.reservations.filter fun r =>
      r.Live ∧ r.user = username ∧ r.begin ≤ current ∧ current ≤ r.end_)
  | .getTopology rid => match getTopology S.db {} (S.tables rid) with
    | .ok t => (⟨1,"success"⟩,t.nodes.map NodeResource.topNode)
    | .error er => (⟨-1,er.2⟩,[])
  | .types => .ok S.types
  | .typePolicy _ _ _ => .ok [⟨1000,1000,1000,1000,1000⟩]
  | .userUsage _ _ _ _ => .ok []
  | .grpUsage _ _ _ _ => .ok []
  | .isAdmin username => if 0 < S.priv username then ⟨1,"user is admin"⟩ else ⟨0,"not admin"⟩
  | .isSysadmin username => if 2 < S.priv username then ⟨1,"user is admin"⟩ else ⟨0,"not admin"⟩
  | .extensionTimes _ _ _ _ => .ok []
  | .vmUse node admin end_ newEnd =>
    .ok ((S.rowsOn node (S.overlapping (hiddenHosts admin) end_ newEnd)).map NodeRow.use)
  | .clusterRids cluster admin end_ newEnd =>
    .ok (((S.overlapping (hiddenNodes admin) end_ newEnd).map (·.rid)).filter fun rid =>
      ∃ row ∈ (S.tables rid).hwclusterschedule, row.cluster = cluster)
  | .nodeRids node admin end_ newEnd =>
    .ok (((S.overlapping (hiddenNodes admin) end_ newEnd).map (·.rid)).filter fun rid =>
      ∃ row ∈ (S.tables rid).nodeschedule, row.node = node)
  | .checkInterswitchBandwidth _ _ _ => ⟨1,"success"⟩
  | .setEnd _ _ => .ok ()
  | q => by cases q <;> exact default

theorem answers_env (q : Query) : S.Answers q (S.env q) := by
  cases q with
  | currentReservation username current =>
    intro r hr
    have hr := List.mem_filter.1 hr
    exact ⟨hr.1,of_decide_eq_true hr.2⟩
  | getTopology rid =>
    intro h
    cases hread : getTopology S.db {} (S.tables rid) with
    | ok t => exact ⟨{},t,hread,by simp [env,hread]⟩
    | error er => simp [env,hread] at h
  | types => rfl
  | isAdmin username =>
    intro h
    by_contra hno
    simp [env,hno] at h
  | isSysadmin username =>
    intro h
    by_contra hno
    simp [env,hno] at h
  | vmUse node admin end_ newEnd => exact .refl _
  | clusterRids cluster admin end_ newEnd =>
    intro rid
    simp only [List.mem_filter,List.mem_map,decide_eq_true_eq]
    tauto
  | nodeRids node admin end_ newEnd =>
    intro rid
    simp only [List.mem_filter,List.mem_map,decide_eq_true_eq]
    tauto
  | _ => trivial

/-! ### Conflicts -/

/-- The reservations after the update of the end of one. -/
def extended (rid : ℕ) (newEnd : ℤ) : List Reservation :=
  S.reservations.map fun r => if r.rid = rid then { r with end_ := newEnd } else r

/-- The reservation has nothing but virtual machines on the node, and the node is in no
cluster: other reservations may have virtual machines on it. -/
def SharedHost (rid : ℕ) (node : String) : Prop :=
  (∀ row ∈ (S.tables rid).nodeschedule, row.node = node → 0 < row.vmid) ∧
    ∀ e, S.db.nodes node = some e → e.cluster = none

/-- The reservation has the node, which is one of the testbed. -/
def Has (rid : ℕ) (node : String) : Prop :=
  (∃ row ∈ (S.tables rid).nodeschedule, row.node = node) ∧ (S.db.nodes node).isSome

/-- No other live reservation has the node in the time that is added to `r`. -/
def NodeFree (hidden : List String) (r : Reservation) (newEnd : ℤ) (node : String) : Prop :=
  ∀ r' ∈ S.reservations, r'.Live → r'.user ∉ hidden → r'.rid ≠ r.rid → r'.begin < newEnd →
    r.end_ < r'.end_ → ¬ S.Has r'.rid node

/-- The live reservations at one time, with one whose user does not matter. -/
def activeAt (hidden : List String) (rid : ℕ) (rs : List Reservation) (time : ℤ) :
    List Reservation :=
  rs.filter fun r =>
    r.Live ∧ (r.rid = rid ∨ r.user ∉ hidden) ∧ r.begin ≤ time ∧ time < r.end_

/-- At each instant of the time that is added to `r`, the live reservations stay within the
capacity of the host. -/
def HostWithin (hidden : List String) (r : Reservation) (newEnd : ℤ) (node : String) : Prop :=
  ∀ time, r.end_ ≤ time → time < newEnd →
    S.amountOn node (activeAt hidden r.rid (S.extended r.rid newEnd) time) ≤
      (S.capacity node).amount

/-- All reservations that overlap the time that is added, whether or not they overlap one
another, stay together within the capacity of the host. -/
def RowsFit (admin : Bool) (end_ newEnd : ℤ) (node : String) : Prop :=
  S.amountOn node (S.overlapping (hiddenHosts admin) end_ newEnd) ≤ (S.capacity node).amount

end Store

end OnlDaemons.Onldb

import Mathlib.Logic.Function.Basic
import OnlDaemons.Lib.ProgramEffects
import OnlDaemons.Onldb.SpecialState

/-!
# The tables of repair and testing

What the queries of repair and testing read of the tables, and what they leave of them. The rows that
are selected come in some order. A query that throws changes nothing.

`add_reservation` inserts the row of the reservation first, and the row stays if the insertion of what
belongs to it then throws. `handle_special_state` clears the names of all nodes before it calls
`try_reservation`, so no fixed node is found, and every node of the new reservation is one that
`get_base_topology` offers.

## Main definitions

- `SpecialDb` — the tables, and the topology that `get_topology` filled in last
- `SpecialDb.Offered` — the nodes that a new reservation can use
- `SpecialDb.Effects` — the effect of a query
-/

namespace OnlDaemons.Onldb

open OnlDaemons.Lib LockProg

/-- The topologies that the users see are of a type `T`. -/
structure SpecialDb (T : Type) where
  nodeState : String → Option String
  /-- The cluster of a node in hwclustercomps. -/
  cluster : String → Option String
  /-- The type of the node has a `hostedtype`. -/
  hosts : String → Bool
  reservations : List Reservation
  /-- The rows of nodeschedule of a reservation. -/
  nodes : ℕ → List String
  /-- The rows of hwclusterschedule of a reservation. -/
  clusters : ℕ → List String
  userTopology : ℕ → T
  loaded : Option T

namespace SpecialDb

variable {T : Type} (db : SpecialDb T)

/-- Repair and testing are the states of nodes and the users of the reservations that go with them. -/
def IsSpecial (s : String) : Prop := s = "repair" ∨ s = "testing"

instance (s : String) : Decidable (IsSpecial s) := inferInstanceAs (Decidable (_ ∨ _))

/-- The reservation has the cluster, or the node if it is in none. -/
def Has (rid : ℕ) (node : String) : Option String → Prop
  | some cluster => cluster ∈ db.clusters rid
  | none => node ∈ db.nodes rid

instance (rid : ℕ) (node : String) (parent : Option String) : Decidable (db.Has rid node parent) := by
  cases parent <;> exact inferInstanceAs (Decidable (_ ∈ _))

/-! ### The queries -/

def setNodeState (node state : String) : SpecialDb T :=
  { db with nodeState := fun n => if n = node then (db.nodeState n).map fun _ => state else db.nodeState n }

def mapRows (f : Reservation → Reservation) : SpecialDb T :=
  { db with reservations := db.reservations.map f }

/-- `update reservations set state=.. where rid=..`. -/
def setState (rid : ℕ) (state : String) : SpecialDb T :=
  db.mapRows fun r => if r.rid = rid then { r with state := state } else r

/-- `update reservations set end=.. where rid=..`. -/
def setEnd (rid : ℕ) (end_ : ℤ) : SpecialDb T :=
  db.mapRows fun r => if r.rid = rid then { r with end_ := end_ } else r

def cancelSpecial (state node : String) (parent : Option String) (current : ℤ) : SpecialDb T :=
  db.mapRows fun r =>
    if r.user = state ∧ r.begin < current ∧ current < r.end_ ∧ (r.state = "pending" ∨ r.state = "used") ∧
      db.Has r.rid node parent then { r with state := "cancelled" } else r

/-- The current reservations of a repair or testing. -/
def currentSpecial (state node : String) (parent : Option String) (current : ℤ) : List Reservation :=
  db.reservations.filter fun r => r.user = state ∧ r.begin ≤ current ∧ current ≤ r.end_ ∧
    r.state ≠ "timedout" ∧ r.state ≠ "cancelled" ∧ db.Has r.rid node parent

/-- The reservations that are mapped again. -/
def overlapping (node : String) (parent : Option String) (begin end_ : ℤ) : List Reservation :=
  db.reservations.filter fun r => begin ≤ r.end_ ∧ r.begin ≤ end_ ∧ r.state ≠ "cancelled" ∧
    r.state ≠ "timedout" ∧ r.state ≠ "active" ∧ ¬IsSpecial r.user ∧ r.user ≠ "system" ∧
    db.Has r.rid node parent

/-- The number of a new reservation. -/
def FreshRid (rid : ℕ) : Prop := ∀ r ∈ db.reservations, r.rid ≠ rid

instance (rid : ℕ) : Decidable (db.FreshRid rid) := inferInstanceAs (Decidable (∀ r ∈ db.reservations, _))

/-- A new reservation with what belongs to it. -/
def insert (r : Reservation) (nodes clusters : List String) (t : T) : SpecialDb T :=
  { db with
    reservations := db.reservations ++ [r]
    nodes := Function.update db.nodes r.rid nodes
    clusters := Function.update db.clusters r.rid clusters
    userTopology := Function.update db.userTopology r.rid t }

/-- The reservation is not over and has a part of the interval. -/
def Overlaps (r : Reservation) (begin end_ : ℤ) : Prop :=
  r.state ≠ "cancelled" ∧ r.state ≠ "timedout" ∧ r.begin < end_ ∧ begin < r.end_

instance (r : Reservation) (begin end_ : ℤ) : Decidable (Overlaps r begin end_) :=
  inferInstanceAs (Decidable (_ ∧ _))

/-- `get_base_topology` offers the nodes that are free, and of those that other users have the ones
that host others. -/
def Offered (begin end_ : ℤ) (node : String) : Prop :=
  (∀ s, db.nodeState node = some s → ¬IsSpecial s) ∧
      (∀ r ∈ db.reservations, node ∈ db.nodes r.rid → Overlaps r begin end_ → IsSpecial r.state) ∨
    db.hosts node = true ∧
      ∃ r ∈ db.reservations, node ∈ db.nodes r.rid ∧ Overlaps r begin end_ ∧ ¬IsSpecial r.user

/-- The effect of a query with an answer, from the tables before it to those after it. -/
def Effects (db : SpecialDb T) : ∀ q : Query, q.Answer → SpecialDb T → Prop
  | .nodeState node, .ok rows, db' => db' = db ∧ rows = (db.nodeState node).toList
  | .specialNode node, .ok rows, db' | .extendedNode node, .ok rows, db' | .clearedNode node, .ok rows, db' =>
    db' = db ∧ ∀ row ∈ rows, row.2 = db.cluster node
  | .specialComponents cluster node, .ok rows, db' | .clearedComponents cluster node, .ok rows, db' =>
    db' = db ∧ ∀ row ∈ rows, db.cluster row.1 = some cluster ∧ row.1 ≠ node
  | .extendedReservation state node parent current, .ok rows, db' =>
    db' = db ∧ rows.Perm (db.currentSpecial state node parent current)
  | .overlappingReservations node parent begin end_, .ok rows, db' =>
    db' = db ∧ rows.Perm (db.overlapping node parent begin end_)
  | .setNodeState node state, .ok (), db' => db' = db.setNodeState node state
  | .cancelSpecial state node parent current, .ok (), db' => db' = db.cancelSpecial state node parent current
  | .setState rid state, .ok (), db' => db' = db.setState rid state
  | .setEnd rid end_, .ok (), db' => db' = db.setEnd rid end_
  | .getTopology rid, r, db' =>
    db' = if r.1.result < 1 then db else { db with loaded := some (db.userTopology rid) }
  | .addReservation user begin end_, r, db' =>
    (r.result < 1 ∧ db' = db) ∨ ∃ rid nodes clusters t, db.FreshRid rid ∧
      db' = db.insert ⟨rid,user,begin,end_,"pending"⟩ nodes clusters t
  | .tryReservation user begin end_ state _, r, db' =>
    (r.result ≠ 1 ∧ db' = db) ∨ ∃ rid nodes clusters t, db.FreshRid rid ∧ db.loaded = some t ∧
      (∀ n ∈ nodes, db.Offered begin end_ n) ∧
      db' = db.insert ⟨rid,user,begin,end_,state⟩ nodes clusters t
  | _, _, db' => db' = db

/-! ### What the effects leave alone -/

@[simp] theorem setState_nodeState (rid : ℕ) (state : String) :
    (db.setState rid state).nodeState = db.nodeState := rfl

@[simp] theorem setEnd_nodeState (rid : ℕ) (end_ : ℤ) : (db.setEnd rid end_).nodeState = db.nodeState := rfl

@[simp] theorem cancelSpecial_nodeState (state node : String) (parent : Option String) (current : ℤ) :
    (db.cancelSpecial state node parent current).nodeState = db.nodeState := rfl

@[simp] theorem insert_nodeState (r : Reservation) (nodes clusters : List String) (t : T) :
    (db.insert r nodes clusters t).nodeState = db.nodeState := rfl

variable {db} {db' : SpecialDb T}

theorem setNodeState_nodeState {node state old : String} (h : db.nodeState node = some old) (n : String) :
    (db.setNodeState n state).nodeState node = some (if node = n then state else old) := by
  unfold setNodeState
  simp only
  split
  · next he => rw [h,Option.map_some]
  · exact h

/-- Only an update of the nodes changes their states. -/
theorem Effects.nodeState {q : Query} {answer : q.Answer} (h : Effects db q answer db')
    (hq : ∀ n s, q ≠ .setNodeState n s) : db'.nodeState = db.nodeState := by
  unfold Effects at h
  split at h
  all_goals try rw [h]
  all_goals try rw [h.1]
  · exact absurd rfl (hq _ _)
  · rw [cancelSpecial_nodeState]
  · rw [setState_nodeState]
  · rw [setEnd_nodeState]
  · split <;> rfl
  · obtain ⟨-,rfl⟩ | ⟨rid,nodes,clusters,t,-,rfl⟩ := h
    · rfl
    · rw [insert_nodeState]
  · obtain ⟨-,rfl⟩ | ⟨rid,nodes,clusters,t,-,-,-,rfl⟩ := h
    · rfl
    · rw [insert_nodeState]

end SpecialDb

end OnlDaemons.Onldb

import OnlDaemons.Lib.LockProgram
import OnlDaemons.Onldb.TimeRange

/-!
# What the operations on the schedule ask for

Every operation of `onldb` that changes the schedule takes the lock "reservation" of the database
server and gives it back on each of its returns. The operations are programs that ask the
database, and the functions of `onldb` that never touch the lock, for values. A query that throws
answers with the text of the exception. An exception outside of a `try` block leaves a function
that is declared `throw()`, which ends the daemon.

Times are seconds, as in `TimeRange`.

## Main definitions

- `Query`, `Query.Answer` — the questions, and what the answers to each can be
- `Op` — programs that ask them
-/

namespace OnlDaemons.Onldb

open OnlDaemons.Lib

structure OnldbResp where
  result : ℤ
  msg : String
deriving DecidableEq, Inhabited, Repr

/-- What the operations read of a node of a topology that `get_topology` filled in. -/
structure TopNode where
  type : String
  devType : String
  node : String
  fixed : Bool
  hasParent : Bool
  isParent : Bool
  vmid : ℕ
  coreCapacity : UInt32
  memCapacity : UInt32
deriving DecidableEq, Repr

/-- `typepolicyvals`. -/
structure TypePolicyVals where
  maxlen : ℕ
  usermaxnum : ℕ
  usermaxusage : ℕ
  grpmaxnum : ℕ
  grpmaxusage : ℕ

/-- A row of the reservations table. -/
structure Reservation where
  rid : ℕ
  user : String
  begin : ℤ
  end_ : ℤ
  state : String
deriving DecidableEq, Repr

/-- A row of the types table: `typeinfo`. -/
structure TypeCaps where
  tid : String
  corecapacity : UInt32
  memcapacity : UInt32
deriving DecidableEq, Repr

/-- A `basenodevminfo`: what a row of nodeschedule takes of its node. -/
structure NodeUse where
  cores : UInt32
  memory : UInt32
deriving DecidableEq, Repr

/-- `core_capacity` and `mem_capacity` of a node of the testbed, which are unsigned. -/
structure Capacity where
  cores : UInt32
  memory : UInt32
deriving DecidableEq, Repr

/-- The questions, each named after the place that asks it. A `subtract` asks nothing: it makes
the subtraction a part of the run. -/
inductive Query where
  | timeNow
  | policy (parameter : String)
  | timezone (username : String)
  -- functions that do not take the lock
  | getDevType (type : String)
  | getType (cluster : String)
  | fixComponent (label : ℕ) (node : String)
  | verifyClusters
  | getTopology (rid : ℕ)
  | addReservation (user : String) (begin end_ : ℤ)
  | tryReservation (user : String) (begin end_ : ℤ) (state : String) (noreservations : Bool)
  | fillInTopology (rid : ℕ)
  | getCapacity (type : String)
  | isAdmin (username : String)
  | isSysadmin (username : String)
  | checkInterswitchBandwidth (rid : ℕ) (begin end_ : ℤ)
  -- `handle_special_state` and `clear_special_state`
  | specialNode (node : String)
  | specialComponents (cluster node : String)
  | extendedNode (node : String)
  | extendedReservation (state node : String) (parent : Option String) (current : ℤ)
  | overlappingReservations (node : String) (parent : Option String) (begin end_ : ℤ)
  | clearedNode (node : String)
  | clearedComponents (cluster node : String)
  | cancelSpecial (state node : String) (parent : Option String) (current : ℤ)
  -- `set_state`, `put_in_testing`, `remove_from_testing`
  | nodeState (node : String)
  | setNodeState (node state : String)
  -- updates of the reservations table
  | setState (rid : ℕ) (state : String)
  | setEnd (rid : ℕ) (end_ : ℤ)
  | insertReservation (user : String) (begin end_ : ℤ)
  | cancelCurrent (username : String) (current : ℤ)
  -- `reserve_all`, `make_reservation`, `extend_current_reservation`
  | overlappingUsers (begin end_ : ℤ)
  | typePolicy (type username : String) (current : ℤ)
  | userUsage (type devType username : String) (week : ℤ)
  | grpUsage (type devType username : String) (week : ℤ)
  | userTimes (username : String) (admin : Bool) (begin end_ : ℤ)
  | allTimes (begin end_ : ℤ)
  | currentReservation (username : String) (current : ℤ)
  | types
  | extensionTimes (username : String) (sysadmin : Bool) (end_ newEnd : ℤ)
  | vmUse (node : String) (admin : Bool) (end_ newEnd : ℤ)
  | clusterRids (cluster : String) (admin : Bool) (end_ newEnd : ℤ)
  | nodeRids (node : String) (admin : Bool) (end_ newEnd : ℤ)
  | subtract (capacity : Capacity) (use : NodeUse)
  -- `has_reservation`, `assign_resources`, `return_resources`
  | currentEnd (username : String) (current : ℤ)
  | assignable (username : String) (current : ℤ)
  | externalDevs (username : String)
  | insertExperiment (current : ℤ) (rid : ℕ)
  | activeExperiment (username : String)
  | endExperiment (eid : ℕ) (current : ℤ)
deriving DecidableEq

/-- A query that selects rows, or throws. -/
abbrev Rows (α : Type) : Type := Except String (List α)

/-- A query that changes the database, or throws. -/
abbrev Written : Type := Except String Unit

@[reducible] def Query.Answer : Query → Type
  | timeNow => ℤ
  | policy _ => Rows ℕ
  | timezone _ => Rows String
  | getDevType _ => String
  | getTopology _ => OnldbResp × List TopNode
  | getType _ | fixComponent _ _ | verifyClusters | addReservation _ _ _
  | tryReservation _ _ _ _ _ | fillInTopology _ | getCapacity _ | isAdmin _ | isSysadmin _
  | checkInterswitchBandwidth _ _ _ => OnldbResp
  -- the type of the node and its cluster
  | specialNode _ | extendedNode _ | clearedNode _ => Rows (String × Option String)
  -- the nodes of the cluster with their types
  | specialComponents _ _ | clearedComponents _ _ => Rows (String × String)
  | extendedReservation _ _ _ _ | currentReservation _ _ | overlappingReservations _ _ _ _ =>
    Rows Reservation
  | nodeState _ | overlappingUsers _ _ | externalDevs _ => Rows String
  | cancelSpecial _ _ _ _ | setNodeState _ _ | setState _ _ | setEnd _ _
  | insertReservation _ _ _ | cancelCurrent _ _ | insertExperiment _ _ | endExperiment _ _ => Written
  | typePolicy _ _ _ => Rows TypePolicyVals
  | userUsage _ _ _ _ | grpUsage _ _ _ _ | userTimes _ _ _ _ | allTimes _ _
  | extensionTimes _ _ _ _ => Rows Restime
  | types => Rows TypeCaps
  | vmUse _ _ _ _ => Rows NodeUse
  | clusterRids _ _ _ _ | nodeRids _ _ _ _ => Rows ℕ
  | currentEnd _ _ => Rows ℤ
  | subtract _ _ => Unit
  | assignable _ _ => Rows ℕ
  -- the experiment with its reservation
  | activeExperiment _ => Rows (ℕ × ℕ)

abbrev Op : Type := LockProg Query.Answer OnldbResp

/-- Local time: the beginning of some week, and how times are written. -/
structure Clock where
  monday : ℤ
  unix2db : ℤ → String

open LockProg

/-- Give the lock back and return. -/
def unlockRet (result : ℤ) (msg : String) : Op := .unlock (.ret ⟨result, msg⟩)

def lockingProblem : Op := .ret ⟨0, "database locking problem.. try again later"⟩

/-- `discretize_time`; a divisor that leaves no whole minute divides by zero. -/
def discretizeTime (clock : Clock) (time : ℤ) (divisor : ℕ) (k : ℤ → Op) : Op :=
  let timeChunk : ℤ := (60 / divisor : ℕ)
  if timeChunk = 0 then .stop
  else
    let hour := time - (time - clock.monday) % 3600
    k (hour + (time - hour) / 60 / timeChunk * timeChunk * 60)

end OnlDaemons.Onldb

import OnlDaemons.Onldb.ReservationQueries

/-!
# Repair and testing

A node is put into repair or testing by a reservation of the user "repair" or "testing", and the
other reservations that overlap it are mapped again.

## Main definitions

- `handleSpecialState`, `clearSpecialState` — the private operations that take the lock
- `setState`, `putInTesting`, `removeFromTesting`, `extendRepair`, `extendTesting` — the public
  ones that call them
-/

namespace OnlDaemons.Onldb

open OnlDaemons.Lib LockProg

variable (clock : Clock) (node : String)

/-- A reservation that overlaps the special one is cancelled and mapped again elsewhere, or else
put back. -/
def remapReservation (parent : Option String) (res : Reservation) (_ : Unit) (k : Unit → Op) :
    Op :=
  .ask (.setState res.rid "cancelled") fun
  | .error er => unlockRet (-1) er
  | .ok () => .ask (.getTopology res.rid) fun r =>
    if r.1.result < 1 then k ()
    else .ask .verifyClusters fun r' =>
      if r'.result < 1 then k ()
      else
        let uncancel : Op := .ask (.setState res.rid res.state) fun
          | .error er => unlockRet (-1) er
          | .ok () => k ()
        if r.2.any (fun n => (n.node == parent.getD "" || n.node == node) && n.fixed) then uncancel
        else .ask (.tryReservation res.user res.begin res.end_ "used" false) fun r =>
          if r.result = 1 then k ()
          else if r.result < 0 then k ()
          else uncancel

/-- The old state, when the reservation cannot be moved. -/
def setBack (res : Reservation) (k : Unit → Op) : Op :=
  .ask (.setState res.rid res.state) fun
  | .error er => unlockRet (-1) er
  | .ok () => k ()

/-- The last part of `handle_special_state`. -/
def remapReservations (parent : Option String) (begin end_ : ℤ) : Op :=
  .ask (.overlappingReservations node parent begin end_) fun
  | .error er => unlockRet (-1) er
  | .ok reslist =>
    forEach (remapReservation node parent) reslist () fun _ => unlockRet 1 "success"

/-- The part of `handle_special_state` for a new repair or testing, from where the lock is
taken. -/
def addSpecial (state : String) (divisor len : ℕ) (parent : Option String) : Op :=
  .ask (.fixComponent 1 node) fun fc =>
  if fc.result < 1 then .ret fc
  else .ask .timeNow fun now =>
    discretizeTime clock now divisor fun begin =>
    let end_ := addTime begin (len * 60 * 60)
    .lock fun
    | false => .ret ⟨0, "database locking problem"⟩
    | true => .ask .verifyClusters fun vcr =>
      if vcr.result ≠ 1 then unlockRet vcr.result vcr.msg
      else .ask (.addReservation state begin end_) fun r =>
        if r.result < 1 then unlockRet r.result r.msg
        else remapReservations node parent begin end_

/-- One of the other nodes of the cluster. -/
def addComponent (state : String) (comp : String × String) (label : ℕ) (k : ℕ → Op) : Op :=
  .ask (.fixComponent label comp.1) fun blah =>
  if blah.result < 1 then .ret blah
  else .ask (.setNodeState comp.1 state) fun
    | .error er => .ret ⟨-1, er⟩
    | .ok () => k (label + 1)

/-- The part of `handle_special_state` for a new repair or testing. -/
def newSpecial (state : String) (divisor len : ℕ) : Op :=
  .ask (.specialNode node) fun
  | .error er => .ret ⟨-1, er⟩
  | .ok [] => .ret ⟨-1, "database error"⟩
  | .ok ((_, none) :: _) => addSpecial clock node state divisor len none
  | .ok ((_, some cluster) :: _) => .ask (.getType cluster) fun pt =>
    if pt.result < 1 then .ret pt
    else .ask (.specialComponents cluster node) fun
      | .error er => .ret ⟨-1, er⟩
      | .ok complist => forEach (addComponent state) complist 3 fun _ =>
        addSpecial clock node state divisor len (some cluster)

/-- The part of `handle_special_state` for a repair or testing that goes on. -/
def extendSpecial (state : String) (divisor len : ℕ) : Op :=
  if len = 0 then .ret ⟨0, "zero hours doesn't make sense"⟩
  else .ask .timeNow fun now =>
    discretizeTime clock now divisor fun current =>
    .lock fun
    | false => .ret ⟨0, "database locking problem"⟩
    | true => .ask (.extendedNode node) fun
      | .error er => unlockRet (-1) er
      -- this return does not give the lock back
      | .ok [] => .ret ⟨-1, "database error"⟩
      | .ok ((_, parent) :: _) => .ask (.extendedReservation state node parent current) fun
        | .error er => unlockRet (-1) er
        | .ok [] => unlockRet 0 ("this is no current " ++ state ++ " reservation for " ++ node)
        | .ok (curres :: _) =>
          let newEnd := addTime curres.end_ (len * 60 * 60)
          .ask (.getTopology curres.rid) fun r =>
          if r.1.result < 1 then unlockRet r.1.result r.1.msg
          else .ask (.setEnd curres.rid newEnd) fun
            | .error er => unlockRet (-1) er
            | .ok () => remapReservations node parent curres.end_ newEnd

def handleSpecialState (state : String) (len : ℕ) (extend : Bool) : Op :=
  .ask (.policy "divisor") fun
  | .error er => .ret ⟨-1, er⟩
  | .ok [] => .ret ⟨-1, "policy database error.. divisor is not in the database"⟩
  | .ok (divisor :: _) =>
    if extend then extendSpecial clock node state divisor len
    else if len = 0 then .ask (.policy "repair_time") fun
      | .error er => .ret ⟨-1, er⟩
      | .ok [] => .ret ⟨-1, "policy database error.. repair_time is not in the database"⟩
      | .ok (len :: _) => newSpecial clock node state divisor len
    else newSpecial clock node state divisor len

/-- The end of `clear_special_state`. -/
def cancelSpecial (state : String) (parent : Option String) (current : ℤ) : Op :=
  .ask (.cancelSpecial state node parent current) fun
  | .error er => unlockRet (-1) er
  | .ok () => unlockRet 1 "success"

def clearComponent (newState : String) (comp : String × String) (_ : Unit) (k : Unit → Op) : Op :=
  .ask (.setNodeState comp.1 newState) fun
  | .error er => unlockRet (-1) er
  | .ok () => k ()

def clearSpecialState (state newState : String) : Op :=
  .lock fun
  | false => .ret ⟨0, "database locking problem"⟩
  | true => .ask .timeNow fun current => .ask (.clearedNode node) fun
    | .error er => unlockRet (-1) er
    -- this return does not give the lock back
    | .ok [] => .ret ⟨-1, "database error"⟩
    | .ok ((_, none) :: _) => cancelSpecial node state none current
    | .ok ((_, some cluster) :: _) => .ask (.clearedComponents cluster node) fun
      | .error er => unlockRet (-1) er
      | .ok complist => forEach (clearComponent newState) complist () fun _ =>
        cancelSpecial node state (some cluster) current

def setState (state : String) (len : ℕ) : Op :=
  if node.startsWith "vgige" then .ret ⟨1, "success"⟩
  else .ask (.nodeState node) fun
    | .error er => .ret ⟨-1, er⟩
    | .ok [] => .ret ⟨-1, "node " ++ node ++ " not in the database"⟩
    | .ok (oldState :: _) =>
      let rest : Op :=
        if oldState = "testing" then .ret ⟨1, "success"⟩
        else if state = "repair" ∧ oldState ≠ "repair" then
          (handleSpecialState clock node state len false).bind fun r =>
            .ret (if r.result ≤ 0 then r else ⟨1, "success"⟩)
        else if oldState = "repair" ∧ state ≠ "repair" then
          (clearSpecialState node oldState state).bind fun r =>
            .ret (if r.result ≤ 0 then r else ⟨1, "success"⟩)
        else .ret ⟨1, "success"⟩
      if oldState ≠ state ∧ oldState ≠ "testing" then .ask (.setNodeState node state) fun
        | .error er => .ret ⟨-1, er⟩
        | .ok () => rest
      else rest

def putInTesting (len : ℕ) : Op :=
  .ask (.nodeState node) fun
  | .error er => .ret ⟨-1, er⟩
  | .ok [] => .ret ⟨-1, "node " ++ node ++ " not in the database"⟩
  | .ok (oldState :: _) =>
    if oldState = "testing" then .ret ⟨0, "node " ++ node ++ " already in testing"⟩
    else .ask (.setNodeState node "testing") fun
      | .error er => .ret ⟨-1, er⟩
      | .ok () =>
        let handle : Op := (handleSpecialState clock node "testing" len false).bind fun t =>
          .ret (if t.result ≤ 0 then t else ⟨1, "success"⟩)
        if oldState = "repair" then (clearSpecialState node oldState "testing").bind fun r =>
          if r.result ≤ 0 then .ret r else handle
        else handle

def removeFromTesting : Op :=
  .ask (.nodeState node) fun
  | .error er => .ret ⟨-1, er⟩
  | .ok [] => .ret ⟨-1, "node " ++ node ++ " not in the database"⟩
  | .ok (oldState :: _) =>
    if oldState ≠ "testing" then .ret ⟨0, "node " ++ node ++ " is not in testing"⟩
    else .ask (.setNodeState node "free") fun
      | .error er => .ret ⟨-1, er⟩
      | .ok () => (clearSpecialState node oldState "free").bind fun r =>
        .ret (if r.result ≤ 0 then r else ⟨1, "success"⟩)

def extendRepair (len : ℕ) : Op := (handleSpecialState clock node "repair" len true).bind .ret

def extendTesting (len : ℕ) : Op := (handleSpecialState clock node "testing" len true).bind .ret

end OnlDaemons.Onldb

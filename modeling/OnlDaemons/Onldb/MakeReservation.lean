import OnlDaemons.Onldb.ReservationQueries
import OnlDaemons.Onldb.WeeklyPolicy
import Mathlib.Data.List.Dedup
import Mathlib.Data.List.Sort

/-!
# Making reservations

`reserve_all` and `make_reservation` check their arguments and the policies, and take the lock
before they look at the schedule. `make_reservation` keeps a list of ranges of start times, from
which the policy of each type and the user's own reservations are cut out, and tries the times
that are left.

## Main definitions

- `reserveAll`, `makeReservation`
-/

namespace OnlDaemons.Onldb

open OnlDaemons.Lib LockProg

variable (clock : Clock) (username : String)

/-- `reserve_all` from where it has the lock. -/
def reserveAllLocked (begin end_ : ℤ) : Op :=
  .ask (.overlappingUsers begin end_) fun
  | .error er => unlockRet (-1) er
  | .ok rts =>
    if rts.any (fun user => user != "testing" && user != "repair") then
      unlockRet 0 "there are non-system reservations during that time!"
    else .ask (.insertReservation "system" begin end_) fun
      | .error er => unlockRet (-1) er
      | .ok () => unlockRet 1 "success"

def reserveAll (begin : ℤ) (len : ℕ) : Op :=
  .ask (.policy "divisor") fun
  | .error er => .ret ⟨-1, er⟩
  | .ok [] => .ret ⟨-1, "policy database error.. divisor is not in the database"⟩
  | .ok (divisor :: _) => .ask .timeNow fun now =>
    discretizeTime clock now divisor fun current =>
    discretizeTime clock begin divisor fun begin =>
    if begin < current then .ret ⟨0, "begin time is in the past"⟩
    else if len = 0 then .ret ⟨0, "length of " ++ toString len ++ " minutes does not make sense"⟩
    else
      let chunk := 60 / divisor
      let len := ((len - 1) / chunk + 1) * chunk
      let end_ := addTime begin (len * 60)
      .ask (.policy "horizon") fun
      | .error er => .ret ⟨-1, er⟩
      | .ok [] => .ret ⟨-1, "policy database error.. horizon is not in the database"⟩
      | .ok (horizon :: _) =>
        if end_ > addTime current (horizon * 24 * 60 * 60) then
          .ret ⟨0, "requested times too far into the future (currently a " ++ toString horizon ++
            " day limit)"⟩
        else .lock fun
          | false => lockingProblem
          | true => reserveAllLocked begin end_

/-- What `make_reservation` reads of a node of the requested topology; `devType` is filled in
on the way. -/
structure ReqNode where
  type : String
  devType : String
  hasParent : Bool
deriving DecidableEq, Repr, Inhabited

/-- A requested link; its ends are positions in the list of nodes. -/
structure ReqLink where
  node1 : ℕ
  node1Capacity : ℕ
  node2 : ℕ
  node2Capacity : ℕ
deriving DecidableEq, Repr

/-- An entry of `type_list`. -/
structure TypeListEntry where
  type : String
  devType : String
  num : ℕ
deriving DecidableEq, Repr

/-- One round of the loop that builds `type_list`. -/
def addToTypeList (hw : ReqNode) (acc : List ReqNode × List TypeListEntry)
    (k : List ReqNode × List TypeListEntry → Op) : Op :=
  if hw.hasParent then k (acc.1 ++ [hw],acc.2)
  else match acc.2.find? (fun ti => ti.type == hw.type) with
    | some ti => k (acc.1 ++ [{ hw with devType := ti.devType }],
        acc.2.map fun x => if x.type = hw.type then { x with num := x.num + 1 } else x)
    | none => .ask (.getDevType hw.type) fun devType =>
      k (acc.1 ++ [{ hw with devType := devType }],acc.2 ++ [⟨hw.type, devType, 1⟩])

/-- The interface of one end of a link has to carry the link. -/
def checkCapacity (which link : String) (node : ReqNode) (capacity : ℕ) (k : Unit → Op) : Op :=
  if node.type ≠ "vgige" ∧ node.devType ≠ "hosted" then .ask (.getCapacity node.type) fun r =>
    if (capacity : ℤ) > r.result then
      .ret ⟨-1, which ++ " in link(" ++ link ++ ") violates bandwidth of interface"⟩
    else k ()
  else k ()

def checkLink (nodes : List ReqNode) (lit : ReqLink) (_ : Unit) (k : Unit → Op) : Op :=
  let node1 := nodes.getD lit.node1 default
  let node2 := nodes.getD lit.node2 default
  let link := node1.type ++ ", " ++ node2.type
  checkCapacity "node1" link node1 lit.node1Capacity fun _ =>
    checkCapacity "node2" link node2 lit.node2Capacity k

/-- One week of the usage policy of a type. -/
def checkUsage (ti : TypeListEntry) (tpv : TypePolicyVals) (len : ℤ) (weekStart : ℤ)
    (w : TimeRange × List TimeRange) (k : TimeRange × List TimeRange → Op) : Op :=
  .ask (.userUsage ti.type ti.devType username weekStart) fun
  | .error er => unlockRet (-1) er
  | .ok user => .ask (.grpUsage ti.type ti.devType username weekStart) fun
    | .error er => unlockRet (-1) er
    | .ok grp => k (checkWeek ⟨ti.num, tpv.usermaxusage, tpv.grpmaxusage, user, grp⟩ len weekStart w)

/-- The beginnings of the weeks that a range reaches. -/
def weeksOf (tr : TimeRange) : List ℤ :=
  (List.range (weekCount clock.monday tr)).map fun i =>
    addTime (getStartOfWeek clock.monday tr.b1) (i * secondsPerWeek)

/-- The usage policy of a type, for one range. -/
def checkRange (ti : TypeListEntry) (tpv : TypePolicyVals) (len : ℤ) (tr : TimeRange)
    (newPossibleTimes : List TimeRange) (k : List TimeRange → Op) : Op :=
  forEach (checkUsage username ti tpv len) (weeksOf clock tr) (tr,newPossibleTimes) fun w => k w.2

/-- The policy of one type. -/
def checkTypePolicy (current : ℤ) (len : ℕ) (ti : TypeListEntry) (possibleTimes : List TimeRange)
    (k : List TimeRange → Op) : Op :=
  .ask (.typePolicy ti.type username current) fun
  | .error er => unlockRet (-1) er
  | .ok [] => unlockRet 0 ("you do not have access to type " ++ ti.type)
  | .ok (tpv :: _) =>
    if len > tpv.maxlen * 60 then
      unlockRet 0 ("requested time too long (currently a " ++ toString tpv.maxlen ++ " hour limit)")
    else if ti.num > tpv.usermaxnum then
      unlockRet 0 ("you do not have access to that many " ++ ti.type ++ "s (currently a " ++
        toString tpv.usermaxnum ++ " limit)")
    else forEach (checkRange clock username ti tpv len) possibleTimes [] k

/-- Take the user's own reservations out of a range. -/
def removeUserTimes (admin : Bool) (tr : TimeRange) (newPossibleTimes : List TimeRange)
    (k : List TimeRange → Op) : Op :=
  .ask (.userTimes username admin tr.b1 tr.e2) fun
  | .error er => unlockRet (-1) er
  | .ok rts => k (newPossibleTimes ++ subtractRange rts tr)

/-- The times inside the range at which a reservation begins or ends. -/
def timesOfInterest (tr : TimeRange) (rts : List Restime) : List ℤ :=
  (((rts.flatMap fun r => [r.rb,r.re]).filter fun t => t > tr.b1 ∧ t < tr.e2).mergeSort
    fun a b => a ≤ b).dedup

/-- Where the loop over the start times is. -/
structure TryState where
  changed : Bool
  toiStart : List ℤ
  toiEnd : List ℤ

/-- A time of interest is passed. -/
def passTime (toi : List ℤ) (cur : ℤ) (changed : Bool) : List ℤ × Bool :=
  match toi with
  | t :: rest => if t ≤ cur then (rest,true) else (toi,changed)
  | [] => (toi,changed)

/-- One start time of a range. -/
def tryTime (length : ℤ) (curStart : ℤ) (s : TryState) (k : TryState → Op) : Op :=
  let curEnd := curStart + length
  let start := passTime s.toiStart curStart s.changed
  let stop := passTime s.toiEnd curEnd start.2
  if stop.2 then .ask (.tryReservation username curStart curEnd "pending" false) fun trr =>
    if trr.result = 1 then unlockRet 1 (clock.unix2db curStart)
    else if trr.result < 0 then unlockRet (-1) trr.msg
    else k ⟨false, start.1, stop.1⟩
  else k ⟨false, start.1, stop.1⟩

/-- The start times of a range, one for each slot. -/
def startTimes (tr : TimeRange) (increment : ℕ) : List ℤ :=
  (List.range ((tr.b2 - tr.b1) / increment + 1).toNat).map fun i => tr.b1 + i * increment

/-- The times of one range. The query is outside of any `try`. -/
def tryRange (divisor : ℕ) (tr : TimeRange) (_ : Unit) (k : Unit → Op) : Op :=
  .ask (.allTimes tr.b1 tr.e2) fun
  | .error _ => .stop
  | .ok rts =>
    let toi := timesOfInterest tr rts
    .ask (.tryReservation username tr.b1 tr.e1 "pending" true) fun trr =>
    if trr.result ≠ 1 then
      unlockRet (-1) ("Unable to map topology. If this is a class, see your TA. " ++
        "Otherwise, contact ONL testbedops")
    else forEach (tryTime clock username (tr.e1 - tr.b1)) (startTimes tr (60 / divisor * 60))
      ⟨true, toi, toi.dropWhile (· < tr.e1)⟩ fun _ => k ()

/-- `make_reservation` from where it has the lock. -/
def makeReservationLocked (divisor : ℕ) (current : ℤ) (len : ℕ) (typeList : List TypeListEntry)
    (tr : TimeRange) : Op :=
  .ask .verifyClusters fun vcr =>
  if vcr.result ≠ 1 then unlockRet vcr.result vcr.msg
  else forEach (checkTypePolicy clock username current len) typeList [tr] fun possibleTimes =>
    if possibleTimes = [] then
      unlockRet 0 "your usage during that time period is already maxed out"
    else .ask (.isSysadmin username) fun ra =>
      forEach (removeUserTimes username (ra.result == 1)) possibleTimes [] fun possibleTimes =>
      if possibleTimes = [] then
        unlockRet 0 ("either you already have reservations or there is system maintenance " ++
          "during that time period")
      else forEach (tryRange clock username divisor) possibleTimes () fun _ =>
        unlockRet 0 "too many resources used by others during those times"

/-- The horizon of the policy, and the lock. -/
def checkHorizon (divisor : ℕ) (current begin1 begin2 : ℤ) (len : ℕ) (typeList : List TypeListEntry) :
    Op :=
  .ask (.policy "horizon") fun
  | .error er => .ret ⟨-1, er⟩
  | .ok [] => .ret ⟨-1, "policy database error.. horizon is not in the database"⟩
  | .ok (horizon :: _) =>
    let end1 := addTime begin1 (len * 60)
    let end2 := addTime begin2 (len * 60)
    let limit := addTime current (horizon * 24 * 60 * 60)
    if end1 > limit then
      .ret ⟨0, "requested times too far into the future (currently a " ++ toString horizon ++
        " day limit)"⟩
    else
      let tr : TimeRange :=
        if end2 > limit then ⟨begin1, subTime limit (len * 60), end1, limit⟩
        else ⟨begin1, begin2, end1, end2⟩
      .lock fun
      | false => lockingProblem
      | true => makeReservationLocked clock username divisor current len typeList tr

/-- The checks of the arguments, from where the times are known. -/
def checkRequest (divisor : ℕ) (current begin1 begin2 : ℤ) (len : ℕ) (nodes : List ReqNode)
    (links : List ReqLink) : Op :=
  let begin2 := if begin1 > begin2 then begin1 else begin2
  if begin1 < current ∧ begin2 < current then
    .ret ⟨0, "range of begin times from " ++ clock.unix2db begin1 ++ " to " ++
      clock.unix2db begin2 ++ " is in the past"⟩
  else if len = 0 then .ret ⟨0, "length of " ++ toString len ++ " minutes does not make sense"⟩
  else
    let begin1 := if begin1 < current then current else begin1
    let chunk := 60 / divisor
    let len := ((len - 1) / chunk + 1) * chunk
    if nodes = [] then .ret ⟨0, "no components requested"⟩
    else forEach addToTypeList nodes ([],[]) fun acc =>
      forEach (checkLink acc.1) links () fun _ =>
      checkHorizon clock username divisor current begin1 begin2 len acc.2

def makeReservation (begin1 begin2 : ℤ) (len : ℕ) (nodes : List ReqNode) (links : List ReqLink) :
    Op :=
  .ask (.policy "divisor") fun
  | .error er => .ret ⟨-1, er⟩
  | .ok [] => .ret ⟨-1, "policy database error.. divisor is not in the database"⟩
  | .ok (divisor :: _) => .ask .timeNow fun now =>
    discretizeTime clock now divisor fun current =>
    discretizeTime clock begin1 divisor fun begin1 =>
    discretizeTime clock begin2 divisor fun begin2 =>
    .ask (.timezone username) fun
    | .error er => .ret ⟨-1, er⟩
    | .ok [] => .ret ⟨-1, "user " ++ username ++ " not in the database"⟩
    | .ok (_ :: _) => checkRequest clock username divisor current begin1 begin2 len nodes links

end OnlDaemons.Onldb

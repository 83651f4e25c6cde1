import OnlDaemons.Onldb.MakeReservation

/-!
# Extending the current reservation

`extend_current_reservation` is a second implementation of the rules of availability: it looks
for reservations that overlap the added time and have a node or a cluster of the reservation in
common with it, and counts the cores and the memory of the nodes on which it has virtual machines.

## Main definitions

- `extendCurrentReservation`
- `checkNode` — the test of one node of the reservation
-/

namespace OnlDaemons.Onldb

open OnlDaemons.Lib LockProg

variable (clock : Clock) (username : String)

/-- The loop that builds `type_list`. -/
def typeListOf (nodes : List TopNode) : List TypeListEntry :=
  nodes.foldl (fun l hw =>
    if hw.hasParent then l
    else if l.any (fun ti => ti.type == hw.type) then
      l.map fun ti => if ti.type = hw.type then { ti with num := ti.num + 1 } else ti
    else l ++ [⟨hw.type, hw.devType, 1⟩]) []

/-- One week of the usage policy of a type; the range of the extension begins now. -/
def checkExtendedUsage (ti : TypeListEntry) (tpv : TypePolicyVals) (len : ℤ) (current newEnd : ℤ)
    (weekStart : ℤ) (_ : Unit) (k : Unit → Op) : Op :=
  .ask (.userUsage ti.type ti.devType username weekStart) fun
  | .error er => unlockRet (-1) er
  | .ok user => .ask (.grpUsage ti.type ti.devType username weekStart) fun
    | .error er => unlockRet (-1) er
    | .ok grp =>
      if OverLimit ⟨ti.num, tpv.usermaxusage, tpv.grpmaxusage, user, grp⟩ len
          ⟨current, current, newEnd, newEnd⟩ weekStart then
        unlockRet 0 "your usage during this time period is already maxed out"
      else k ()

/-- The policy of one type. -/
def checkExtendedType (current newEnd : ℤ) (len : ℕ) (ti : TypeListEntry) (_ : Unit)
    (k : Unit → Op) : Op :=
  .ask (.typePolicy ti.type username current) fun
  | .error er => unlockRet (-1) er
  | .ok [] => unlockRet 0 ("you do not have access to type " ++ ti.type)
  | .ok (tpv :: _) =>
    if len > tpv.maxlen * 60 then
      unlockRet 0 ("requested time too long (currently a " ++ toString tpv.maxlen ++ " hour limit)")
    else forEach (checkExtendedUsage username ti tpv len current newEnd)
      (weeksOf clock ⟨current, current, newEnd, newEnd⟩) () k

/-- `fill_node_info` for a new node of the type. -/
def fillNodeInfo (typenfo : List TypeCaps) (type : String) : Capacity :=
  match typenfo.find? (fun it => it.tid == type) with
  | some it => ⟨it.corecapacity, it.memcapacity⟩
  | none => ⟨0, 0⟩

def Capacity.sub (c : Capacity) (use : NodeUse) : Capacity :=
  ⟨c.cores - use.cores, c.memory - use.memory⟩

/-- `core_capacity -= cores; mem_capacity -= memory`. -/
def subtract (use : NodeUse) (c : Capacity) (k : Capacity → Op) : Op :=
  .ask (.subtract c use) fun _ => k (c.sub use)

/-- A virtual machine is put on its host if the host has the capacity left. -/
def placeVm (hw : TopNode) (capacity : Capacity) (vmNodes : List (String × Capacity))
    (k : List (String × Capacity) → Op) : Op :=
  if capacity.cores < hw.coreCapacity ∨ capacity.memory < hw.memCapacity then
    unlockRet 0 "resources used by others during that time"
  else subtract ⟨hw.coreCapacity, hw.memCapacity⟩ capacity fun c => k ((hw.node,c) :: vmNodes)

/-- The answer to the query for the reservations of a node or a cluster: there has to be none. -/
def noReservation (answer : Rows ℕ) (k : Op) : Op :=
  match answer with
  | .error er => unlockRet (-1) er
  | .ok [] => k
  | .ok (_ :: _) => unlockRet 0 "resources used by others during that time"

/-- The test of one node; `vmNodes` has the hosts met so far, with the capacity that is left. -/
def checkNode (admin : Bool) (typenfo : List TypeCaps) (end_ newEnd : ℤ) (hw : TopNode)
    (vmNodes : List (String × Capacity)) (k : List (String × Capacity) → Op) : Op :=
  if hw.hasParent then k vmNodes
  else if hw.type = "vgige" then k vmNodes
  else if hw.vmid > 0 then
    match vmNodes.lookup hw.node with
    | some capacity => placeVm hw capacity vmNodes k
    | none => .ask (.vmUse hw.node admin end_ newEnd) fun
      | .error er => unlockRet (-1) er
      | .ok bnia => forEach subtract bnia (fillNodeInfo typenfo hw.type) fun capacity =>
        placeVm hw capacity vmNodes k
  else if hw.isParent then
    .ask (.clusterRids hw.node admin end_ newEnd) fun answer => noReservation answer (k vmNodes)
  else .ask (.nodeRids hw.node admin end_ newEnd) fun answer => noReservation answer (k vmNodes)

/-- The tests of the schedule, and the extension. -/
def extendChecked (admin sysadmin : Bool) (typenfo : List TypeCaps) (nodes : List TopNode)
    (rid : ℕ) (end_ newEnd : ℤ) : Op :=
  .ask (.extensionTimes username sysadmin end_ newEnd) fun
  | .error er => unlockRet (-1) er
  | .ok (_ :: _) =>
    unlockRet 0 ("you either already have a reservation or system maintenace is during that " ++
      "time period")
  | .ok [] => forEach (checkNode admin typenfo end_ newEnd) nodes [] fun _ =>
    .ask (.checkInterswitchBandwidth rid end_ newEnd) fun bwr =>
    if bwr.result < 1 then unlockRet bwr.result bwr.msg
    else .ask (.setEnd rid newEnd) fun
      | .error er => unlockRet (-1) er
      | .ok () => unlockRet 1 "success"

/-- `extend_current_reservation` from where it has the reservation. The query for the types is
outside of any `try`. -/
def extendFound (current : ℤ) (min : ℤ) (curres : Reservation) : Op :=
  let newEnd := addTime curres.end_ (min * 60)
  let len := ((newEnd - current) / 60).toNat
  .ask (.getTopology curres.rid) fun r =>
  if r.1.result < 1 then unlockRet r.1.result r.1.msg
  else .ask .types fun
    | .error _ => .stop
    | .ok typenfo =>
      forEach (checkExtendedType clock username current newEnd len) (typeListOf r.2) () fun _ =>
      .ask (.isSysadmin username) fun ra =>
      if ra.result = 1 then
        extendChecked username true true typenfo r.2 curres.rid curres.end_ newEnd
      else .ask (.isAdmin username) fun ra =>
        if ra.result < 0 then unlockRet ra.result ra.msg
        else extendChecked username (ra.result == 1) false typenfo r.2 curres.rid curres.end_ newEnd

def extendCurrentReservation (min : ℤ) : Op :=
  .ask (.policy "divisor") fun
  | .error er => .ret ⟨-1, er⟩
  | .ok [] => .ret ⟨-1, "policy database error.. divisor is not in the database"⟩
  | .ok (divisor :: _) => .ask .timeNow fun now =>
    discretizeTime clock now divisor fun current =>
    if min ≤ 0 then .ret ⟨0, "length of " ++ toString min ++ " minutes does not make sense"⟩
    else
      let chunk : ℤ := (60 / divisor : ℕ)
      let min := ((min - 1) / chunk + 1) * chunk
      .lock fun
      | false => lockingProblem
      | true => .ask (.currentReservation username current) fun
        | .error er => unlockRet (-1) er
        | .ok [] => unlockRet 0 "you do not have a current reservation"
        | .ok (curres :: _) => extendFound clock username current min curres

end OnlDaemons.Onldb

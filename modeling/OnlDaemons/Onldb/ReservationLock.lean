import OnlDaemons.Onldb.ExtendReservation
import OnlDaemons.Onldb.SpecialState

/-!
# The discipline of the reservation lock

Each operation gives the lock back by hand on each of its returns. Two of them leave out the
return for a node that the database does not know, and one the return for a query that throws.

## Main definitions

- `Operation`, `Operation.prog` — the public operations that may take the lock
- `Unreleased` — the answers after which the lock is kept

## Main results

- `disciplined_iff` — a run of an operation keeps the discipline iff it meets no such answer
-/

namespace OnlDaemons.Onldb

open OnlDaemons.Lib LockProg

variable (clock : Clock) (username : String)

def cancelCurrentReservation : Op :=
  .lock fun
  | false => lockingProblem
  | true => .ask .timeNow fun current => .ask (.cancelCurrent username current) fun
    | .error er => unlockRet (-1) er
    | .ok () => unlockRet 1 "success"

def hasReservation : Op :=
  .lock fun
  | false => lockingProblem
  | true => .ask .timeNow fun current => .ask (.currentEnd username current) fun
    -- this return does not give the lock back
    | .error er => .ret ⟨-1, er⟩
    | .ok [] => unlockRet (-1) "no reservation"
    | .ok (end_ :: _) =>
      .unlock <|
      let secondsLeft := end_ - current
      if secondsLeft > 0 then .ret ⟨secondsLeft / 60, "success"⟩
      else .ret ⟨0, "no time left"⟩

def assignResources : Op :=
  .lock fun
  | false => lockingProblem
  | true => .ask .timeNow fun current => .ask (.assignable username current) fun
    | .error er => unlockRet (-1) er
    | .ok [] => unlockRet 0 "reservation not found"
    | .ok (rid :: _) => .ask .verifyClusters fun r1 =>
      if r1.result < 1 then unlockRet 0 r1.msg
      else .ask (.fillInTopology rid) fun r2 =>
        if r2.result < 1 then unlockRet 0 r2.msg
        else .ask (.externalDevs username) fun
          | .error er => unlockRet (-1) er
          | .ok _ => .ask (.setState rid "active") fun
            | .error er => unlockRet (-1) er
            | .ok () => .ask (.insertExperiment current rid) fun
              | .error er => unlockRet (-1) er
              | .ok () => unlockRet 1 "success"

def returnResources : Op :=
  .lock fun
  | false => lockingProblem
  | true => .ask .timeNow fun current => .ask (.activeExperiment username) fun
    | .error er => unlockRet (-1) er
    | .ok [] => unlockRet (-1) "experiment not found"
    | .ok (exp :: _) => .ask (.endExperiment exp.1 current) fun
      | .error er => unlockRet (-1) er
      | .ok () => .ask (.setState exp.2 "used") fun
        | .error er => unlockRet (-1) er
        | .ok () => unlockRet 1 "success"

/-- The public operations that may take the lock. -/
inductive Operation where
  | setState (node state : String) (len : ℕ)
  | putInTesting (node : String) (len : ℕ)
  | removeFromTesting (node : String)
  | extendRepair (node : String) (len : ℕ)
  | extendTesting (node : String) (len : ℕ)
  | reserveAll (begin : ℤ) (len : ℕ)
  | makeReservation (username : String) (begin1 begin2 : ℤ) (len : ℕ) (nodes : List ReqNode)
    (links : List ReqLink)
  | extendCurrentReservation (username : String) (min : ℤ)
  | cancelCurrentReservation (username : String)
  | hasReservation (username : String)
  | assignResources (username : String)
  | returnResources (username : String)

def Operation.prog : Operation → Op
  | setState node state len => Onldb.setState clock node state len
  | putInTesting node len => Onldb.putInTesting clock node len
  | removeFromTesting node => Onldb.removeFromTesting node
  | extendRepair node len => Onldb.extendRepair clock node len
  | extendTesting node len => Onldb.extendTesting clock node len
  | reserveAll begin len => Onldb.reserveAll clock begin len
  | makeReservation username begin1 begin2 len nodes links =>
    Onldb.makeReservation clock username begin1 begin2 len nodes links
  | extendCurrentReservation username min => Onldb.extendCurrentReservation clock username min
  | cancelCurrentReservation username => Onldb.cancelCurrentReservation username
  | hasReservation username => Onldb.hasReservation username
  | assignResources username => Onldb.assignResources username
  | returnResources username => Onldb.returnResources username

/-- The answers after which an operation returns with the lock: the database does not know the
node of a repair or testing that is extended or ends, or the query of `has_reservation` throws. -/
def Unreleased : ∀ q : Query, q.Answer → Prop
  | .extendedNode _, answer => answer = .ok []
  | .clearedNode _, answer => answer = .ok []
  | .currentEnd _ _, answer => ∃ er, answer = .error er
  | _, _ => False

/-! ### Repair and testing -/

theorem exact_unlockRet (result : ℤ) (msg : String) :
    (unlockRet result msg).Exact Unreleased true := ⟨rfl,rfl⟩

theorem exact_discretizeTime {held : Bool} (time : ℤ) (divisor : ℕ) {k : ℤ → Op}
    (hk : ∀ t, (k t).Exact Unreleased held) :
    (discretizeTime clock time divisor k).Exact Unreleased held := by
  unfold discretizeTime
  simp only
  split
  · trivial
  · exact hk _

section special

variable (node : String)

theorem exact_remapReservation (parent : Option String) (res : Reservation) (s : Unit)
    {k : Unit → Op} (hk : ∀ s, (k s).Exact Unreleased true) :
    (remapReservation node parent res s k).Exact Unreleased true := by
  have huncancel : (setBack res k).Exact Unreleased true := by
    refine .ask (fun _ => id) ?_
    rintro (er | _)
    · exact exact_unlockRet _ _
    · exact hk ()
  unfold remapReservation
  refine .ask (fun _ => id) ?_
  rintro (er | _)
  · exact exact_unlockRet _ _
  refine .ask (fun _ => id) fun r => ?_
  simp only
  split
  · exact hk ()
  refine .ask (fun _ => id) fun r' => ?_
  split
  · exact hk ()
  split
  · exact huncancel
  refine .ask (fun _ => id) fun r => ?_
  split
  · exact hk ()
  split
  · exact hk ()
  · exact huncancel

theorem exact_remapReservations (parent : Option String) (begin end_ : ℤ) :
    (remapReservations node parent begin end_).Exact Unreleased true := by
  unfold remapReservations
  refine .ask (fun _ => id) ?_
  rintro (er | reslist)
  · exact exact_unlockRet _ _
  · exact .forEach (fun res s k hk => exact_remapReservation node parent res s hk) reslist
      (fun _ => exact_unlockRet _ _) ()

theorem exact_addSpecial (state : String) (divisor len : ℕ) (parent : Option String) :
    (addSpecial clock node state divisor len parent).Exact Unreleased false := by
  unfold addSpecial
  refine .ask (fun _ => id) fun fc => ?_
  split
  · rfl
  refine .ask (fun _ => id) fun now => ?_
  refine exact_discretizeTime clock now divisor fun begin => ?_
  refine ⟨rfl,?_,rfl⟩
  refine .ask (fun _ => id) fun vcr => ?_
  split
  · exact exact_unlockRet _ _
  refine .ask (fun _ => id) fun r => ?_
  split
  · exact exact_unlockRet _ _
  · exact exact_remapReservations node parent _ _

theorem exact_newSpecial (state : String) (divisor len : ℕ) :
    (newSpecial clock node state divisor len).Exact Unreleased false := by
  unfold newSpecial
  refine .ask (fun _ => id) ?_
  rintro (er | (_ | ⟨⟨type,cluster⟩,rows⟩))
  · rfl
  · rfl
  cases cluster with
  | none => exact exact_addSpecial clock node state divisor len none
  | some cluster =>
    refine .ask (fun _ => id) fun pt => ?_
    split
    · rfl
    refine .ask (fun _ => id) ?_
    rintro (er | complist)
    · rfl
    refine .forEach ?_ complist (fun _ => exact_addSpecial clock node state divisor len _) 3
    intro comp label k hk
    unfold addComponent
    refine .ask (fun _ => id) fun blah => ?_
    split
    · rfl
    refine .ask (fun _ => id) ?_
    rintro (er | _)
    · rfl
    · exact hk _

/-- The one bad answer here is an empty one about the node. -/
theorem exact_extendSpecial (state : String) (divisor len : ℕ) :
    (extendSpecial clock node state divisor len).Exact Unreleased false := by
  unfold extendSpecial
  split
  · rfl
  refine .ask (fun _ => id) fun now => ?_
  refine exact_discretizeTime clock now divisor fun current => ?_
  refine ⟨rfl,?_,rfl⟩
  rintro (er | (_ | ⟨⟨type,parent⟩,rows⟩))
  · exact ⟨nofun,fun _ => exact_unlockRet _ _⟩
  · exact ⟨fun _ => ⟨rfl,rfl⟩,fun hno => absurd rfl hno⟩
  refine ⟨nofun,fun _ => ?_⟩
  refine .ask (fun _ => id) ?_
  rintro (er | (_ | ⟨curres,rest⟩))
  · exact exact_unlockRet _ _
  · exact exact_unlockRet _ _
  refine .ask (fun _ => id) fun r => ?_
  split
  · exact exact_unlockRet _ _
  refine .ask (fun _ => id) ?_
  rintro (er | _)
  · exact exact_unlockRet _ _
  · exact exact_remapReservations node parent _ _

theorem exact_handleSpecialState (state : String) (len : ℕ) (extend : Bool) :
    (handleSpecialState clock node state len extend).Exact Unreleased false := by
  unfold handleSpecialState
  refine .ask (fun _ => id) ?_
  rintro (er | (_ | ⟨divisor,rest⟩))
  · rfl
  · rfl
  simp only
  split
  · exact exact_extendSpecial clock node state divisor len
  split
  · refine .ask (fun _ => id) ?_
    rintro (er | (_ | ⟨len,rest⟩))
    · rfl
    · rfl
    · exact exact_newSpecial clock node state divisor len
  · exact exact_newSpecial clock node state divisor len

theorem exact_clearSpecialState (state newState : String) :
    (clearSpecialState node state newState).Exact Unreleased false := by
  have hcancel : ∀ parent current,
      (cancelSpecial node state parent current).Exact Unreleased true := by
    intro parent current
    refine .ask (fun _ => id) ?_
    rintro (er | _)
    · exact exact_unlockRet _ _
    · exact exact_unlockRet _ _
  refine ⟨rfl,?_,rfl⟩
  refine .ask (fun _ => id) fun current => ?_
  rintro (er | (_ | ⟨⟨type,cluster⟩,rows⟩))
  · exact ⟨nofun,fun _ => exact_unlockRet _ _⟩
  · exact ⟨fun _ => ⟨rfl,rfl⟩,fun hno => absurd rfl hno⟩
  refine ⟨nofun,fun _ => ?_⟩
  cases cluster with
  | none => exact hcancel none current
  | some cluster =>
    refine .ask (fun _ => id) ?_
    rintro (er | complist)
    · exact exact_unlockRet _ _
    refine .forEach ?_ complist (fun _ => hcancel (some cluster) current) ()
    intro comp _ k hk
    refine .ask (fun _ => id) ?_
    rintro (er | _)
    · exact exact_unlockRet _ _
    · exact hk _

/-- A caller that only passes the answer on. -/
theorem Exact.bind_ret {p : Op} (hp : p.Exact Unreleased false) (f : OnldbResp → OnldbResp) :
    (p.bind fun r => .ret (f r)).Exact Unreleased false :=
  hp.bind fun _ => rfl

theorem exact_setState (state : String) (len : ℕ) :
    (setState clock node state len).Exact Unreleased false := by
  unfold setState
  split
  · rfl
  refine .ask (fun _ => id) ?_
  rintro (er | (_ | ⟨oldState,rest⟩))
  · rfl
  · rfl
  have hrest : LockProg.Exact Unreleased false (if oldState = "testing" then .ret ⟨1, "success"⟩
        else if state = "repair" ∧ oldState ≠ "repair" then
          (handleSpecialState clock node state len false).bind fun r =>
            .ret (if r.result ≤ 0 then r else ⟨1, "success"⟩)
        else if oldState = "repair" ∧ state ≠ "repair" then
          (clearSpecialState node oldState state).bind fun r =>
            .ret (if r.result ≤ 0 then r else ⟨1, "success"⟩)
        else .ret ⟨1, "success"⟩ : Op) := by
    split
    · rfl
    split
    · exact Exact.bind_ret (exact_handleSpecialState clock node state len false) _
    split
    · exact Exact.bind_ret (exact_clearSpecialState node oldState state) _
    · rfl
  simp only
  split
  · refine .ask (fun _ => id) ?_
    rintro (er | _)
    · rfl
    · exact hrest
  · exact hrest

theorem exact_putInTesting (len : ℕ) :
    (putInTesting clock node len).Exact Unreleased false := by
  unfold putInTesting
  refine .ask (fun _ => id) ?_
  rintro (er | (_ | ⟨oldState,rest⟩))
  · rfl
  · rfl
  simp only
  split
  · rfl
  refine .ask (fun _ => id) ?_
  rintro (er | _)
  · rfl
  have hhandle := Exact.bind_ret (exact_handleSpecialState clock node "testing" len false)
    fun t => if t.result ≤ 0 then t else ⟨1, "success"⟩
  simp only
  split
  · refine (exact_clearSpecialState node oldState "testing").bind fun r => ?_
    split
    · rfl
    · exact hhandle
  · exact hhandle

theorem exact_removeFromTesting : (removeFromTesting node).Exact Unreleased false := by
  unfold removeFromTesting
  refine .ask (fun _ => id) ?_
  rintro (er | (_ | ⟨oldState,rest⟩))
  · rfl
  · rfl
  simp only
  split
  · rfl
  refine .ask (fun _ => id) ?_
  rintro (er | _)
  · rfl
  · exact Exact.bind_ret (exact_clearSpecialState node oldState "free") _

end special

/-! ### Reservations -/

theorem exact_reserveAll (begin : ℤ) (len : ℕ) :
    (reserveAll clock begin len).Exact Unreleased false := by
  unfold reserveAll
  refine .ask (fun _ => id) ?_
  rintro (er | (_ | ⟨divisor,rest⟩))
  · rfl
  · rfl
  refine .ask (fun _ => id) fun now => ?_
  refine exact_discretizeTime clock _ _ fun current => ?_
  refine exact_discretizeTime clock _ _ fun begin => ?_
  split
  · rfl
  split
  · rfl
  refine .ask (fun _ => id) ?_
  rintro (er | (_ | ⟨horizon,rest⟩))
  · rfl
  · rfl
  simp only
  split
  · rfl
  refine ⟨rfl,?_,rfl⟩
  refine .ask (fun _ => id) ?_
  rintro (er | rts)
  · exact exact_unlockRet _ _
  simp only
  split
  · exact exact_unlockRet _ _
  refine .ask (fun _ => id) ?_
  rintro (er | _)
  · exact exact_unlockRet _ _
  · exact exact_unlockRet _ _

/-- The loop of a list of weeks over the usage of a type. -/
theorem exact_checkUsage (ti : TypeListEntry) (tpv : TypePolicyVals) (len weekStart : ℤ)
    (w : TimeRange × List TimeRange) {k : TimeRange × List TimeRange → Op}
    (hk : ∀ w, (k w).Exact Unreleased true) :
    (checkUsage username ti tpv len weekStart w k).Exact Unreleased true := by
  refine .ask (fun _ => id) ?_
  rintro (er | user)
  · exact exact_unlockRet _ _
  refine .ask (fun _ => id) ?_
  rintro (er | grp)
  · exact exact_unlockRet _ _
  · exact hk _

theorem exact_checkTypePolicy (current : ℤ) (len : ℕ) (ti : TypeListEntry)
    (possibleTimes : List TimeRange) {k : List TimeRange → Op}
    (hk : ∀ l, (k l).Exact Unreleased true) :
    (checkTypePolicy clock username current len ti possibleTimes k).Exact Unreleased true := by
  refine .ask (fun _ => id) ?_
  rintro (er | (_ | ⟨tpv,rest⟩))
  · exact exact_unlockRet _ _
  · exact exact_unlockRet _ _
  simp only
  split
  · exact exact_unlockRet _ _
  split
  · exact exact_unlockRet _ _
  refine .forEach (fun tr l k hk => ?_) possibleTimes hk []
  exact .forEach (fun week w k hk => exact_checkUsage username ti tpv len week w hk) _
    (fun w => hk w.2) _

theorem exact_tryRange (divisor : ℕ) (tr : TimeRange) (s : Unit) {k : Unit → Op}
    (hk : ∀ s, (k s).Exact Unreleased true) :
    (tryRange clock username divisor tr s k).Exact Unreleased true := by
  refine .ask (fun _ => id) ?_
  rintro (er | rts)
  · trivial
  refine .ask (fun _ => id) fun trr => ?_
  split
  · exact exact_unlockRet _ _
  refine .forEach (fun cur s k hk => ?_) _ (fun _ => hk ()) _
  unfold tryTime
  simp only
  split
  · refine .ask (fun _ => id) fun trr => ?_
    split
    · exact exact_unlockRet _ _
    split
    · exact exact_unlockRet _ _
    · exact hk _
  · exact hk _

theorem exact_makeReservationLocked (divisor : ℕ) (current : ℤ) (len : ℕ)
    (typeList : List TypeListEntry) (tr : TimeRange) :
    (makeReservationLocked clock username divisor current len typeList tr).Exact
      Unreleased true := by
  refine .ask (fun _ => id) fun vcr => ?_
  split
  · exact exact_unlockRet _ _
  refine .forEach (fun ti l k hk => exact_checkTypePolicy clock username current len ti l hk)
    typeList (fun possibleTimes => ?_) [tr]
  split
  · exact exact_unlockRet _ _
  refine .ask (fun _ => id) fun ra => ?_
  refine .forEach (fun tr l k hk => ?_) possibleTimes (fun possibleTimes => ?_) []
  · refine .ask (fun _ => id) ?_
    rintro (er | rts)
    · exact exact_unlockRet _ _
    · exact hk _
  split
  · exact exact_unlockRet _ _
  · exact .forEach (fun tr s k hk => exact_tryRange clock username divisor tr s hk) possibleTimes
      (fun _ => exact_unlockRet _ _) ()

theorem exact_checkHorizon (divisor : ℕ) (current begin1 begin2 : ℤ) (len : ℕ)
    (typeList : List TypeListEntry) :
    (checkHorizon clock username divisor current begin1 begin2 len typeList).Exact
      Unreleased false := by
  refine .ask (fun _ => id) ?_
  rintro (er | (_ | ⟨horizon,rest⟩))
  · rfl
  · rfl
  simp only
  split
  · rfl
  · exact ⟨rfl,exact_makeReservationLocked clock username divisor current len typeList _,rfl⟩

theorem exact_checkCapacity (which link : String) (node : ReqNode) (capacity : ℕ)
    {k : Unit → Op} (hk : ∀ s, (k s).Exact Unreleased false) :
    (checkCapacity which link node capacity k).Exact Unreleased false := by
  unfold checkCapacity
  split
  · refine .ask (fun _ => id) fun r => ?_
    split
    · rfl
    · exact hk ()
  · exact hk ()

theorem exact_checkRequest (divisor : ℕ) (current begin1 begin2 : ℤ) (len : ℕ)
    (nodes : List ReqNode) (links : List ReqLink) :
    (checkRequest clock username divisor current begin1 begin2 len nodes links).Exact
      Unreleased false := by
  unfold checkRequest
  simp only
  generalize (if begin1 > begin2 then begin1 else begin2) = begin2
  split
  · rfl
  split
  · rfl
  split
  · rfl
  refine .forEach (fun hw acc k hk => ?_) nodes (fun acc => ?_) ([],[])
  · unfold addToTypeList
    split
    · exact hk _
    split
    · exact hk _
    · exact .ask (fun _ => id) fun devType => hk _
  · refine .forEach (fun lit _ k hk => ?_) links (fun _ => ?_) ()
    · exact exact_checkCapacity _ _ _ _ fun _ => exact_checkCapacity _ _ _ _ hk
    · exact exact_checkHorizon clock username divisor current _ _ _ _

theorem exact_makeReservation (begin1 begin2 : ℤ) (len : ℕ) (nodes : List ReqNode)
    (links : List ReqLink) :
    (makeReservation clock username begin1 begin2 len nodes links).Exact Unreleased false := by
  refine .ask (fun _ => id) ?_
  rintro (er | (_ | ⟨divisor,rest⟩))
  · rfl
  · rfl
  refine .ask (fun _ => id) fun now => ?_
  refine exact_discretizeTime clock _ _ fun current => ?_
  refine exact_discretizeTime clock _ _ fun begin1 => ?_
  refine exact_discretizeTime clock _ _ fun begin2 => ?_
  refine .ask (fun _ => id) ?_
  rintro (er | (_ | ⟨tz,rest⟩))
  · rfl
  · rfl
  exact exact_checkRequest clock username divisor current begin1 begin2 len nodes links

theorem exact_placeVm (hw : TopNode) (capacity : Capacity) (vmNodes : List (String × Capacity))
    {k : List (String × Capacity) → Op} (hk : ∀ l, (k l).Exact Unreleased true) :
    (placeVm hw capacity vmNodes k).Exact Unreleased true := by
  unfold placeVm
  split
  · exact exact_unlockRet _ _
  · exact .ask (fun _ => id) fun _ => hk _

theorem exact_noReservation (answer : Rows ℕ) {k : Op} (hk : k.Exact Unreleased true) :
    (noReservation answer k).Exact Unreleased true := by
  rcases answer with er | (_ | ⟨rid,rest⟩)
  · exact exact_unlockRet _ _
  · exact hk
  · exact exact_unlockRet _ _

theorem exact_checkNode (admin : Bool) (typenfo : List TypeCaps) (end_ newEnd : ℤ) (hw : TopNode)
    (vmNodes : List (String × Capacity)) {k : List (String × Capacity) → Op}
    (hk : ∀ l, (k l).Exact Unreleased true) :
    (checkNode admin typenfo end_ newEnd hw vmNodes k).Exact Unreleased true := by
  unfold checkNode
  split
  · exact hk _
  split
  · exact hk _
  split
  · split
    · exact exact_placeVm hw _ vmNodes hk
    · refine .ask (fun _ => id) ?_
      rintro (er | bnia)
      · exact exact_unlockRet _ _
      refine .forEach (fun use c k hk => ?_) bnia
        (fun capacity => exact_placeVm hw capacity vmNodes hk) _
      exact .ask (fun _ => id) fun _ => hk _
  split
  · exact .ask (fun _ => id) fun answer => exact_noReservation answer (hk _)
  · exact .ask (fun _ => id) fun answer => exact_noReservation answer (hk _)

theorem exact_extendChecked (admin sysadmin : Bool) (typenfo : List TypeCaps)
    (nodes : List TopNode) (rid : ℕ) (end_ newEnd : ℤ) :
    (extendChecked username admin sysadmin typenfo nodes rid end_ newEnd).Exact
      Unreleased true := by
  refine .ask (fun _ => id) ?_
  rintro (er | (_ | ⟨rt,rest⟩))
  · exact exact_unlockRet _ _
  · refine .forEach (fun hw l k hk => exact_checkNode admin typenfo end_ newEnd hw l hk) nodes
      (fun _ => ?_) []
    refine .ask (fun _ => id) fun bwr => ?_
    split
    · exact exact_unlockRet _ _
    refine .ask (fun _ => id) ?_
    rintro (er | _)
    · exact exact_unlockRet _ _
    · exact exact_unlockRet _ _
  · exact exact_unlockRet _ _

theorem exact_extendFound (current min : ℤ) (curres : Reservation) :
    (extendFound clock username current min curres).Exact Unreleased true := by
  refine .ask (fun _ => id) fun r => ?_
  split
  · exact exact_unlockRet _ _
  refine .ask (fun _ => id) ?_
  rintro (er | typenfo)
  · trivial
  refine .forEach (fun ti s k hk => ?_) (typeListOf r.2) (fun _ => ?_) ()
  · refine .ask (fun _ => id) ?_
    rintro (er | (_ | ⟨tpv,rest⟩))
    · exact exact_unlockRet _ _
    · exact exact_unlockRet _ _
    simp only
    split
    · exact exact_unlockRet _ _
    refine .forEach (fun week s k hk => ?_) _ hk ()
    refine .ask (fun _ => id) ?_
    rintro (er | user)
    · exact exact_unlockRet _ _
    refine .ask (fun _ => id) ?_
    rintro (er | grp)
    · exact exact_unlockRet _ _
    simp only
    split
    · exact exact_unlockRet _ _
    · exact hk ()
  · refine .ask (fun _ => id) fun ra => ?_
    split
    · exact exact_extendChecked username _ _ typenfo r.2 _ _ _
    refine .ask (fun _ => id) fun ra => ?_
    split
    · exact exact_unlockRet _ _
    · exact exact_extendChecked username _ _ typenfo r.2 _ _ _

theorem exact_extendCurrentReservation (min : ℤ) :
    (extendCurrentReservation clock username min).Exact Unreleased false := by
  refine .ask (fun _ => id) ?_
  rintro (er | (_ | ⟨divisor,rest⟩))
  · rfl
  · rfl
  refine .ask (fun _ => id) fun now => ?_
  refine exact_discretizeTime clock _ _ fun current => ?_
  split
  · rfl
  refine ⟨rfl,?_,rfl⟩
  refine .ask (fun _ => id) ?_
  rintro (er | (_ | ⟨curres,rest⟩))
  · exact exact_unlockRet _ _
  · exact exact_unlockRet _ _
  · exact exact_extendFound clock username current _ curres

theorem exact_cancelCurrentReservation :
    (cancelCurrentReservation username).Exact Unreleased false := by
  refine ⟨rfl,?_,rfl⟩
  refine .ask (fun _ => id) fun current => ?_
  refine .ask (fun _ => id) ?_
  rintro (er | _)
  · exact exact_unlockRet _ _
  · exact exact_unlockRet _ _

/-- The one bad answer here is an exception. -/
theorem exact_hasReservation : (hasReservation username).Exact Unreleased false := by
  refine ⟨rfl,?_,rfl⟩
  refine .ask (fun _ => id) fun current => ?_
  rintro (er | (_ | ⟨end_,rest⟩))
  · exact ⟨fun _ => ⟨rfl,rfl⟩,fun hno => absurd ⟨er,rfl⟩ hno⟩
  · exact ⟨nofun,fun _ => exact_unlockRet _ _⟩
  · refine ⟨nofun,fun _ => ⟨rfl,?_⟩⟩
    simp only
    split
    · rfl
    · rfl

theorem exact_assignResources : (assignResources username).Exact Unreleased false := by
  refine ⟨rfl,?_,rfl⟩
  refine .ask (fun _ => id) fun current => ?_
  refine .ask (fun _ => id) ?_
  rintro (er | (_ | ⟨rid,rest⟩))
  · exact exact_unlockRet _ _
  · exact exact_unlockRet _ _
  refine .ask (fun _ => id) fun r1 => ?_
  split
  · exact exact_unlockRet _ _
  refine .ask (fun _ => id) fun r2 => ?_
  split
  · exact exact_unlockRet _ _
  refine .ask (fun _ => id) ?_
  rintro (er | eds)
  · exact exact_unlockRet _ _
  refine .ask (fun _ => id) ?_
  rintro (er | _)
  · exact exact_unlockRet _ _
  refine .ask (fun _ => id) ?_
  rintro (er | _)
  · exact exact_unlockRet _ _
  · exact exact_unlockRet _ _

theorem exact_returnResources : (returnResources username).Exact Unreleased false := by
  refine ⟨rfl,?_,rfl⟩
  refine .ask (fun _ => id) fun current => ?_
  refine .ask (fun _ => id) ?_
  rintro (er | (_ | ⟨exp,rest⟩))
  · exact exact_unlockRet _ _
  · exact exact_unlockRet _ _
  refine .ask (fun _ => id) ?_
  rintro (er | _)
  · exact exact_unlockRet _ _
  refine .ask (fun _ => id) ?_
  rintro (er | _)
  · exact exact_unlockRet _ _
  · exact exact_unlockRet _ _

theorem Operation.exact_prog (op : Operation) : (op.prog clock).Exact Unreleased false := by
  cases op with
  | setState node state len => exact exact_setState clock node state len
  | putInTesting node len => exact exact_putInTesting clock node len
  | removeFromTesting node => exact exact_removeFromTesting node
  | extendRepair node len =>
    exact Exact.bind_ret (exact_handleSpecialState clock node "repair" len true) id
  | extendTesting node len =>
    exact Exact.bind_ret (exact_handleSpecialState clock node "testing" len true) id
  | reserveAll begin len => exact exact_reserveAll clock begin len
  | makeReservation username begin1 begin2 len nodes links =>
    exact exact_makeReservation clock username begin1 begin2 len nodes links
  | extendCurrentReservation username min =>
    exact exact_extendCurrentReservation clock username min
  | cancelCurrentReservation username => exact exact_cancelCurrentReservation username
  | hasReservation username => exact exact_hasReservation username
  | assignResources username => exact exact_assignResources username
  | returnResources username => exact exact_returnResources username

/-- For every answer of the database on every path: an operation takes the lock only while it is
free, gives it back exactly once and returns without it, if and only if it meets none of the
answers whose return does not give the lock back. -/
theorem disciplined_iff (op : Operation) (tr : List (LockEvent Query.Answer)) (r : OnldbResp)
    (hr : (op.prog clock).Run tr r) :
    Disciplined false tr ↔ ∀ q answer, .answer q answer ∈ tr → ¬ Unreleased q answer :=
  (op.exact_prog clock).run_iff hr

/-- A run of `has_reservation` at time 0, with the answer of its query. -/
def hasReservationRun (answer : Rows ℤ) : List (LockEvent Query.Answer) :=
  [.got,.answer .timeNow (0 : ℤ),.answer (.currentEnd "u" 0) answer]

theorem hasReservation_no_row_released :
    Disciplined false (hasReservationRun (.ok []) ++ [.released]) := by
  have hrun : ((Operation.hasReservation "u").prog ⟨0,fun _ => ""⟩).Run
      (hasReservationRun (.ok []) ++ [.released]) ⟨-1,"no reservation"⟩ := by
    apply Run.got
    apply Run.answer
    apply Run.answer
    exact .released .ret
  refine (disciplined_iff ⟨0,fun _ => ""⟩ (.hasReservation "u") _ _ hrun).2 ?_
  intro q answer hm
  rcases List.mem_append.1 hm with hm | hm
  · rcases hm with _ | ⟨_,hm⟩
    rcases hm with _ | ⟨_,hm⟩
    · exact id
    rcases hm with _ | ⟨_,hm⟩
    · rintro ⟨er,he⟩
      cases he
    · cases hm
  · rcases hm with _ | ⟨_,hm⟩
    cases hm

/-- The query of `has_reservation` throws, and the lock stays taken. -/
theorem hasReservation_keeps_lock :
    ¬ ∀ (clock : Clock) (op : Operation) (tr : List (LockEvent Query.Answer)) (r : OnldbResp),
      (op.prog clock).Run tr r → Disciplined false tr := by
  intro h
  have hrun : ((Operation.hasReservation "u").prog ⟨0,fun _ => ""⟩).Run
      (hasReservationRun (.error "lost connection")) ⟨-1,"lost connection"⟩ := by
    apply Run.got
    apply Run.answer
    apply Run.answer
    exact .ret
  have hheld : true = false := (h _ _ _ _ hrun).2
  exact absurd hheld (by decide)

end OnlDaemons.Onldb

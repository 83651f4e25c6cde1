import OnlDaemons.Lib.ProgramEffects
import OnlDaemons.Lib.Run
import OnlDaemons.Onldb.ReservationLock

/-!
# Reservations and their experiments

A reservation that is in use has the state "active" and an open row in the table of experiments, one
whose end is its begin. `assign_resources` sets the state and then inserts the row; `return_resources`
looks for the open rows of the user's active reservations, sets the end of the first to the current
time, and then the state to "used".

## Main definitions

- `ExperimentDb`, `Answered` — the two tables, and what the queries do to them
- `LifeCall`, `LifeStep` — the operations on them
- `LifeCycle` — the active reservations are those with an open experiment

## Main result

- `lifeCycle_iff_orderly`
-/

namespace OnlDaemons.Onldb

open OnlDaemons.Lib LockProg

/-- A row of the experiments table. -/
structure Experiment where
  eid : ℕ
  begin : ℤ
  end_ : ℤ
  rid : ℕ
deriving DecidableEq, Repr

def Experiment.Open (e : Experiment) : Prop := e.begin = e.end_

instance (e : Experiment) : Decidable e.Open := inferInstanceAs (Decidable (_ = _))

structure ExperimentDb where
  reservations : List Reservation := []
  experiments : List Experiment := []
deriving DecidableEq, Repr

namespace ExperimentDb

/-- `update reservations set state=.. where rid=..`. -/
def setState (db : ExperimentDb) (rid : ℕ) (state : String) : ExperimentDb :=
  { db with reservations := db.reservations.map fun r =>
      if r.rid = rid then { r with state := state } else r }

def insertExperiment (db : ExperimentDb) (eid : ℕ) (current : ℤ) (rid : ℕ) : ExperimentDb :=
  { db with experiments := db.experiments ++ [⟨eid,current,current,rid⟩] }

def endExperiment (db : ExperimentDb) (eid : ℕ) (current : ℤ) : ExperimentDb :=
  { db with experiments := db.experiments.map fun e =>
      if e.eid = eid then { e with end_ := current } else e }

def cancelCurrent (db : ExperimentDb) (username : String) (current : ℤ) : ExperimentDb :=
  { db with reservations := db.reservations.map fun r =>
      if r.user = username ∧ r.begin < current ∧ current < r.end_ ∧
        (r.state = "pending" ∨ r.state = "used") then { r with state := "cancelled" } else r }

/-- The reservations that `assign_resources` takes. -/
def assignable (db : ExperimentDb) (username : String) (current : ℤ) : List Reservation :=
  db.reservations.filter fun r => r.user = username ∧ r.begin < current ∧ current < r.end_ ∧
    (r.state = "pending" ∨ r.state = "active" ∨ r.state = "used")

/-- The open experiments of the active reservations of a user. -/
def activeExperiments (db : ExperimentDb) (username : String) : List Experiment :=
  db.experiments.filter fun e => e.Open ∧
    ∃ r ∈ db.reservations, r.rid = e.rid ∧ r.user = username ∧ r.state = "active"

/-- The number of a new reservation. -/
def FreshRid (db : ExperimentDb) (rid : ℕ) : Prop :=
  (∀ r ∈ db.reservations, r.rid ≠ rid) ∧ ∀ e ∈ db.experiments, e.rid ≠ rid

def FreshEid (db : ExperimentDb) (eid : ℕ) : Prop := ∀ e ∈ db.experiments, e.eid ≠ eid

instance (db : ExperimentDb) (eid : ℕ) : Decidable (db.FreshEid eid) :=
  inferInstanceAs (Decidable (∀ e ∈ db.experiments, e.eid ≠ eid))

end ExperimentDb

open ExperimentDb in
/-- What the answer to a query says of the tables before it, and what it leaves of them. A query that
throws changes nothing; rows that are selected come in some order. `try_reservation` adds the
reservation it makes, also if the insertion of what belongs to it then fails. -/
def Answered (db : ExperimentDb) : ∀ q : Query, q.Answer → ExperimentDb → Prop
  | .assignable username current, .ok rids, db' =>
    db' = db ∧ rids.Perm ((db.assignable username current).map (·.rid))
  | .activeExperiment username, .ok rows, db' =>
    db' = db ∧ rows.Perm ((db.activeExperiments username).map fun e => (e.eid,e.rid))
  | .setState rid state, .ok (), db' => db' = db.setState rid state
  | .insertExperiment current rid, .ok (), db' =>
    ∃ eid, db.FreshEid eid ∧ db' = db.insertExperiment eid current rid
  | .endExperiment eid current, .ok (), db' => db' = db.endExperiment eid current
  | .cancelCurrent username current, .ok (), db' => db' = db.cancelCurrent username current
  | .tryReservation user begin end_ state _, _, db' => db' = db ∨ ∃ rid, db.FreshRid rid ∧
      db' = { db with reservations := db.reservations ++ [⟨rid,user,begin,end_,state⟩] }
  | _, _, db' => db' = db

/-- The operations on reservations that an experiment may come of or end with. -/
inductive LifeCall where
  | makeReservation (username : String) (begin1 begin2 : ℤ) (len : ℕ) (nodes : List ReqNode)
    (links : List ReqLink)
  | assignResources (username : String)
  | returnResources (username : String)
  | cancelCurrentReservation (username : String)

def LifeCall.prog (clock : Clock) : LifeCall → Op
  | makeReservation username begin1 begin2 len nodes links =>
    Onldb.makeReservation clock username begin1 begin2 len nodes links
  | assignResources username => Onldb.assignResources username
  | returnResources username => Onldb.returnResources username
  | cancelCurrentReservation username => Onldb.cancelCurrentReservation username

/-- A call with the answers it gets and its response. -/
structure LifeEvent where
  call : LifeCall
  events : List (LockEvent Query.Answer)
  resp : OnldbResp

def LifeStep (clock : Clock) (db : ExperimentDb) (ev : LifeEvent) (db' : ExperimentDb) : Prop :=
  Exec Answered (ev.call.prog clock) db ev.events ev.resp db'

namespace ExperimentDb

def openRows (db : ExperimentDb) (rid : ℕ) : ℕ :=
  db.experiments.countP fun e => e.rid = rid ∧ e.Open

/-- A reservation has an open experiment, and then exactly one, iff it is active. -/
def LifeCycle (db : ExperimentDb) : Prop :=
  ∀ r ∈ db.reservations, db.openRows r.rid = if r.state = "active" then 1 else 0

instance (db : ExperimentDb) : Decidable db.LifeCycle :=
  inferInstanceAs (Decidable (∀ r ∈ db.reservations, _))

def Active (db : ExperimentDb) (rid : ℕ) : Prop :=
  ∃ r ∈ db.reservations, r.rid = rid ∧ r.state = "active"

instance (db : ExperimentDb) (rid : ℕ) : Decidable (db.Active rid) :=
  inferInstanceAs (Decidable (∃ r ∈ db.reservations, _))

end ExperimentDb

/-- The experiment is inserted iff the reservation is not active already, and a reservation is set to
"used" iff the end of its experiment is another time than its begin. -/
def LifeEvent.Orderly (db : ExperimentDb) (ev : LifeEvent) (_ : ExperimentDb) : Prop :=
  match ev.call with
  | .assignResources _ => ∀ current rid (answer : Written),
      .answer (.insertExperiment current rid) answer ∈ ev.events →
        (answer = .ok () ↔ ¬db.Active rid)
  | .returnResources _ => ∀ eid current rid (answer : Written),
      .answer (.endExperiment eid current) (.ok ()) ∈ ev.events →
      .answer (.setState rid "used") answer ∈ ev.events →
        (answer = .ok () ↔ ∀ e ∈ db.experiments, e.eid = eid → e.begin ≠ current)
  | _ => True

/-- No experiment of a reservation that is ended stays open. -/
def LifeEvent.ClosesAll (_ : ExperimentDb) (ev : LifeEvent) (db' : ExperimentDb) : Prop :=
  match ev.call with
  | .returnResources _ => ∀ rid, .answer (.setState rid "used") (.ok ()) ∈ ev.events →
      db'.openRows rid = 0
  | _ => True

/-! ### What the operations do -/

namespace ExperimentDb

variable {clock : Clock} {db db' : ExperimentDb} {username : String} {resp : OnldbResp}
  {tr : List (LockEvent Query.Answer)}

/-- What `assign_resources` can do. -/
inductive Assigned (db : ExperimentDb) (username : String) (tr : List (LockEvent Query.Answer)) :
    ExperimentDb → Prop
  | nothing (h : ∀ current rid answer, .answer (.insertExperiment current rid) answer ∉ tr) :
    Assigned db username tr db
  | inserted (current : ℤ) (r : Reservation) (hr : r ∈ db.assignable username current) (eid : ℕ)
    (hf : db.FreshEid eid) (h : ∀ c rid answer, .answer (.insertExperiment c rid) answer ∈ tr ↔
      c = current ∧ rid = r.rid ∧ answer = .ok ()) :
    Assigned db username tr ((db.setState r.rid "active").insertExperiment eid current r.rid)
  | failed (current : ℤ) (r : Reservation) (hr : r ∈ db.assignable username current) (er : String)
    (h : ∀ c rid answer, .answer (.insertExperiment c rid) answer ∈ tr ↔
      c = current ∧ rid = r.rid ∧ answer = .error er) :
    Assigned db username tr (db.setState r.rid "active")

theorem exec_unlockRet {result : ℤ} {msg : String}
    (h : Exec Answered (unlockRet result msg) db tr resp db') : db' = db ∧ tr = [.released] := by
  cases h with
  | released h =>
    cases h
    exact ⟨rfl,rfl⟩

theorem assigned_of_exec (h : Exec Answered (assignResources username) db tr resp db') :
    Assigned db username tr db' := by
  cases h with
  | refused h =>
    cases h
    exact .nothing (by simp)
  | got h =>
  cases h with
  | @answer _ _ _ _ _ _ _ current hR h =>
  cases hR
  cases h with
  | @answer _ _ _ _ _ _ _ rids hR h =>
  rcases rids with er | (_ | ⟨rid,rest⟩)
  · cases hR
    obtain ⟨rfl,rfl⟩ := exec_unlockRet h
    exact .nothing (by simp)
  · obtain ⟨rfl,-⟩ := hR
    obtain ⟨rfl,rfl⟩ := exec_unlockRet h
    exact .nothing (by simp)
  obtain ⟨rfl,hperm⟩ := hR
  -- the first of the rows is taken
  obtain ⟨r,hr,rfl⟩ := List.mem_map.mp (hperm.subset List.mem_cons_self)
  cases h with
  | @answer _ _ _ _ _ _ _ r1 hR h =>
  cases hR
  simp only at h
  split at h
  · obtain ⟨rfl,rfl⟩ := exec_unlockRet h
    exact .nothing (by simp)
  cases h with
  | @answer _ _ _ _ _ _ _ r2 hR h =>
  cases hR
  simp only at h
  split at h
  · obtain ⟨rfl,rfl⟩ := exec_unlockRet h
    exact .nothing (by simp)
  cases h with
  | @answer _ _ _ _ _ _ _ devs hR h =>
  rcases devs with er | devs
  · cases hR
    obtain ⟨rfl,rfl⟩ := exec_unlockRet h
    exact .nothing (by simp)
  cases hR
  cases h with
  | @answer _ _ _ _ _ _ _ written hR h =>
  rcases written with er | ⟨⟩
  · cases hR
    obtain ⟨rfl,rfl⟩ := exec_unlockRet h
    exact .nothing (by simp)
  cases hR
  cases h with
  | @answer _ _ _ _ _ _ _ written hR h =>
  rcases written with er | ⟨⟩
  · cases hR
    obtain ⟨rfl,rfl⟩ := exec_unlockRet h
    exact .failed current r hr er (by simp [and_assoc])
  · obtain ⟨eid,hf,rfl⟩ := hR
    obtain ⟨rfl,rfl⟩ := exec_unlockRet h
    exact .inserted current r hr eid hf (by simp [and_assoc])

/-- What `return_resources` can do. -/
inductive Returned (db : ExperimentDb) (username : String) (tr : List (LockEvent Query.Answer)) :
    ExperimentDb → Prop
  | nothing (h : ∀ rid answer, .answer (.setState rid "used") answer ∉ tr) :
    Returned db username tr db
  | ended (current : ℤ) (e : Experiment) (he : e ∈ db.activeExperiments username)
    (hend : ∀ eid c answer, .answer (.endExperiment eid c) answer ∈ tr ↔
      eid = e.eid ∧ c = current ∧ answer = .ok ())
    (h : ∀ rid answer, .answer (.setState rid "used") answer ∈ tr ↔
      rid = e.rid ∧ answer = .ok ()) :
    Returned db username tr ((db.endExperiment e.eid current).setState e.rid "used")
  | failed (current : ℤ) (e : Experiment) (he : e ∈ db.activeExperiments username) (er : String)
    (hend : ∀ eid c answer, .answer (.endExperiment eid c) answer ∈ tr ↔
      eid = e.eid ∧ c = current ∧ answer = .ok ())
    (h : ∀ rid answer, .answer (.setState rid "used") answer ∈ tr ↔
      rid = e.rid ∧ answer = .error er) :
    Returned db username tr (db.endExperiment e.eid current)

theorem returned_of_exec (h : Exec Answered (returnResources username) db tr resp db') :
    Returned db username tr db' := by
  cases h with
  | refused h =>
    cases h
    exact .nothing (by simp)
  | got h =>
  cases h with
  | @answer _ _ _ _ _ _ _ current hR h =>
  cases hR
  cases h with
  | @answer _ _ _ _ _ _ _ rows hR h =>
  rcases rows with er | (_ | ⟨row,rest⟩)
  · cases hR
    obtain ⟨rfl,rfl⟩ := exec_unlockRet h
    exact .nothing (by simp)
  · obtain ⟨rfl,-⟩ := hR
    obtain ⟨rfl,rfl⟩ := exec_unlockRet h
    exact .nothing (by simp)
  obtain ⟨rfl,hperm⟩ := hR
  obtain ⟨e,he,rfl⟩ := List.mem_map.mp (hperm.subset List.mem_cons_self)
  cases h with
  | @answer _ _ _ _ _ _ _ written hR h =>
  rcases written with er | ⟨⟩
  · cases hR
    obtain ⟨rfl,rfl⟩ := exec_unlockRet h
    exact .nothing (by simp)
  cases hR
  cases h with
  | @answer _ _ _ _ _ _ _ written hR h =>
  rcases written with er | ⟨⟩
  · cases hR
    obtain ⟨rfl,rfl⟩ := exec_unlockRet h
    exact .failed current e he er (by simp [and_assoc]) (by simp)
  · cases hR
    obtain ⟨rfl,rfl⟩ := exec_unlockRet h
    exact .ended current e he (by simp [and_assoc]) (by simp)

theorem cancelled_of_exec (h : Exec Answered (cancelCurrentReservation username) db tr resp db') :
    db' = db ∨ ∃ current, db' = db.cancelCurrent username current := by
  cases h with
  | refused h =>
    cases h
    exact .inl rfl
  | got h =>
  cases h with
  | @answer _ _ _ _ _ _ _ current hR h =>
  cases hR
  cases h with
  | @answer _ _ _ _ _ _ _ written hR h =>
  rcases written with er | ⟨⟩
  · cases hR
    exact .inl (exec_unlockRet h).1
  · cases hR
    exact .inr ⟨current,(exec_unlockRet h).1⟩

end ExperimentDb

/-! ### A new reservation is not active -/

/-- The queries that leave the active reservations and the experiments alone. -/
def Query.Tame : Query → Prop
  | setState _ _ | insertExperiment _ _ | endExperiment _ _ | cancelCurrent _ _ => False
  | tryReservation _ _ _ state _ => state ≠ "active"
  | _ => True

abbrev Op.Tame (p : Op) : Prop := p.Meets (fun _ _ => True) Query.Tame fun _ => True

section tame

variable (clock : Clock) (username : String)

theorem tame_unlockRet (result : ℤ) (msg : String) : (unlockRet result msg).Tame := trivial

theorem tame_discretizeTime (time : ℤ) (divisor : ℕ) {k : ℤ → Op} (hk : ∀ t, (k t).Tame) :
    (discretizeTime clock time divisor k).Tame := by
  unfold discretizeTime
  simp only
  split
  · trivial
  · exact hk _

theorem tame_checkUsage (ti : TypeListEntry) (tpv : TypePolicyVals) (len weekStart : ℤ)
    (w : TimeRange × List TimeRange) {k : TimeRange × List TimeRange → Op}
    (hk : ∀ w, (k w).Tame) : (checkUsage username ti tpv len weekStart w k).Tame := by
  refine .ask trivial ?_
  rintro (er | user) -
  · trivial
  refine .ask trivial ?_
  rintro (er | grp) -
  · trivial
  · exact hk _

theorem tame_checkTypePolicy (current : ℤ) (len : ℕ) (ti : TypeListEntry)
    (possibleTimes : List TimeRange) {k : List TimeRange → Op} (hk : ∀ l, (k l).Tame) :
    (checkTypePolicy clock username current len ti possibleTimes k).Tame := by
  refine .ask trivial ?_
  rintro (er | (_ | ⟨tpv,rest⟩)) -
  · trivial
  · trivial
  simp only
  split
  · trivial
  split
  · trivial
  refine .forEach_true (fun tr l k hk => ?_) hk []
  exact .forEach_true (fun week w k hk => tame_checkUsage username ti tpv len week w hk)
    (fun w => hk w.2) _

theorem tame_tryRange (divisor : ℕ) (tr : TimeRange) (s : Unit) {k : Unit → Op}
    (hk : ∀ s, (k s).Tame) : (tryRange clock username divisor tr s k).Tame := by
  refine .ask trivial ?_
  rintro (er | rts) -
  · trivial
  have hpending : "pending" ≠ "active" := by decide
  refine .ask hpending fun trr _ => ?_
  split
  · trivial
  refine .forEach_true (fun cur s k hk => ?_) (fun _ => hk ()) _
  unfold tryTime
  simp only
  split
  · refine .ask hpending fun trr _ => ?_
    split
    · trivial
    split
    · trivial
    · exact hk _
  · exact hk _

theorem tame_makeReservationLocked (divisor : ℕ) (current : ℤ) (len : ℕ)
    (typeList : List TypeListEntry) (tr : TimeRange) :
    (makeReservationLocked clock username divisor current len typeList tr).Tame := by
  refine .ask trivial fun vcr _ => ?_
  split
  · trivial
  refine .forEach_true (fun ti l k hk => tame_checkTypePolicy clock username current len ti l hk)
    (fun possibleTimes => ?_) [tr]
  split
  · trivial
  refine .ask trivial fun ra _ => ?_
  refine .forEach_true (fun tr l k hk => ?_) (fun possibleTimes => ?_) []
  · refine .ask trivial ?_
    rintro (er | rts) -
    · trivial
    · exact hk _
  split
  · trivial
  · exact .forEach_true (fun tr s k hk => tame_tryRange clock username divisor tr s hk)
      (fun _ => tame_unlockRet _ _) ()

theorem tame_checkHorizon (divisor : ℕ) (current begin1 begin2 : ℤ) (len : ℕ)
    (typeList : List TypeListEntry) :
    (checkHorizon clock username divisor current begin1 begin2 len typeList).Tame := by
  refine .ask trivial ?_
  rintro (er | (_ | ⟨horizon,rest⟩)) -
  · trivial
  · trivial
  simp only
  split
  · trivial
  · exact ⟨tame_makeReservationLocked clock username divisor current len typeList _,trivial⟩

theorem tame_checkCapacity (which link : String) (node : ReqNode) (capacity : ℕ)
    {k : Unit → Op} (hk : ∀ s, (k s).Tame) : (checkCapacity which link node capacity k).Tame := by
  unfold checkCapacity
  split
  · refine .ask trivial fun r _ => ?_
    split
    · trivial
    · exact hk ()
  · exact hk ()

theorem tame_checkRequest (divisor : ℕ) (current begin1 begin2 : ℤ) (len : ℕ)
    (nodes : List ReqNode) (links : List ReqLink) :
    (checkRequest clock username divisor current begin1 begin2 len nodes links).Tame := by
  unfold checkRequest
  simp only
  generalize (if begin1 > begin2 then begin1 else begin2) = begin2
  split
  · trivial
  split
  · trivial
  split
  · trivial
  refine .forEach_true (fun hw acc k hk => ?_) (fun acc => ?_) ([],[])
  · unfold addToTypeList
    split
    · exact hk _
    split
    · exact hk _
    · exact .ask trivial fun devType _ => hk _
  · refine .forEach_true (fun lit _ k hk => ?_) (fun _ => ?_) ()
    · exact tame_checkCapacity _ _ _ _ fun _ => tame_checkCapacity _ _ _ _ hk
    · exact tame_checkHorizon clock username divisor current _ _ _ _

theorem tame_makeReservation (begin1 begin2 : ℤ) (len : ℕ) (nodes : List ReqNode)
    (links : List ReqLink) :
    (makeReservation clock username begin1 begin2 len nodes links).Tame := by
  refine .ask trivial ?_
  rintro (er | (_ | ⟨divisor,rest⟩)) -
  · trivial
  · trivial
  refine .ask trivial fun now _ => ?_
  refine tame_discretizeTime clock _ _ fun current => ?_
  refine tame_discretizeTime clock _ _ fun begin1 => ?_
  refine tame_discretizeTime clock _ _ fun begin2 => ?_
  refine .ask trivial ?_
  rintro (er | (_ | ⟨tz,rest⟩)) -
  · trivial
  · trivial
  exact tame_checkRequest clock username divisor current begin1 begin2 len nodes links

end tame

/-! ### The invariant -/

namespace ExperimentDb

/-- The numbers of experiments are the key of their table. -/
structure Inv (db : ExperimentDb) : Prop where
  cycle : db.LifeCycle
  eids : (db.experiments.map (·.eid)).Nodup

variable {db db' : ExperimentDb} {r : Reservation} {e : Experiment}

theorem LifeCycle.active_iff (h : db.LifeCycle) (hr : r ∈ db.reservations) :
    r.state = "active" ↔ db.openRows r.rid = 1 := by
  have := h r hr
  split_ifs at this with hs <;> simp [hs,this]

theorem LifeCycle.activeRid_iff (h : db.LifeCycle) (hr : r ∈ db.reservations) :
    db.Active r.rid ↔ db.openRows r.rid = 1 := by
  constructor
  · rintro ⟨r',hr',hrid,hs⟩
    rw [← hrid]
    exact (h.active_iff hr').1 hs
  · intro ho
    exact ⟨r,hr,rfl,(h.active_iff hr).2 ho⟩

theorem LifeCycle.openRows_le (h : db.LifeCycle) (hr : r ∈ db.reservations) :
    db.openRows r.rid ≤ 1 := by
  rw [h r hr]
  split <;> decide

/-- The state of one reservation is set. -/
theorem lifeCycle_setState (rid : ℕ) (state : String) :
    (db.setState rid state).LifeCycle ↔ ∀ r ∈ db.reservations,
      db.openRows r.rid = if (if r.rid = rid then state else r.state) = "active" then 1 else 0 := by
  unfold LifeCycle setState
  rw [List.forall_mem_map]
  refine forall₂_congr fun r hr => ?_
  split <;> rfl

theorem openRows_insert (eid : ℕ) (current : ℤ) (rid rid' : ℕ) :
    (db.insertExperiment eid current rid).openRows rid' =
      db.openRows rid' + if rid = rid' then 1 else 0 := by
  simp [openRows,insertExperiment,List.countP_append,Experiment.Open,List.countP_cons]

theorem endExperiment_of_begin (heids : (db.experiments.map (·.eid)).Nodup)
    (he : e ∈ db.experiments) (ho : e.Open) : db.endExperiment e.eid e.begin = db := by
  have hmap : db.experiments.map (fun x => if x.eid = e.eid then { x with end_ := e.begin } else x)
      = db.experiments := by
    refine (List.map_congr_left fun x hx => ?_).trans (List.map_id _)
    split
    · next h =>
      rw [List.inj_on_of_nodup_map heids hx he h]
      cases e
      simp_all [Experiment.Open]
    · rfl
  unfold endExperiment
  rw [hmap]

theorem openRows_end {current : ℤ} (heids : (db.experiments.map (·.eid)).Nodup)
    (he : e ∈ db.experiments) (ho : e.Open) (hc : e.begin ≠ current) (rid : ℕ) :
    (db.endExperiment e.eid current).openRows rid + (if e.rid = rid then 1 else 0) =
      db.openRows rid := by
  obtain ⟨s,t,hst⟩ := List.append_of_mem he
  rw [hst,List.map_append,List.map_cons,List.nodup_middle,List.nodup_cons,← List.map_append,
    List.mem_map] at heids
  -- the other rows have other numbers
  have hother : ∀ l : List Experiment, (∀ x ∈ l, x ∈ s ++ t) →
      l.map (fun x => if x.eid = e.eid then { x with end_ := current } else x) = l := by
    intro l hl
    refine (List.map_congr_left fun x hx => ?_).trans (List.map_id _)
    rw [if_neg fun h => heids.1 ⟨x,hl x hx,h⟩]
    rfl
  have hclosed : ¬Experiment.Open { e with end_ := current } := hc
  unfold openRows endExperiment
  simp only [hst,List.map_append,List.map_cons,if_true,List.countP_append,List.countP_cons,
    hother s (fun x hx => List.mem_append_left _ hx),hother t (fun x hx => List.mem_append_right _ hx)]
  by_cases hrid : e.rid = rid
  · subst hrid
    simp [hclosed,ho]
    omega
  · simp [hrid]

theorem Inv.inserted (h : db.Inv) {eid rid : ℕ} (current : ℤ) (hf : db.FreshEid eid)
    (ha : ¬db.Active rid) :
    ((db.setState rid "active").insertExperiment eid current rid).Inv := by
  constructor
  · intro r1 hr1
    obtain ⟨r0,hr0,rfl⟩ := List.mem_map.1 hr1
    have ho := h.cycle r0 hr0
    by_cases hrid : r0.rid = rid
    · have hzero : r0.state ≠ "active" := fun hs => ha ⟨r0,hr0,hrid,hs⟩
      rw [if_neg hzero,hrid] at ho
      rw [if_pos hrid,if_pos rfl,hrid,openRows_insert,if_pos rfl]
      exact congrArg (· + 1) ho
    · rw [if_neg hrid,openRows_insert,if_neg (Ne.symm hrid)]
      exact ho
  · have hmap : ((db.setState rid "active").insertExperiment eid current rid).experiments.map
        (·.eid) = db.experiments.map (·.eid) ++ [eid] := by
      simp [insertExperiment,setState]
    rw [hmap]
    refine List.nodup_append.2 ⟨h.eids,by simp,?_⟩
    intro a ha b hb hab
    obtain ⟨x,hx,rfl⟩ := List.mem_map.1 ha
    exact hf x hx (hab.trans (List.mem_singleton.1 hb))

/-- A state that is set and agrees with the open experiments keeps the invariant. -/
theorem Inv.setState (h : db.Inv) {state : String} {rid : ℕ}
    (hs : ∀ r ∈ db.reservations, r.rid = rid →
      db.openRows rid = if state = "active" then 1 else 0) :
    (db.setState rid state).Inv := by
  refine ⟨(lifeCycle_setState rid state).2 fun r hr => ?_,h.eids⟩
  by_cases hrid : r.rid = rid
  · rw [if_pos hrid,hrid]
    exact hs r hr hrid
  · rw [if_neg hrid]
    exact h.cycle r hr

theorem Inv.cancelled (h : db.Inv) (username : String) (current : ℤ) :
    (db.cancelCurrent username current).Inv := by
  refine ⟨?_,h.eids⟩
  intro r1 hr1
  obtain ⟨r,hr,rfl⟩ := List.mem_map.1 hr1
  have ho := h.cycle r hr
  split
  · next hc =>
    have hs : r.state ≠ "active" := by
      rcases hc.2.2.2 with hs | hs
      · rw [hs]
        decide
      · rw [hs]
        decide
    rw [if_neg hs] at ho
    exact ho
  · exact ho

theorem Inv.reserved (h : db.Inv) {rid : ℕ} (hf : db.FreshRid rid) (user : String)
    (begin end_ : ℤ) {state : String} (hs : state ≠ "active") :
    Inv { db with reservations := db.reservations ++ [⟨rid,user,begin,end_,state⟩] } := by
  refine ⟨?_,h.eids⟩
  intro r hr
  rcases List.mem_append.1 hr with hr | hr
  · exact h.cycle r hr
  · rw [List.mem_singleton.1 hr,if_neg hs]
    refine List.countP_eq_zero.2 fun e he => ?_
    simp [hf.2 e he]

theorem inv_of_tame {q : Query} {answer : q.Answer} (hq : q.Tame) (h : db.Inv)
    (ha : Answered db q answer db') : db'.Inv := by
  cases q with
  | tryReservation user begin end_ state noreservations =>
    rcases ha with rfl | ⟨rid,hf,rfl⟩
    · exact h
    · exact h.reserved hf user begin end_ hq
  | setState rid state => exact absurd hq id
  | insertExperiment current rid => exact absurd hq id
  | endExperiment eid current => exact absurd hq id
  | cancelCurrent username current => exact absurd hq id
  | assignable username current =>
    rcases answer with er | rids
    · exact (show db' = db from ha) ▸ h
    · exact ha.1 ▸ h
  | activeExperiment username =>
    rcases answer with er | rows
    · exact (show db' = db from ha) ▸ h
    · exact ha.1 ▸ h
  | _ => exact (show db' = db from ha) ▸ h

theorem LifeCycle.active_experiment {username : String} (h : db.LifeCycle)
    (he : e ∈ db.activeExperiments username) : e ∈ db.experiments ∧ e.Open ∧
      ∃ r ∈ db.reservations, r.rid = e.rid ∧ db.openRows e.rid = 1 := by
  obtain ⟨hm,hp⟩ := List.mem_filter.1 he
  obtain ⟨ho,r,hr,hrid,-,hs⟩ := of_decide_eq_true hp
  exact ⟨hm,ho,r,hr,hrid,hrid ▸ (h.active_iff hr).1 hs⟩

/-- The end of an experiment that began at another time closes it. -/
theorem Inv.openRows_ended {username : String} {current : ℤ} (h : db.Inv)
    (he : e ∈ db.activeExperiments username) (hc : e.begin ≠ current) :
    (db.endExperiment e.eid current).openRows e.rid = 0 := by
  obtain ⟨hm,ho,r,hr,hrid,hone⟩ := h.cycle.active_experiment he
  have := openRows_end h.eids hm ho hc e.rid
  rw [if_pos rfl,hone] at this
  omega

theorem Inv.ended {username : String} {current : ℤ} (h : db.Inv)
    (he : e ∈ db.activeExperiments username) (hc : e.begin ≠ current) :
    ((db.endExperiment e.eid current).setState e.rid "used").Inv := by
  obtain ⟨hm,ho,-⟩ := h.cycle.active_experiment he
  constructor
  · refine (lifeCycle_setState _ _).2 fun r hr => ?_
    by_cases hrid : r.rid = e.rid
    · rw [if_pos hrid,hrid]
      exact h.openRows_ended he hc
    · rw [if_neg hrid]
      have := openRows_end h.eids hm ho hc r.rid
      rw [if_neg (Ne.symm hrid)] at this
      exact this.trans (h.cycle r hr)
  · have hmap : (db.endExperiment e.eid current).experiments.map (·.eid) =
        db.experiments.map (·.eid) := by
      unfold endExperiment
      rw [List.map_map]
      refine List.map_congr_left fun x _ => ?_
      show Experiment.eid (if _ then _ else _) = _
      split <;> rfl
    exact hmap ▸ h.eids

end ExperimentDb

open ExperimentDb

variable {clock : Clock} {db db' : ExperimentDb} {ev : LifeEvent}

/-- The experiment that is ended is the only one of its number. -/
theorem ExperimentDb.Inv.begin_ne_iff {username : String} {current : ℤ} {e : Experiment}
    (h : db.Inv) (he : e ∈ db.activeExperiments username) :
    (∀ x ∈ db.experiments, x.eid = e.eid → x.begin ≠ current) ↔ e.begin ≠ current := by
  have hm := (h.cycle.active_experiment he).1
  constructor
  · exact fun hx => hx e hm rfl
  · intro hc x hx hid
    rw [List.inj_on_of_nodup_map h.eids hx hm hid]
    exact hc

theorem inv_of_orderly (h : db.Inv) (hstep : LifeStep clock db ev db')
    (ho : ev.Orderly db db') : db'.Inv := by
  obtain ⟨call,tr,resp⟩ := ev
  cases call with
  | makeReservation username begin1 begin2 len nodes links =>
    exact Exec.keeps (tame_makeReservation clock username begin1 begin2 len nodes links)
      (fun _ _ _ _ hq h ha => inv_of_tame hq h ha) hstep h
  | assignResources username =>
    cases assigned_of_exec hstep with
    | nothing => exact h
    | inserted current r hr eid hf htr =>
      exact h.inserted current hf ((ho current r.rid _ ((htr _ _ _).2 ⟨rfl,rfl,rfl⟩)).1 rfl)
    | failed current r hr er htr =>
      have ha : db.Active r.rid := by
        by_contra hn
        cases (ho current r.rid _ ((htr _ _ _).2 ⟨rfl,rfl,rfl⟩)).2 hn
      refine h.setState fun r' _ _ => ?_
      exact (h.cycle.activeRid_iff (List.mem_filter.1 hr).1).1 ha
  | returnResources username =>
    cases returned_of_exec hstep with
    | nothing => exact h
    | ended current e he hend htr =>
      have hc := (ho e.eid current e.rid _ ((hend _ _ _).2 ⟨rfl,rfl,rfl⟩)
        ((htr _ _).2 ⟨rfl,rfl⟩)).1 rfl
      exact h.ended he ((h.begin_ne_iff he).1 hc)
    | failed current e he er hend htr =>
      obtain ⟨hm,hopen,-⟩ := h.cycle.active_experiment he
      have hc : e.begin = current := by
        by_contra hn
        cases (ho e.eid current e.rid _ ((hend _ _ _).2 ⟨rfl,rfl,rfl⟩)
          ((htr _ _).2 ⟨rfl,rfl⟩)).2 ((h.begin_ne_iff he).2 hn)
      rw [← hc,endExperiment_of_begin h.eids hm hopen]
      exact h
  | cancelCurrentReservation username =>
    rcases cancelled_of_exec hstep with rfl | ⟨current,rfl⟩
    · exact h
    · exact h.cancelled username current

theorem orderly_of_lifeCycle (h : db.Inv) (hstep : LifeStep clock db ev db')
    (hl : db'.LifeCycle) : ev.Orderly db db' := by
  obtain ⟨call,tr,resp⟩ := ev
  cases call with
  | makeReservation username begin1 begin2 len nodes links => trivial
  | assignResources username =>
    intro c rid answer hm
    cases assigned_of_exec hstep with
    | nothing htr => exact absurd hm (htr _ _ _)
    | inserted current r hr eid hf htr =>
      obtain ⟨rfl,rfl,rfl⟩ := (htr _ _ _).1 hm
      have hrm := (List.mem_filter.1 hr).1
      have hle := hl.openRows_le (r := { r with state := "active" })
        (List.mem_map.2 ⟨r,hrm,if_pos rfl⟩)
      rw [openRows_insert,if_pos rfl] at hle
      rw [h.cycle.activeRid_iff hrm]
      exact ⟨fun _ => by change db.openRows r.rid + 1 ≤ 1 at hle; omega,fun _ => rfl⟩
    | failed current r hr er htr =>
      obtain ⟨rfl,rfl,rfl⟩ := (htr _ _ _).1 hm
      have hrm := (List.mem_filter.1 hr).1
      have hone := (hl.active_iff (r := { r with state := "active" })
        (List.mem_map.2 ⟨r,hrm,if_pos rfl⟩)).1 rfl
      exact ⟨nofun,fun hn => absurd ((h.cycle.activeRid_iff hrm).2 hone) hn⟩
  | returnResources username =>
    intro eid c rid answer hm1 hm2
    cases returned_of_exec hstep with
    | nothing htr => exact absurd hm2 (htr _ _)
    | ended current e he hend htr =>
      obtain ⟨rfl,rfl,-⟩ := (hend _ _ _).1 hm1
      obtain ⟨rfl,rfl⟩ := (htr _ _).1 hm2
      rw [h.begin_ne_iff he]
      refine ⟨fun _ hc => ?_,fun _ => rfl⟩
      obtain ⟨hm,hopen,r,hr,hrid,hone⟩ := h.cycle.active_experiment he
      have hused := (lifeCycle_setState _ _).1 hl r hr
      rw [if_pos hrid,hrid,← hc,endExperiment_of_begin h.eids hm hopen,hone] at hused
      exact absurd hused (by decide)
    | failed current e he er hend htr =>
      obtain ⟨rfl,rfl,-⟩ := (hend _ _ _).1 hm1
      obtain ⟨rfl,rfl⟩ := (htr _ _).1 hm2
      rw [h.begin_ne_iff he]
      refine ⟨nofun,fun hc => ?_⟩
      obtain ⟨hm,hopen,r,hr,hrid,hone⟩ := h.cycle.active_experiment he
      have hactive : r.state = "active" := (h.cycle.active_iff hr).2 (hrid ▸ hone)
      have hone' := (hl.active_iff hr).1 hactive
      rw [hrid,h.openRows_ended he hc] at hone'
      exact absurd hone' (by decide)
  | cancelCurrentReservation username => trivial

/-- An orderly return closes what it ends. -/
theorem closesAll_of_orderly (h : db.Inv) (hstep : LifeStep clock db ev db')
    (ho : ev.Orderly db db') : ev.ClosesAll db db' := by
  obtain ⟨call,tr,resp⟩ := ev
  cases call with
  | makeReservation username begin1 begin2 len nodes links => trivial
  | assignResources username => trivial
  | returnResources username =>
    intro rid hm
    cases returned_of_exec hstep with
    | nothing htr => exact absurd hm (htr _ _)
    | ended current e he hend htr =>
      obtain ⟨rfl,-⟩ := (htr _ _).1 hm
      have hc := (ho e.eid current e.rid _ ((hend _ _ _).2 ⟨rfl,rfl,rfl⟩) hm).1 rfl
      exact h.openRows_ended he ((h.begin_ne_iff he).1 hc)
    | failed current e he er hend htr =>
      cases ((htr _ _).1 hm).2
  | cancelCurrentReservation username => trivial

/-- From tables in which the active reservations are those with an open experiment: this stays so,
and every return closes what it ends, iff every assignment that inserts an experiment finds its
reservation not active and every return comes later than its experiment began, unless the last
query of it throws. -/
theorem lifeCycle_iff_orderly (clock : Clock) (db : ExperimentDb) (hdb : db.Inv)
    (tr : List (LifeEvent × ExperimentDb)) (hr : IsRun (LifeStep clock) db tr) :
    (EveryState LifeCycle db tr ∧ EveryStep (fun s ev t => ev.ClosesAll s t) db tr) ↔
      EveryStep (fun s ev t => ev.Orderly s t) db tr := by
  have hiff : EveryState LifeCycle db tr ↔ EveryStep (fun s ev t => ev.Orderly s t) db tr :=
    hr.everyState_iff (fun _ _ _ h hs ho => inv_of_orderly h hs ho)
      (fun _ _ _ h hs hl => orderly_of_lifeCycle h hs hl) (fun _ h => h.cycle) hdb
  constructor
  · exact fun h => hiff.1 h.1
  · intro h
    exact ⟨hiff.2 h,hr.everyStep (fun _ _ _ h hs ho => inv_of_orderly h hs ho)
      (fun _ _ _ h hs ho => closesAll_of_orderly h hs ho) hdb h⟩

/-! ### A reservation of one user -/

/-- `assign_resources` with every query answered. -/
def assignEvent (username : String) (current : ℤ) (rid : ℕ) : LifeEvent where
  call := .assignResources username
  events := [.got,.answer .timeNow current,.answer (.assignable username current) (.ok [rid]),
    .answer .verifyClusters ⟨1,"success"⟩,.answer (.fillInTopology rid) ⟨1,"success"⟩,
    .answer (.externalDevs username) (.ok []),.answer (.setState rid "active") (.ok ()),
    .answer (.insertExperiment current rid) (.ok ()),.released]
  resp := ⟨1,"success"⟩

def returnEvent (username : String) (current : ℤ) (eid rid : ℕ) : LifeEvent where
  call := .returnResources username
  events := [.got,.answer .timeNow current,.answer (.activeExperiment username) (.ok [(eid,rid)]),
    .answer (.endExperiment eid current) (.ok ()),.answer (.setState rid "used") (.ok ()),.released]
  resp := ⟨1,"success"⟩

theorem lifeStep_assign (clock : Clock) {db : ExperimentDb} {username : String} {current : ℤ}
    {rid eid : ℕ} (h : [rid] = (db.assignable username current).map (·.rid))
    (hf : db.FreshEid eid) : LifeStep clock db (assignEvent username current rid)
      ((db.setState rid "active").insertExperiment eid current rid) := by
  have hrows : Answered db (.assignable username current) (.ok [rid]) db := ⟨rfl,h ▸ .refl _⟩
  have hinsert : Answered (db.setState rid "active") (.insertExperiment current rid) (.ok ())
      ((db.setState rid "active").insertExperiment eid current rid) := ⟨eid,hf,rfl⟩
  refine .got (.answer (u := db) rfl (.answer hrows ?_))
  refine .answer (u := db) rfl (.answer (u := db) rfl (.answer (u := db) rfl ?_))
  exact .answer (u := db.setState rid "active") rfl (.answer hinsert (.released .ret))

theorem lifeStep_return (clock : Clock) {db : ExperimentDb} {username : String} {current : ℤ}
    {rid eid : ℕ} (h : [(eid,rid)] = (db.activeExperiments username).map fun e => (e.eid,e.rid)) :
    LifeStep clock db (returnEvent username current eid rid)
      ((db.endExperiment eid current).setState rid "used") := by
  have hrows : Answered db (.activeExperiment username) (.ok [(eid,rid)]) db := ⟨rfl,h ▸ .refl _⟩
  refine .got (.answer (u := db) rfl (.answer hrows ?_))
  refine .answer (u := db.endExperiment eid current) rfl ?_
  exact .answer (u := (db.endExperiment eid current).setState rid "used") rfl (.released .ret)

/-- The reservation 1 of "u" for the first hour. -/
def onePending : ExperimentDb := { reservations := [⟨1,"u",0,3600,"pending"⟩] }

theorem inv_onePending : onePending.Inv := ⟨by decide,by decide⟩

theorem assign_return_lifeCycle :
    let assigned := (onePending.setState 1 "active").insertExperiment 1 60 1
    let returned := (assigned.endExperiment 1 1800).setState 1 "used"
    let tr := [(assignEvent "u" 60 1,assigned),(returnEvent "u" 1800 1 1,returned)]
    EveryState LifeCycle onePending tr ∧ EveryStep (fun s ev t => ev.ClosesAll s t) onePending tr := by
  intro assigned returned tr
  have hrun : IsRun (LifeStep ⟨0,fun _ => ""⟩) onePending tr :=
    ⟨lifeStep_assign _ (by decide) (by decide),lifeStep_return _ (by decide),trivial⟩
  refine (lifeCycle_iff_orderly ⟨0,fun _ => ""⟩ onePending inv_onePending tr hrun).2 ?_
  refine ⟨fun c rid answer hm => ?_,fun eid c rid answer hm1 hm2 => ?_,trivial⟩
  · obtain ⟨⟨-,rfl⟩,rfl⟩ : (c = 60 ∧ rid = 1) ∧ answer = .ok () := by
      simpa [assignEvent] using hm
    exact ⟨fun _ => by decide,fun _ => rfl⟩
  · obtain ⟨rfl,rfl⟩ : eid = 1 ∧ c = 1800 := by simpa [returnEvent] using hm1
    obtain ⟨-,rfl⟩ : rid = 1 ∧ answer = .ok () := by simpa [returnEvent] using hm2
    exact ⟨fun _ => by decide,fun _ => rfl⟩

/-- An active reservation is assigned again, and has two open experiments. -/
theorem assigned_twice :
    ¬ ∀ (clock : Clock) (db : ExperimentDb), db.Inv → ∀ tr, IsRun (LifeStep clock) db tr →
      EveryState LifeCycle db tr ∧ EveryStep (fun s ev t => ev.ClosesAll s t) db tr := by
  intro h
  let once := (onePending.setState 1 "active").insertExperiment 1 60 1
  let twice := (once.setState 1 "active").insertExperiment 2 61 1
  have hrun : IsRun (LifeStep ⟨0,fun _ => ""⟩) onePending
      [(assignEvent "u" 60 1,once),(assignEvent "u" 61 1,twice)] :=
    ⟨lifeStep_assign _ (by decide) (by decide),lifeStep_assign _ (by decide) (by decide),trivial⟩
  have hl : twice.LifeCycle := (h _ _ inv_onePending _ hrun).1.last
  exact absurd hl (by decide)

end OnlDaemons.Onldb

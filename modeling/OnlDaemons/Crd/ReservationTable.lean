import OnlDaemons.Crd.SessionCommit
import OnlDaemons.Lib.Registry
import OnlDaemons.Lib.Run
import Mathlib.Logic.Function.Basic

/-!
# The reservations that are being made

A reservation is made by a request that begins it, the requests of its topology and one that commits
it. The session manager hands out plain pointers: the request that commits removes its reservation
and deletes it, whoever else has the pointer. It is removed from the list by its connection.

## Main definitions

- `ResPlace` — how far a request has come
- `ReservationTable`, `ReservationTable.step` — `active_reservations`, the objects and the requests
- `ReservationTable.Sound` — the list, the objects and the answers

## Main result

- `sound_of_orderly` — all goes well in runs in which one request commits each reservation, the others
  are done with it by then, and it is the oldest of its connection when it is removed
-/

namespace OnlDaemons.Crd

open OnlDaemons.Lib

/-- What the requests say: the connection they came by, the name of their reservation, what they add
to a topology, and the number of requests of a topology. -/
structure ResRequests (M : Type) where
  conn : M → ℕ
  rid : M → String
  kind : M → TopologyReq
  numRequests : M → ℕ

/-- `commit` and then `remove_reservation`, section by section. -/
inductive CommitStage where
  | found
  /-- without `req_lock`, for requests that are still to come -/
  | waiting (numReqs attempts : ℕ)
  | committed
  | cleared
  | erased
  | deleted
deriving DecidableEq, Repr

inductive ResPlace where
  | received
  /-- answered at once with an error -/
  | refused
  | authenticated
  /-- `begin_req` of a reservation; its first answer is still to be sent -/
  | begun (r : ℕ)
  | kept (r : ℕ)
  /-- a request of a topology has the pointer -/
  | found (r : ℕ)
  | added (r : ℕ)
  | commit (r : ℕ) (stage : CommitStage)
  | notFound
deriving DecidableEq, Repr

/-- The reservation that has to answer the request. -/
def ResPlace.heldBy : ResPlace → Option ℕ
  | begun r | kept r | added r => some r
  | _ => none

structure ReservationObj (M : Type) where
  id : String := ""
  conn : ℕ := 0
  cleared : Bool := false
  beginReq : Option M := none
  clusterReqs : List M := []
  componentReqs : List M := []
  linkReqs : List M := []
  /-- the object is no more -/
  deleted : Bool := false

namespace ReservationObj

variable {M : Type}

def numRxed (o : ReservationObj M) : ℕ :=
  o.clusterReqs.length + o.componentReqs.length + o.linkReqs.length

/-- The requests that the reservation has to answer. -/
def held (o : ReservationObj M) : List M :=
  o.clusterReqs ++ o.componentReqs ++ o.linkReqs ++ o.beginReq.toList

def add (o : ReservationObj M) (m : M) : TopologyReq → ReservationObj M
  | .cluster => { o with clusterReqs := o.clusterReqs ++ [m] }
  | .component => { o with componentReqs := o.componentReqs ++ [m] }
  | .link => { o with linkReqs := o.linkReqs ++ [m] }

/-- All requests are answered and deleted. -/
def emptied (o : ReservationObj M) : ReservationObj M :=
  { o with beginReq := none, clusterReqs := [], componentReqs := [], linkReqs := [] }

end ReservationObj

/-- The session manager with the reservations, numbered as they are made. `removed` are those that
`remove_reservation` has been called for, `answers` the number of final answers of a request, and
`fault` says that a deleted reservation or request was used. -/
structure ReservationTable (M : Type) where
  res : ℕ → ReservationObj M := fun _ => {}
  made : ℕ := 0
  nextId : UInt32 := 1
  active : List ℕ := []
  removed : List ℕ := []
  place : M → ResPlace := fun _ => .received
  answers : M → ℕ := fun _ => 0
  fault : Bool := false

inductive ReservationAct (M : Type) where
  | authenticate (m : M) (ok : Bool)
  | addReservation (m : M)
  | ack (m : M)
  | getReservation (m : M)
  | add (m : M)
  | getToCommit (m : M)
  | commit (m : M)
  | wake (m : M)
  | clear (m : M)
  | erase (m : M)
  | delete (m : M)
deriving DecidableEq, Repr

namespace ReservationTable

variable {M : Type} [DecidableEq M] (reqs : ResRequests M)

def move (s : ReservationTable M) (m : M) (p : ResPlace) : ReservationTable M :=
  { s with place := Function.update s.place m p }

def answer (s : ReservationTable M) (ms : List M) : ReservationTable M :=
  { s with answers := fun m => s.answers m + ms.count m }

def setRes (s : ReservationTable M) (r : ℕ) (o : ReservationObj M) : ReservationTable M :=
  { s with res := Function.update s.res r o }

def faulty (s : ReservationTable M) : ReservationTable M := { s with fault := true }

/-- Going through the list stops at the entry that is looked for, or at one that was deleted. -/
def find (s : ReservationTable M) (p : ReservationObj M → Bool) : Option ℕ :=
  s.active.find? fun n => (s.res n).deleted || p (s.res n)

/-- `get_reservation`, and what is done with its result. -/
def lookUp (s : ReservationTable M) (m : M) (none' : ReservationTable M) (some' : ℕ → ResPlace) :
    ReservationTable M :=
  match s.find fun o => o.conn = reqs.conn m ∧ o.id = reqs.rid m with
  | none => none'
  | some r => if (s.res r).deleted then s.faulty else s.move m (some' r)

def addReservation (s : ReservationTable M) (m : M) : ReservationTable M :=
  { s with
    res := Function.update s.res s.made
      { id := toString s.nextId, conn := reqs.conn m, beginReq := some m }
    made := s.made + 1
    nextId := s.nextId + 1
    active := s.active ++ [s.made] }

/-- The requests of the topology and `begin_req` are answered and deleted. -/
def answerAll (s : ReservationTable M) (r : ℕ) : ReservationTable M :=
  (s.answer (s.res r).held).setRes r (s.res r).emptied

/-- The loop of `commit` from its test on, and all that comes after it in the same section. -/
def awaitReqs (s : ReservationTable M) (m : M) (r numReqs attempts : ℕ) : ReservationTable M :=
  if (s.res r).numRxed < numReqs then
    if attempts > 1200 then s.move m (.commit r .committed)
    else s.move m (.commit r (.waiting numReqs (attempts + 1)))
  else match (s.res r).beginReq with
    | none => s.faulty
    | some _ => (s.answerAll r).move m (.commit r .committed)

def commit (s : ReservationTable M) (m : M) (r : ℕ) : ReservationTable M :=
  if (s.res r).deleted then s.faulty
  else if (s.res r).cleared then s.move m (.commit r .committed)
  else match (s.res r).beginReq with
    | none => s.faulty
    | some b => s.awaitReqs m r (reqs.numRequests b) 0

def clear (s : ReservationTable M) (r : ℕ) : ReservationTable M :=
  if (s.res r).cleared then s
  else
    let t := s.answerAll r
    t.setRes r { t.res r with cleared := true }

def erase (s : ReservationTable M) (r : ℕ) : ReservationTable M :=
  { s with
    active := removeByKey (fun n => (s.res n).conn) (s.res r).conn s.active
    removed := s.removed ++ [r] }

def step (s : ReservationTable M) (a : ReservationAct M) : Option (ReservationTable M) :=
  if s.fault then none
  else match a with
  | .authenticate m ok =>
    if s.place m = .received then
      if ok then some (s.move m .authenticated) else some ((s.answer [m]).move m .refused)
    else none
  | .addReservation m =>
    if s.place m = .authenticated then some ((s.addReservation reqs m).move m (.begun s.made))
    else none
  | .ack m =>
    match s.place m with
    | .begun r =>
      if (s.res r).deleted ∨ (s.res r).beginReq ≠ some m then some s.faulty
      else some (s.move m (.kept r))
    | _ => none
  | .getReservation m =>
    if s.place m = .received then
      some (s.lookUp reqs m ((s.answer [m]).move m .refused) .found)
    else none
  | .add m =>
    match s.place m with
    | .found r =>
      if (s.res r).deleted then some s.faulty
      else some ((s.setRes r ((s.res r).add m (reqs.kind m))).move m (.added r))
    | _ => none
  | .getToCommit m =>
    if s.place m = .received then some (s.lookUp reqs m (s.move m .notFound) (.commit · .found))
    else none
  | .commit m =>
    match s.place m with
    | .commit r .found => some (s.commit reqs m r)
    | _ => none
  | .wake m =>
    match s.place m with
    | .commit r (.waiting numReqs attempts) =>
      if (s.res r).deleted then some s.faulty else some (s.awaitReqs m r numReqs attempts)
    | _ => none
  | .clear m =>
    match s.place m with
    | .commit r .committed =>
      if (s.res r).deleted then some s.faulty
      else some ((s.clear r).move m (.commit r .cleared))
    | _ => none
  | .erase m =>
    match s.place m with
    | .commit r .cleared =>
      if (s.res r).deleted ∨ (s.find fun o => o.conn = (s.res r).conn).any fun n => (s.res n).deleted
      then some s.faulty
      else some ((s.erase r).move m (.commit r .erased))
    | _ => none
  -- the destructor clears a reservation that is cleared already
  | .delete m =>
    match s.place m with
    | .commit r .erased =>
      if (s.res r).deleted then some s.faulty
      else some ((s.setRes r { s.res r with deleted := true }).move m (.commit r .deleted))
    | _ => none

/-- The list has the reservations that were added and not removed, none is used after it was deleted,
no request is answered twice, and the requests of a deleted reservation have been answered. -/
structure Sound (s : ReservationTable M) : Prop where
  nodup : s.active.Nodup
  active : ∀ r, r ∈ s.active ↔ r < s.made ∧ r ∉ s.removed
  fault : s.fault = false
  once : ∀ m, s.answers m ≤ 1
  refused : ∀ m, s.place m = .refused → s.answers m = 1
  answered : ∀ m r, (s.place m).heldBy = some r → (s.res r).deleted → s.answers m = 1

/-- The first answer to the request that begins a reservation is sent before the last; the requests of
the topology are added before the reservation is cleared; no other request commits it; and it is the
first of its connection when it is removed. -/
def Orderly (s : ReservationTable M) : ReservationAct M → Prop
  | .ack m => ∀ r, s.place m = .begun r → (s.res r).beginReq = some m
  | .add m => ∀ r, s.place m = .found r → (s.res r).cleared = false
  | .getToCommit m => ∀ r, (s.find fun o => o.conn = reqs.conn m ∧ o.id = reqs.rid m) = some r →
      ∀ m' stage, s.place m' ≠ .commit r stage
  | .erase m => ∀ r, s.place m = .commit r .cleared →
      FirstOfKey (fun n => (s.res n).conn) r s.active
  | _ => True

/-! ### The invariant -/

/-- The reservation is not committed. -/
def Live (s : ReservationTable M) (r : ℕ) : Prop :=
  (s.res r).beginReq.isSome ∧ (s.res r).cleared = false

/-- What the request that commits a reservation has done to it. -/
def StageOk (s : ReservationTable M) (r : ℕ) : CommitStage → Prop
  | .found | .waiting _ _ => s.Live r
  | .committed => (s.res r).cleared = false
  | .cleared => (s.res r).cleared = true ∧ r ∉ s.removed
  | .erased => r ∈ s.removed ∧ (s.res r).deleted = false
  | .deleted => True

/-- A request is answered or held by one reservation, and each reservation is committed by one. -/
structure Inv (s : ReservationTable M) : Prop where
  nodup : s.active.Nodup
  active : ∀ r, r ∈ s.active ↔ r < s.made ∧ r ∉ s.removed
  fault : s.fault = false
  owner : ∀ m m' r stage stage', s.place m = .commit r stage → s.place m' = .commit r stage' → m = m'
  stage : ∀ m r stage, s.place m = .commit r stage → r < s.made ∧ s.StageOk r stage
  free : ∀ r < s.made, (∀ m stage, s.place m ≠ .commit r stage) → s.Live r
  found : ∀ m r, s.place m = .found r → r < s.made
  fresh : ∀ r, s.made ≤ r → (s.res r).cleared = false
  dead : ∀ r, (s.res r).deleted → r ∈ s.removed
  gone : ∀ r ∈ s.removed, (s.res r).cleared
  empty : ∀ r, (s.res r).cleared → (s.res r).held = []
  held : ∀ r, ∀ m ∈ (s.res r).held, (s.place m).heldBy = some r
  account : ∀ m r, (s.place m).heldBy = some r →
    r < s.made ∧ s.answers m + (s.res r).held.count m = 1
  others : ∀ m, (s.place m).heldBy = none →
    s.answers m = if s.place m = .refused then 1 else 0

variable {reqs} {s t : ReservationTable M} {m : M} {p : ResPlace} {r : ℕ}

theorem inv_new : ({} : ReservationTable M).Inv where
  nodup := .nil
  active r := ⟨fun h => absurd h List.not_mem_nil,fun h => absurd h.1 (Nat.not_lt_zero r)⟩
  fault := rfl
  owner _ _ _ _ _ h := by cases h
  stage _ _ _ h := by cases h
  free r h := absurd h (Nat.not_lt_zero r)
  found _ _ h := by cases h
  fresh _ _ := rfl
  dead _ h := by cases h
  gone _ h := absurd h List.not_mem_nil
  empty _ h := by cases h
  held _ _ h := absurd h List.not_mem_nil
  account _ _ h := by cases h
  others _ _ := rfl

theorem Inv.sound (h : s.Inv) : s.Sound where
  nodup := h.nodup
  active := h.active
  fault := h.fault
  once m := by
    cases hp : (s.place m).heldBy with
    | none =>
      rw [h.others m hp]
      split <;> decide
    | some r =>
      have := (h.account m r hp).2
      omega
  refused m hm := by
    have hp : (s.place m).heldBy = none := by rw [hm]; rfl
    rw [h.others m hp,if_pos hm]
  answered m r hm hd := by
    have := (h.account m r hm).2
    rwa [h.empty r (h.gone r (h.dead r hd)),List.count_nil,Nat.add_zero] at this

theorem Inv.not_deleted (h : s.Inv) (hr : r ∈ s.active) : (s.res r).deleted = false := by
  by_contra hd
  exact ((h.active r).mp hr).2 (h.dead r (by simpa using hd))

theorem Inv.not_deleted_of_cleared (h : s.Inv) (hc : (s.res r).cleared = false) :
    (s.res r).deleted = false := by
  by_contra hd
  rw [h.gone r (h.dead r (by simpa using hd))] at hc
  cases hc

omit [DecidableEq M] in
theorem Inv.find_some {p : ReservationObj M → Bool} (hf : s.find p = some r) : r ∈ s.active :=
  List.mem_of_find?_eq_some hf

@[simp] theorem move_self : (s.move m p).place m = p := Function.update_self ..

theorem move_other {m' : M} (h : m' ≠ m) : (s.move m p).place m' = s.place m' :=
  Function.update_of_ne h ..

/-- A request that commits nothing goes on, and is refused or not. -/
theorem Inv.move (h : s.Inv) (hs : ∀ r stage, s.place m ≠ .commit r stage)
    (hp : ∀ r stage, p ≠ .commit r stage) (hfound : ∀ r, p = .found r → r < s.made)
    (hheld : p.heldBy = (s.place m).heldBy) (hne : s.place m ≠ .refused) (hans : ∀ m', t.answers m' = s.answers m' +
      if m' = m ∧ p = .refused then 1 else 0)
    (ht : t = { s.move m p with answers := t.answers }) : t.Inv := by
  have hplace : ∀ m', (t.place m').heldBy = (s.place m').heldBy := by
    intro m'
    rw [ht]
    by_cases hm : m' = m
    · rw [hm]
      exact (congrArg _ move_self).trans hheld
    · exact congrArg _ (move_other hm)
  have hcommit : ∀ m' r stage, t.place m' = .commit r stage ↔ s.place m' = .commit r stage := by
    intro m' r stage
    rw [ht]
    by_cases hm : m' = m
    · subst hm
      show (s.move m' p).place m' = _ ↔ _
      rw [move_self]
      exact ⟨fun h => absurd h (hp r stage),fun h => absurd h (hs r stage)⟩
    · exact Eq.congr (move_other hm) rfl
  have hres : t.res = s.res := by rw [ht]; rfl
  have hmade : t.made = s.made := by rw [ht]; rfl
  have hactive : t.active = s.active := by rw [ht]; rfl
  have hremoved : t.removed = s.removed := by rw [ht]; rfl
  have hok : ∀ r stage, s.StageOk r stage → t.StageOk r stage := by
    intro r stage hstage
    cases stage <;> simp only [StageOk,Live,hres,hremoved] at hstage ⊢ <;> exact hstage
  refine ⟨?_,?_,?_,?_,?_,?_,?_,?_,?_,?_,?_,?_,?_,?_⟩
  · rw [hactive]
    exact h.nodup
  · rw [hactive,hmade,hremoved]
    exact h.active
  · rw [ht]
    exact h.fault
  · intro m1 m2 r st st' h1 h2
    exact h.owner m1 m2 r st st' ((hcommit ..).mp h1) ((hcommit ..).mp h2)
  · intro m1 r st h1
    rw [hmade]
    exact (h.stage m1 r st ((hcommit ..).mp h1)).imp_right (hok r st)
  · intro r hr hno
    rw [hmade] at hr
    exact hok r .found (h.free r hr fun m st hm => hno m st ((hcommit ..).mpr hm))
  · intro m' r hm'
    rw [hmade]
    by_cases hm : m' = m
    · subst hm
      rw [show t.place m' = p by rw [ht]; exact move_self] at hm'
      exact hfound r hm'
    · rw [show t.place m' = s.place m' by rw [ht]; exact move_other hm] at hm'
      exact h.found m' r hm'
  · rw [hres,hmade]
    exact h.fresh
  · rw [hres,hremoved]
    exact h.dead
  · rw [hres,hremoved]
    exact h.gone
  · rw [hres]
    exact h.empty
  · intro r m' hm'
    rw [hres] at hm'
    exact (hplace m').trans (h.held r m' hm')
  · intro m' r hm'
    rw [hplace] at hm'
    obtain ⟨hr,hcount⟩ := h.account m' r hm'
    have hno : ¬(m' = m ∧ p = .refused) := by
      rintro ⟨rfl,rfl⟩
      rw [← hheld] at hm'
      cases hm'
    rw [hmade,hres,hans,if_neg hno]
    exact ⟨hr,hcount⟩
  · intro m' hm'
    have hold := h.others m' ((hplace m').symm.trans hm')
    rw [hans]
    by_cases hm : m' = m
    · subst hm
      have hpp : t.place m' = p := by
        rw [ht]
        exact move_self
      rw [hpp,hold,if_neg hne,Nat.zero_add]
      simp
    · have hpp : t.place m' = s.place m' := by
        rw [ht]
        exact move_other hm
      have hno : ¬(m' = m ∧ p = .refused) := fun hx => hm hx.1
      rw [hpp,if_neg hno,Nat.add_zero]
      exact hold

/-- The one request that commits a reservation goes on. -/
theorem Inv.commitStep (h : s.Inv) (stage : CommitStage)
    (hm : (∃ stage, s.place m = .commit r stage) ∨ s.place m = .received) (hr : r < s.made)
    (hown : ∀ m' stage, s.place m' = .commit r stage → m' = m)
    (hplace : t.place = Function.update s.place m (.commit r stage))
    (hres : ∀ r', r' ≠ r → t.res r' = s.res r') (hmade : t.made = s.made) (hfault : t.fault = false)
    (hnodup : t.active.Nodup) (hactive : ∀ r, r ∈ t.active ↔ r < s.made ∧ r ∉ t.removed)
    (hremoved : ∀ r', r' ≠ r → (r' ∈ t.removed ↔ r' ∈ s.removed)) (hstage : t.StageOk r stage)
    (hdead : (t.res r).deleted → r ∈ t.removed) (hgone : r ∈ t.removed → (t.res r).cleared)
    (hempty : (t.res r).cleared → (t.res r).held = [])
    (hheld : ∀ m ∈ (t.res r).held, m ∈ (s.res r).held)
    (hans : ∀ m, t.answers m + (t.res r).held.count m = s.answers m + (s.res r).held.count m) :
    t.Inv := by
  have hself : t.place m = .commit r stage := by rw [hplace,Function.update_self]
  have hother : ∀ m', m' ≠ m → t.place m' = s.place m' := by
    intro m' hm'
    rw [hplace,Function.update_of_ne hm']
  have hmheld : (s.place m).heldBy = none := by
    rcases hm with ⟨st,hm⟩ | hm <;> rw [hm] <;> rfl
  have hmelse : ∀ r' st, s.place m = .commit r' st → r' = r := by
    intro r' st hc
    rcases hm with ⟨st',hm⟩ | hm
    · rw [hm] at hc
      cases hc
      rfl
    · rw [hm] at hc
      cases hc
  have hplaceheld : ∀ m', (t.place m').heldBy = (s.place m').heldBy := by
    intro m'
    by_cases hm' : m' = m
    · rw [hm',hself,hmheld]
      rfl
    · rw [hother m' hm']
  have hcommit : ∀ m' r' st, r' ≠ r →
      (t.place m' = .commit r' st ↔ s.place m' = .commit r' st) := by
    intro m' r' st hne
    by_cases hm' : m' = m
    · subst hm'
      rw [hself]
      exact ⟨fun h => absurd (by cases h; rfl) hne,fun h => absurd (hmelse r' st h) hne⟩
    · rw [hother m' hm']
  have hok : ∀ r' st, r' ≠ r → s.StageOk r' st → t.StageOk r' st := by
    intro r' st hne hst
    cases st <;> simp only [StageOk,Live,hres r' hne,hremoved r' hne] at hst ⊢ <;> exact hst
  -- the reservation does not hold the requests of others
  have hnot : ∀ m', (s.place m').heldBy ≠ some r → t.answers m' = s.answers m' := by
    intro m' hm'
    have hs : m' ∉ (s.res r).held := fun hin => hm' (h.held r m' hin)
    have := hans m'
    rwa [List.count_eq_zero.mpr hs,List.count_eq_zero.mpr fun hin => hs (hheld m' hin)] at this
  refine ⟨hnodup,?_,hfault,?_,?_,?_,?_,?_,?_,?_,?_,?_,?_,?_⟩
  · rw [hmade]
    exact hactive
  · intro m1 m2 r' st1 st2 h1 h2
    by_cases hne : r' = r
    · subst hne
      have hall : ∀ m' st, t.place m' = .commit r' st → m' = m := by
        intro m' st hc
        by_contra hm'
        rw [hother m' hm'] at hc
        exact hm' (hown m' st hc)
      exact (hall m1 st1 h1).trans (hall m2 st2 h2).symm
    · exact h.owner m1 m2 r' st1 st2 ((hcommit _ _ _ hne).mp h1) ((hcommit _ _ _ hne).mp h2)
  · intro m1 r' st h1
    rw [hmade]
    by_cases hne : r' = r
    · subst hne
      have hm1 : m1 = m := by
        by_contra hm'
        rw [hother m1 hm'] at h1
        exact hm' (hown m1 st h1)
      rw [hm1,hself] at h1
      cases h1
      exact ⟨hr,hstage⟩
    · exact (h.stage m1 r' st ((hcommit _ _ _ hne).mp h1)).imp_right (hok r' st hne)
  · intro r' hr' hno
    rw [hmade] at hr'
    have hne : r' ≠ r := by
      rintro rfl
      exact hno m stage hself
    exact hok r' .found hne (h.free r' hr' fun m' st hc => hno m' st ((hcommit _ _ _ hne).mpr hc))
  · intro m' r' hm'
    rw [hmade]
    have hmm : m' ≠ m := by
      rintro rfl
      rw [hself] at hm'
      cases hm'
    rw [hother m' hmm] at hm'
    exact h.found m' r' hm'
  · intro r' hr'
    rw [hmade] at hr'
    have hne : r' ≠ r := by
      rintro rfl
      exact absurd hr (Nat.not_lt.mpr hr')
    rw [hres r' hne]
    exact h.fresh r' hr'
  · intro r' hd
    by_cases hne : r' = r
    · subst hne
      exact hdead hd
    · rw [hres r' hne] at hd
      exact (hremoved r' hne).mpr (h.dead r' hd)
  · intro r' hg
    by_cases hne : r' = r
    · subst hne
      exact hgone hg
    · rw [hres r' hne]
      exact h.gone r' ((hremoved r' hne).mp hg)
  · intro r' hc
    by_cases hne : r' = r
    · subst hne
      exact hempty hc
    · rw [hres r' hne] at hc ⊢
      exact h.empty r' hc
  · intro r' m' hin
    rw [hplaceheld]
    by_cases hne : r' = r
    · subst hne
      exact h.held r' m' (hheld m' hin)
    · rw [hres r' hne] at hin
      exact h.held r' m' hin
  · intro m' r' hm'
    rw [hplaceheld] at hm'
    rw [hmade]
    obtain ⟨hr',hcount⟩ := h.account m' r' hm'
    refine ⟨hr',?_⟩
    by_cases hne : r' = r
    · subst hne
      rw [hans,hcount]
    · have hother' : (s.place m').heldBy ≠ some r := by
        rw [hm']
        exact fun he => hne (Option.some.inj he)
      rw [hres r' hne,hnot m' hother',hcount]
  · intro m' hm'
    rw [hplaceheld] at hm'
    rw [hnot m' (by rw [hm']; exact nofun),h.others m' hm']
    by_cases hmm : m' = m
    · subst hmm
      rw [hself]
      rcases hm with ⟨st,hm⟩ | hm <;> rw [hm] <;> rfl
    · rw [hother m' hmm]

/-- A reservation gets a request to hold. -/
theorem Inv.hold (h : s.Inv) {o : ReservationObj M} (hm : (s.place m).heldBy = none)
    (hne : s.place m ≠ .refused) (hs : ∀ r stage, s.place m ≠ .commit r stage)
    (hp : p.heldBy = some r) (hplace : t.place = Function.update s.place m p)
    (hres : t.res = Function.update s.res r o) (hmade : s.made ≤ t.made) (hr : r < t.made)
    (hfresh : ∀ r', s.made ≤ r' → r' < t.made → r' = r)
    (hactive : t.active.Nodup ∧ ∀ r, r ∈ t.active ↔ r < t.made ∧ r ∉ t.removed)
    (hfault : t.fault = s.fault) (hremoved : t.removed = s.removed) (hans : t.answers = s.answers)
    (hcleared : o.cleared = false ∧ (s.res r).cleared = false) (hdeleted : o.deleted = false)
    (hbegin : (s.res r).beginReq.isSome ∨ s.made ≤ r → o.beginReq.isSome)
    (hheld : ∀ m', o.held.count m' = (s.res r).held.count m' + if m' = m then 1 else 0) :
    t.Inv := by
  have hself : t.place m = p := by rw [hplace,Function.update_self]
  have hother : ∀ m', m' ≠ m → t.place m' = s.place m' := by
    intro m' hm'
    rw [hplace,Function.update_of_ne hm']
  have hrself : t.res r = o := by rw [hres,Function.update_self]
  have hrother : ∀ r', r' ≠ r → t.res r' = s.res r' := by
    intro r' hr'
    rw [hres,Function.update_of_ne hr']
  have hcommit : ∀ m' r' st, t.place m' = .commit r' st ↔ s.place m' = .commit r' st := by
    intro m' r' st
    by_cases hmm : m' = m
    · subst hmm
      rw [hself]
      refine ⟨fun hc => ?_,fun hc => absurd hc (hs r' st)⟩
      rw [hc] at hp
      cases hp
    · rw [hother m' hmm]
  have hgone : r ∉ s.removed := by
    intro hin
    have := h.gone r hin
    rw [hcleared.2] at this
    cases this
  have hlive : ∀ r', s.Live r' → t.Live r' := by
    intro r' hl
    by_cases hrr : r' = r
    · subst hrr
      exact ⟨by rw [hrself]; exact hbegin (.inl hl.1),by rw [hrself]; exact hcleared.1⟩
    · unfold Live
      rw [hrother r' hrr]
      exact hl
  have hok : ∀ r' st, s.StageOk r' st → t.StageOk r' st := by
    intro r' st hst
    cases st with
    | found => exact hlive r' hst
    | waiting numReqs attempts => exact hlive r' hst
    | committed =>
      by_cases hrr : r' = r
      · subst hrr
        exact (congrArg _ hrself).trans hcleared.1
      · exact (congrArg _ (hrother r' hrr)).trans hst
    | cleared =>
      have hrr : r' ≠ r := by
        rintro rfl
        rw [hst.1] at hcleared
        cases hcleared.2
      exact ⟨(congrArg _ (hrother r' hrr)).trans hst.1,hremoved ▸ hst.2⟩
    | erased =>
      have hrr : r' ≠ r := fun he => hgone (he ▸ hst.1)
      exact ⟨hremoved ▸ hst.1,(congrArg _ (hrother r' hrr)).trans hst.2⟩
    | deleted => trivial
  refine ⟨hactive.1,hactive.2,hfault.trans h.fault,?_,?_,?_,?_,?_,?_,?_,?_,?_,?_,?_⟩
  · exact fun m1 m2 r' st st' h1 h2 =>
      h.owner m1 m2 r' st st' ((hcommit ..).mp h1) ((hcommit ..).mp h2)
  · intro m1 r' st h1
    obtain ⟨hlt,hst⟩ := h.stage m1 r' st ((hcommit ..).mp h1)
    exact ⟨Nat.lt_of_lt_of_le hlt hmade,hok r' st hst⟩
  · intro r' hr' hno
    rcases Nat.lt_or_ge r' s.made with hlt | hge
    · exact hlive r' (h.free r' hlt fun m st hc => hno m st ((hcommit ..).mpr hc))
    · obtain rfl := hfresh r' hge hr'
      exact ⟨by rw [hrself]; exact hbegin (.inr hge),by rw [hrself]; exact hcleared.1⟩
  · intro m' r' hm'
    have hmm : m' ≠ m := by
      rintro rfl
      rw [hself] at hm'
      rw [hm'] at hp
      cases hp
    rw [hother m' hmm] at hm'
    exact Nat.lt_of_lt_of_le (h.found m' r' hm') hmade
  · intro r' hr'
    have hrr : r' ≠ r := by
      rintro rfl
      exact absurd hr (Nat.not_lt.mpr hr')
    rw [hrother r' hrr]
    exact h.fresh r' (Nat.le_trans hmade hr')
  · intro r' hd
    by_cases hrr : r' = r
    · rw [hrr,hrself,hdeleted] at hd
      cases hd
    · rw [hrother r' hrr] at hd
      rw [hremoved]
      exact h.dead r' hd
  · intro r' hin
    rw [hremoved] at hin
    rw [hrother r' fun he => hgone (he ▸ hin)]
    exact h.gone r' hin
  · intro r' hc
    by_cases hrr : r' = r
    · rw [hrr,hrself,hcleared.1] at hc
      cases hc
    · rw [hrother r' hrr] at hc ⊢
      exact h.empty r' hc
  · intro r' m' hin
    have hin' : m' ∈ (s.res r').held ∨ r' = r ∧ m' = m := by
      by_cases hrr : r' = r
      · subst hrr
        rw [hrself,← List.count_pos_iff,hheld] at hin
        by_cases hmm : m' = m
        · exact .inr ⟨rfl,hmm⟩
        · rw [if_neg hmm] at hin
          exact .inl (List.count_pos_iff.mp hin)
      · rw [hrother r' hrr] at hin
        exact .inl hin
    rcases hin' with hin' | ⟨rfl,rfl⟩
    · have hb := h.held r' m' hin'
      rw [hother m' fun he => by rw [he,hm] at hb; cases hb]
      exact hb
    · rw [hself]
      exact hp
  · intro m' r' hb
    by_cases hmm : m' = m
    · subst hmm
      rw [hself,hp] at hb
      obtain rfl := Option.some.inj hb
      have hzero : m' ∉ (s.res r).held := by
        intro hin
        rw [h.held r m' hin] at hm
        cases hm
      rw [hrself,hheld,hans,h.others m' hm,if_neg hne,List.count_eq_zero.mpr hzero,if_pos rfl]
      exact ⟨hr,rfl⟩
    · rw [hother m' hmm] at hb
      obtain ⟨hlt,hcount⟩ := h.account m' r' hb
      refine ⟨Nat.lt_of_lt_of_le hlt hmade,?_⟩
      rw [hans]
      by_cases hrr : r' = r
      · subst hrr
        rw [hrself,hheld,if_neg hmm]
        exact hcount
      · rw [hrother r' hrr]
        exact hcount
  · intro m' hb
    by_cases hmm : m' = m
    · subst hmm
      rw [hself,hp] at hb
      cases hb
    · rw [hother m' hmm] at hb ⊢
      rw [hans]
      exact h.others m' hb

theorem count_held_add (o : ReservationObj M) (m m' : M) (k : TopologyReq) :
    (o.add m k).held.count m' = o.held.count m' + if m' = m then 1 else 0 := by
  have hone : List.count m' [m] = if m' = m then 1 else 0 := by
    rw [List.count_singleton]
    by_cases h : m' = m
    · simp [h]
    · simp [h,Ne.symm h]
  cases k <;>
  · simp only [ReservationObj.add,ReservationObj.held,List.count_append,hone]
    omega

theorem answerAll_res_self : (s.answerAll r).res r = (s.res r).emptied := Function.update_self ..

theorem Inv.reserved (h : s.Inv) (hm : s.place m = .authenticated) :
    ((s.addReservation reqs m).move m (.begun s.made)).Inv := by
  have hunused : (s.res s.made).held = [] := by
    refine List.eq_nil_iff_forall_not_mem.mpr fun m' hin => ?_
    exact absurd (h.account m' s.made (h.held _ _ hin)).1 (Nat.lt_irrefl _)
  have hnotin : s.made ∉ s.active := fun hin => absurd ((h.active _).mp hin).1 (Nat.lt_irrefl _)
  have hunremoved : s.made ∉ s.removed := by
    intro hin
    have := h.gone _ hin
    rw [h.fresh _ (Nat.le_refl _)] at this
    cases this
  refine h.hold (r := s.made) (by rw [hm]; rfl) (by rw [hm]; exact nofun)
    (by rw [hm]; exact fun _ _ => nofun) rfl rfl rfl (Nat.le_succ _) (Nat.lt_succ_self _)
    (fun r' hge hlt => Nat.le_antisymm (Nat.le_of_lt_succ hlt) hge) ⟨?_,fun r => ?_⟩ rfl rfl rfl
    ⟨rfl,h.fresh _ (Nat.le_refl _)⟩ rfl (fun _ => rfl) fun m' => ?_
  · exact List.nodup_append.mpr ⟨h.nodup,List.pairwise_singleton _ _,
      fun a ha b hb hab => hnotin (List.mem_singleton.mp hb ▸ hab ▸ ha)⟩
  · show r ∈ s.active ++ [s.made] ↔ r < s.made + 1 ∧ r ∉ s.removed
    rw [List.mem_append,List.mem_singleton,h.active,Nat.lt_succ_iff_lt_or_eq]
    constructor
    · rintro (hr | rfl)
      · exact ⟨.inl hr.1,hr.2⟩
      · exact ⟨.inr rfl,hunremoved⟩
    · rintro ⟨hr | rfl,hn⟩
      · exact .inl ⟨hr,hn⟩
      · exact .inr rfl
  · rw [hunused,List.count_nil,Nat.zero_add]
    show List.count m' [m] = _
    rw [List.count_singleton]
    by_cases hmm : m' = m
    · simp [hmm]
    · simp [hmm,Ne.symm hmm]

theorem Inv.add (h : s.Inv) (hm : s.place m = .found r) (hr : r < s.made)
    (hc : (s.res r).cleared = false) (k : TopologyReq) :
    ((s.setRes r ((s.res r).add m k)).move m (.added r)).Inv := by
  refine h.hold (r := r) (by rw [hm]; rfl) (by rw [hm]; exact nofun) (by rw [hm]; exact fun _ _ => nofun)
    rfl rfl rfl (Nat.le_refl _) hr (fun r' hge hlt => absurd hlt (Nat.not_lt.mpr hge))
    ⟨h.nodup,h.active⟩ rfl rfl rfl ⟨?_,hc⟩ ?_ ?_ fun m' => count_held_add _ m m' k
  · cases k <;> exact hc
  · cases k <;> exact h.not_deleted_of_cleared hc
  · rintro (hb | hge)
    · cases k <;> exact hb
    · exact absurd hr (Nat.not_lt.mpr hge)

/-- A request is refused with an answer. -/
theorem Inv.refuse (h : s.Inv) (hm : s.place m = .received) : ((s.answer [m]).move m .refused).Inv := by
  refine h.move (m := m) (p := .refused) (by rw [hm]; exact fun _ _ => nofun) (fun _ _ => nofun)
    (fun _ => nofun) (by rw [hm]; rfl) (by rw [hm]; exact nofun) (fun m' => ?_) rfl
  show s.answers m' + List.count m' [m] = _
  rw [List.count_singleton]
  by_cases hmm : m' = m
  · simp [hmm]
  · simp [hmm,Ne.symm hmm]

/-- A request goes on that holds, commits and answers nothing. -/
theorem Inv.pass (h : s.Inv) (hs : ∀ r stage, s.place m ≠ .commit r stage)
    (hp : ∀ r stage, p ≠ .commit r stage) (hfound : ∀ r, p = .found r → r < s.made)
    (hheld : p.heldBy = (s.place m).heldBy) (hne : s.place m ≠ .refused) (hpr : p ≠ .refused) :
    (s.move m p).Inv := by
  refine h.move hs hp hfound hheld hne (fun m' => ?_) rfl
  rw [if_neg fun hx => hpr hx.2]
  rfl

/-- Nothing that is looked for has been deleted. -/
theorem Inv.lookUp_eq (h : s.Inv) {none' : ReservationTable M} {some' : ℕ → ResPlace} :
    (s.lookUp reqs m none' some' = none' ∨ ∃ r, (s.find fun o => o.conn = reqs.conn m ∧
      o.id = reqs.rid m) = some r ∧ r < s.made ∧ s.lookUp reqs m none' some' = s.move m (some' r)) := by
  unfold lookUp
  split
  · exact .inl rfl
  · next r hf =>
    have hr := Inv.find_some hf
    rw [if_neg (by rw [h.not_deleted hr]; decide)]
    exact .inr ⟨r,hf,((h.active r).mp hr).1,rfl⟩

section commit

variable {stage stage' : CommitStage}

/-- The request that commits a reservation goes on and leaves it as it is. -/
theorem Inv.commitOn (h : s.Inv) (stage' : CommitStage) (hm : s.place m = .commit r stage)
    (hst : s.StageOk r stage') :
    (s.move m (.commit r stage')).Inv := by
  refine h.commitStep _ (.inl ⟨stage,hm⟩) (h.stage m r stage hm).1
    (fun m' st' hc => h.owner m' m r st' stage hc hm) rfl (fun _ _ => rfl) rfl h.fault h.nodup h.active
    (fun _ _ => Iff.rfl) ?_ (h.dead r) (h.gone r) (h.empty r) (fun _ => id) fun _ => rfl
  cases stage' <;> exact hst

/-- All the requests of the reservation are answered. -/
theorem Inv.commitAnswer (h : s.Inv) (hm : s.place m = .commit r stage)
    (hc : (s.res r).cleared = false) (b : Bool) (hst : b = false ∧ stage' = .committed ∨
      b = true ∧ stage' = .cleared) :
    (((s.answerAll r).setRes r { (s.res r).emptied with cleared := b }).move m
      (.commit r stage')).Inv := by
  have hself : (((s.answerAll r).setRes r { (s.res r).emptied with cleared := b }).move m
      (.commit r stage')).res r = { (s.res r).emptied with cleared := b } := Function.update_self ..
  have hnot : r ∉ s.removed := by
    intro hin
    rw [h.gone r hin] at hc
    cases hc
  refine h.commitStep _ (.inl ⟨stage,hm⟩) (h.stage m r stage hm).1
    (fun m' st' hc' => h.owner m' m r st' stage hc' hm) rfl (fun r' hr' => ?_) rfl h.fault h.nodup
    h.active (fun _ _ => Iff.rfl) ?_ (fun hd => ?_) (fun hin => absurd hin hnot) (fun _ => ?_)
    (fun m' hin => ?_) fun m' => ?_
  · show Function.update (Function.update s.res r _) r _ r' = _
    rw [Function.update_of_ne hr',Function.update_of_ne hr']
  · rcases hst with ⟨rfl,rfl⟩ | ⟨rfl,rfl⟩
    · exact congrArg _ hself
    · exact ⟨congrArg _ hself,hnot⟩
  · rw [hself] at hd
    exact h.dead r hd
  · rw [hself]
    rfl
  · rw [hself] at hin
    exact absurd hin List.not_mem_nil
  · rw [hself]
    rfl

theorem Inv.awaitReqs (h : s.Inv) (hm : s.place m = .commit r stage) (hl : s.Live r)
    (numReqs attempts : ℕ) : (s.awaitReqs m r numReqs attempts).Inv := by
  unfold ReservationTable.awaitReqs
  split
  · split
    · exact h.commitOn .committed hm hl.2
    · exact h.commitOn (.waiting numReqs (attempts + 1)) hm hl
  · split
    · next hb => exact absurd hl.1 (by rw [hb]; exact nofun)
    · have heq : (s.answerAll r).setRes r { (s.res r).emptied with cleared := false } =
          s.answerAll r := by
        unfold setRes
        rw [show (s.answerAll r).res = Function.update s.res r (s.res r).emptied from rfl,
          Function.update_idem]
        have ho : { (s.res r).emptied with cleared := false } = (s.res r).emptied := by
          rw [← hl.2]
          rfl
        rw [ho]
        rfl
      have := h.commitAnswer hm hl.2 false (.inl ⟨rfl,rfl⟩)
      rwa [heq] at this

theorem Inv.erase (h : s.Inv) (hm : s.place m = .commit r .cleared)
    (hf : FirstOfKey (fun n => (s.res n).conn) r s.active) :
    ((s.erase r).move m (.commit r .erased)).Inv := by
  obtain ⟨hr,hc,hnot⟩ := h.stage m r .cleared hm
  have hactive : (s.erase r).active = s.active.erase r := removeByKey_eq_erase hf
  have hremoved : ∀ r', r' ∈ (s.erase r).removed ↔ r' ∈ s.removed ∨ r' = r := by
    intro r'
    show r' ∈ s.removed ++ [r] ↔ _
    rw [List.mem_append,List.mem_singleton]
  refine h.commitStep _ (.inl ⟨_,hm⟩) hr (fun m' st' hc' => h.owner m' m r st' _ hc' hm) rfl
    (fun _ _ => rfl) rfl h.fault ?_ (fun r' => ?_) (fun r' hr' => ?_) ⟨?_,?_⟩ (fun hd => ?_)
    (fun _ => hc) (h.empty r) (fun _ => id) fun _ => rfl
  · rw [show ((s.erase r).move m _).active = s.active.erase r from hactive]
    exact h.nodup.erase r
  · rw [show ((s.erase r).move m _).active = s.active.erase r from hactive,h.nodup.mem_erase_iff,
      h.active]
    show _ ↔ r' < s.made ∧ r' ∉ (s.erase r).removed
    rw [hremoved,not_or]
    exact ⟨fun ⟨hne,hlt,hn⟩ => ⟨hlt,hn,hne⟩,fun ⟨hlt,hn,hne⟩ => ⟨hne,hlt,hn⟩⟩
  · exact (hremoved r').trans (or_iff_left hr')
  · exact (hremoved r).mpr (.inr rfl)
  · show (s.res r).deleted = false
    by_contra hd
    exact hnot (h.dead r (by simpa using hd))
  · exact (hremoved r).mpr (.inl (h.dead r hd))

theorem Inv.delete (h : s.Inv) (hm : s.place m = .commit r .erased) :
    ((s.setRes r { s.res r with deleted := true }).move m (.commit r .deleted)).Inv := by
  obtain ⟨hr,hin,hd⟩ := h.stage m r .erased hm
  have hself : ((s.setRes r { s.res r with deleted := true }).move m (.commit r .deleted)).res r =
      { s.res r with deleted := true } := Function.update_self ..
  refine h.commitStep _ (.inl ⟨_,hm⟩) hr (fun m' st' hc' => h.owner m' m r st' _ hc' hm) rfl
    (fun r' hr' => Function.update_of_ne hr' ..) rfl h.fault h.nodup h.active (fun _ _ => Iff.rfl)
    trivial (fun _ => hin) (fun hg => ?_) (fun _ => ?_) (fun m' hm' => ?_) fun m' => ?_
  · rw [hself]
    exact h.gone r hg
  · rw [hself]
    exact h.empty r (h.gone r hin)
  · rwa [hself] at hm'
  · rw [hself]
    rfl

end commit

/-! ### Runs -/

theorem inv_of_orderly {a : ReservationAct M} (h : s.Inv) (hstep : s.step reqs a = some t)
    (ho : s.Orderly reqs a) : t.Inv := by
  unfold step at hstep
  rw [if_neg (by rw [h.fault]; decide)] at hstep
  cases a with
  | authenticate m ok =>
    simp only at hstep
    split at hstep
    · next hm =>
      split at hstep <;> cases hstep
      · exact h.pass (by rw [hm]; exact fun _ _ => nofun) (fun _ _ => nofun) (fun _ => nofun)
          (by rw [hm]; rfl) (by rw [hm]; exact nofun) nofun
      · exact h.refuse hm
    · cases hstep
  | addReservation m =>
    simp only at hstep
    split at hstep
    · next hm =>
      cases hstep
      exact h.reserved hm
    · cases hstep
  | ack m =>
    simp only at hstep
    split at hstep
    · next r hm =>
      have hb := ho r hm
      have hlive : (s.res r).cleared = false := by
        by_contra hc
        have hin : m ∈ (s.res r).held := by
          unfold ReservationObj.held
          rw [hb]
          exact List.mem_append_right _ List.mem_cons_self
        rw [h.empty r (by simpa using hc)] at hin
        cases hin
      rw [if_neg (by simp [h.not_deleted_of_cleared hlive,hb])] at hstep
      cases hstep
      exact h.pass (by rw [hm]; exact fun _ _ => nofun) (fun _ _ => nofun) (fun _ => nofun)
        (by rw [hm]; rfl) (by rw [hm]; exact nofun) nofun
    · cases hstep
  | getReservation m =>
    simp only at hstep
    split at hstep
    · next hm =>
      cases hstep
      rcases h.lookUp_eq with he | ⟨r,-,hr,he⟩
      · rw [he]
        exact h.refuse hm
      · rw [he]
        refine h.pass (by rw [hm]; exact fun _ _ => nofun) (fun _ _ => nofun) (fun r' he => ?_)
          (by rw [hm]; rfl) (by rw [hm]; exact nofun) nofun
        cases he
        exact hr
    · cases hstep
  | add m =>
    simp only at hstep
    split at hstep
    · next r hm =>
      have hc := ho r hm
      rw [if_neg (by rw [h.not_deleted_of_cleared hc]; decide)] at hstep
      cases hstep
      exact h.add hm (h.found m r hm) hc _
    · cases hstep
  | getToCommit m =>
    simp only at hstep
    split at hstep
    · next hm =>
      cases hstep
      rcases h.lookUp_eq with he | ⟨r,hf,hr,he⟩
      · rw [he]
        exact h.pass (by rw [hm]; exact fun _ _ => nofun) (fun _ _ => nofun) (fun _ => nofun)
          (by rw [hm]; rfl) (by rw [hm]; exact nofun) nofun
      · rw [he]
        have hno := ho r hf
        exact h.commitStep .found (.inr hm) hr (fun m' st hc => absurd hc (hno m' st)) rfl
          (fun _ _ => rfl) rfl h.fault h.nodup h.active (fun _ _ => Iff.rfl) (h.free r hr hno)
          (h.dead r) (h.gone r) (h.empty r) (fun _ => id) fun _ => rfl
    · cases hstep
  | commit m =>
    simp only at hstep
    split at hstep
    · next r hm =>
      cases hstep
      have hl : s.Live r := (h.stage m r _ hm).2
      unfold ReservationTable.commit
      rw [if_neg (by rw [h.not_deleted_of_cleared hl.2]; decide),if_neg (by rw [hl.2]; decide)]
      split
      · next hb => exact absurd hl.1 (by rw [hb]; exact nofun)
      · exact h.awaitReqs hm hl _ _
    · cases hstep
  | wake m =>
    simp only at hstep
    split at hstep
    · next r numReqs attempts hm =>
      have hl : s.Live r := (h.stage m r _ hm).2
      rw [if_neg (by rw [h.not_deleted_of_cleared hl.2]; decide)] at hstep
      cases hstep
      exact h.awaitReqs hm hl _ _
    · cases hstep
  | clear m =>
    simp only at hstep
    split at hstep
    · next r hm =>
      have hc : (s.res r).cleared = false := (h.stage m r _ hm).2
      rw [if_neg (by rw [h.not_deleted_of_cleared hc]; decide)] at hstep
      cases hstep
      unfold ReservationTable.clear
      rw [if_neg (by rw [hc]; decide)]
      simp only [answerAll_res_self]
      exact h.commitAnswer hm hc true (.inr ⟨rfl,rfl⟩)
    · cases hstep
  | erase m =>
    simp only at hstep
    split at hstep
    · next r hm =>
      have hnot := (h.stage m r _ hm).2.2
      have hfind : (s.find fun o => o.conn = (s.res r).conn).any
          (fun n => (s.res n).deleted) = false := by
        cases hf : s.find fun o => o.conn = (s.res r).conn with
        | none => rfl
        | some n => exact h.not_deleted (Inv.find_some hf)
      have hd : (s.res r).deleted = false := by
        by_contra hd
        exact hnot (h.dead r (by simpa using hd))
      rw [if_neg (by rw [hd,hfind]; decide)] at hstep
      cases hstep
      exact h.erase hm (ho r hm)
    · cases hstep
  | delete m =>
    simp only at hstep
    split at hstep
    · next r hm =>
      rw [if_neg (by rw [(h.stage m r _ hm).2.2]; decide)] at hstep
      cases hstep
      exact h.delete hm
    · cases hstep

/-- Any number of requests over any connections, in any order of their sections: in a run whose steps
are all orderly the list has the reservations that were added and not removed, no reservation or
request is used after it was deleted, and every request is answered once, the requests of a
reservation before it is deleted. -/
theorem sound_of_orderly (reqs : ResRequests M)
    (tr : List (ReservationAct M × ReservationTable M))
    (hr : IsRun (fun s a t => s.step reqs a = some t) {} tr)
    (ho : EveryStep (fun s a _ => s.Orderly reqs a) {} tr) : EveryState Sound {} tr :=
  (hr.everyState (fun _ _ _ h hs ho => inv_of_orderly h hs ho) inv_new ho).mono fun _ h => h.sound

/-- Requests over one connection. The requests 0 and 1 begin reservations, 2 and 3 commit them. -/
def oneConnection : ResRequests ℕ where
  conn _ := 0
  rid m := if m = 3 then "2" else "1"
  kind _ := .component
  numRequests m := if m = 0 then 1 else 0

/-- The first reservation is committed before its last request is there. -/
def commitOne : List (ReservationAct ℕ) :=
  [.authenticate 0 true,.addReservation 0,.ack 0,.getToCommit 2,.commit 2,.getReservation 4,.add 4,
    .wake 2,.clear 2,.erase 2,.delete 2]

theorem commitOne_sound : EveryState Sound {} (runOf (step oneConnection) {} commitOne) := by
  refine sound_of_orderly oneConnection _ (isRun_runOf (step oneConnection) {} commitOne) ?_
  refine ⟨trivial,trivial,fun r hr => ?_,fun r _ m' stage hm' => ?_,trivial,trivial,fun r hr => ?_,
    trivial,trivial,fun r hr => ?_,trivial,trivial⟩
  · have he : ResPlace.begun 0 = .begun r := hr
    cases he
    rfl
  · have hno : ∀ m', (Function.update (Function.update (Function.update
        (fun _ => ResPlace.received) 0 .authenticated) 0 (.begun 0)) 0 (.kept 0)) m' ≠
        .commit r stage := by
      intro m'
      by_cases h : m' = 0
      · rw [h,Function.update_self]
        exact nofun
      · rw [Function.update_of_ne h,Function.update_of_ne h,Function.update_of_ne h]
        exact nofun
    exact hno m' hm'
  · have he : ResPlace.found 0 = .found r := hr
    cases he
    rfl
  · have he : ResPlace.commit 0 .cleared = .commit r .cleared := hr
    cases he
    rfl

/-- The second reservation of a connection is committed, and the first taken out of the list. -/
theorem other_reservation_erased :
    ¬ ∀ (reqs : ResRequests ℕ) (tr : List (ReservationAct ℕ × ReservationTable ℕ)),
      IsRun (fun s a t => s.step reqs a = some t) {} tr → EveryState Sound {} tr := by
  intro h
  have hlast := (h oneConnection _ (isRun_runOf (step oneConnection) {}
    [.authenticate 0 true,.addReservation 0,.ack 0,.authenticate 1 true,.addReservation 1,.ack 1,
      .getToCommit 3,.commit 3,.clear 3,.erase 3])).last
  exact absurd ((hlast.active 1).mp (by decide +kernel)).2 (by decide +kernel)

end ReservationTable

end OnlDaemons.Crd

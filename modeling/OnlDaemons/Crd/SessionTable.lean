import OnlDaemons.Lib.Registry
import OnlDaemons.Lib.Run
import Mathlib.Data.Int.Notation
import Mathlib.Logic.Function.Basic

/-!
# The sessions of the users

`begin_session_req::handle` asks whether its user has a session, then whether the user has a
reservation, and then adds a session. Each of the three takes its lock and gives it back, and every
request is handled in a thread of its own. A session that is cleared stays in the list until its
thread, which pings the RLI, sees it and removes the session.

## Main definitions

- `BeginPlace` — how far a request has come
- `SessionTable`, `SessionTable.step` — `active_sessions`, with the requests and the threads
- `SessionTable.OneEach` — the sessions of a user that are not cleared, and the numbers

## Main result

- `oneEach_iff_current` — a user has one session throughout a run, and every removal removes the
  session it is given, iff whatever a request was told of its user is still so when it adds a session
-/

namespace OnlDaemons.Crd

open OnlDaemons.Lib

/-- Why a request is refused before anything is asked about its user. -/
inductive BeginRefusal where
  | version
  | initializing
  | authentication
deriving DecidableEq, Repr

/-- The texts of the answers. -/
def BeginRefusal.msg : BeginRefusal → String
  | version => "Your RLI is out of date.  Please go to http://onl.wustl.edu to download a new version."
  | initializing => "ONL is currently rebooting. Please try again in 10 minutes."
  | authentication => "Authentication failed."

/-- A request is `tested` once `has_session` said no and `reserved` once there is time left; `made` is
the number of sessions that had been made when `has_session` said so. -/
inductive BeginPlace where
  | received
  | authenticated
  | tested (made : ℕ)
  | reserved (made : ℕ)
  | refused (msg : String)
  | added (n : ℕ)
deriving DecidableEq, Repr

/-- What `BeginPlace` remembers of the test of `has_session`. -/
def BeginPlace.testedAt : BeginPlace → Option ℕ
  | tested made | reserved made => some made
  | _ => none

structure Session where
  id : UInt32
  user : String
  cleared : Bool
deriving DecidableEq, Repr, Inhabited

/-- The session manager. Sessions are numbered as they are made; `id` is the number that the manager
gives them. `alerting` are those whose thread runs. -/
structure SessionTable (R : Type) where
  session : ℕ → Session := fun _ => default
  made : ℕ := 0
  nextId : UInt32 := 1
  active : List ℕ := []
  alerting : ℕ → Bool := fun _ => false
  place : R → BeginPlace := fun _ => .received

/-- A session is cleared by a request, when its reservation expires, by a session that gets one of its
components, or by its own thread. `started` is what `pthread_create` says. -/
inductive TableAct (R : Type) where
  | handle (m : R) (refusal : Option BeginRefusal)
  | hasSession (m : R)
  | timeLeft (m : R) (minutes : ℤ)
  | addSession (m : R) (started : Bool)
  | clear (n : ℕ)
  | removeSession (n : ℕ)
deriving DecidableEq, Repr

namespace SessionTable

variable {R : Type} [DecidableEq R] (user : R → String)

def hasSession (s : SessionTable R) (username : String) : Bool :=
  s.active.any fun n => (s.session n).user = username ∧ ¬(s.session n).cleared

def move (s : SessionTable R) (m : R) (p : BeginPlace) : SessionTable R :=
  { s with place := Function.update s.place m p }

/-- `add_session` is one section under `session_lock`. -/
def addSession (s : SessionTable R) (username : String) (started : Bool) : SessionTable R :=
  { s with
    session := Function.update s.session s.made ⟨s.nextId,username,false⟩
    made := s.made + 1
    nextId := s.nextId + 1
    active := s.active ++ [s.made]
    alerting := Function.update s.alerting s.made started }

def setCleared (s : SessionTable R) (n : ℕ) : SessionTable R :=
  { s with session := Function.update s.session n { s.session n with cleared := true } }

def removeSession (s : SessionTable R) (n : ℕ) : SessionTable R :=
  { s with
    active := removeByKey (fun n => (s.session n).id) (s.session n).id s.active
    alerting := Function.update s.alerting n false }

def step (s : SessionTable R) : TableAct R → Option (SessionTable R)
  | .handle m refusal =>
    if s.place m = .received then
      match refusal with
      | some r => some (s.move m (.refused r.msg))
      | none => some (s.move m .authenticated)
    else none
  | .hasSession m =>
    if s.place m = .authenticated then
      if s.hasSession (user m) then some (s.move m (.refused "You already have a running session."))
      else some (s.move m (.tested s.made))
    else none
  | .timeLeft m minutes =>
    match s.place m with
    | .tested made =>
      if minutes ≤ 0 then some (s.move m (.refused "Reservation not found."))
      else some (s.move m (.reserved made))
    | _ => none
  | .addSession m started =>
    match s.place m with
    | .reserved _ => some ((s.addSession (user m) started).move m (.added s.made))
    | _ => none
  | .clear n => if n < s.made then some (s.setCleared n) else none
  -- `send_alerts` returns once the session is cleared
  | .removeSession n =>
    if s.alerting n ∧ (s.session n).cleared then some (s.removeSession n) else none

/-- A user has at most one session that is not cleared, and the numbers are different. -/
structure OneEach (s : SessionTable R) : Prop where
  one : ∀ n ∈ s.active, ∀ n' ∈ s.active, (s.session n).user = (s.session n').user →
    ¬(s.session n).cleared → ¬(s.session n').cleared → n = n'
  ids : (s.active.map fun n => (s.session n).id).Nodup

/-- A removal takes the session it is given out of the list, and nothing else does. -/
def RemovesGiven (s : SessionTable R) (a : TableAct R) (t : SessionTable R) : Prop :=
  match a with
  | .removeSession n => n ∈ s.active ∧ t.active = s.active.erase n
  | _ => s.active <+: t.active

/-- A session is added for a user who has got no other since the test, or none that is not cleared,
and under a number that no session in the list has. -/
def Current (s : SessionTable R) : TableAct R → Prop
  | .addSession m _ => (∀ made, s.place m = .reserved made →
      ∀ n ∈ s.active, made ≤ n → (s.session n).user = user m → (s.session n).cleared) ∧
    ∀ n ∈ s.active, (s.session n).id ≠ s.nextId
  | _ => True

/-! ### The invariant -/

/-- What a test said stays true of the sessions there were at the time. -/
structure Inv (s : SessionTable R) : Prop extends OneEach s where
  made : ∀ n ∈ s.active, n < s.made
  alerting : ∀ n, s.alerting n → n ∈ s.active
  tested : ∀ m made, (s.place m).testedAt = some made → made ≤ s.made ∧
    ∀ n ∈ s.active, n < made → (s.session n).user = user m → (s.session n).cleared

variable {user} {s t : SessionTable R} {m : R} {p : BeginPlace} {n : ℕ}

omit [DecidableEq R] in
theorem inv_new : Inv user ({} : SessionTable R) where
  one _ h := absurd h List.not_mem_nil
  ids := .nil
  made _ h := absurd h List.not_mem_nil
  alerting _ h := by cases h
  tested _ _ h := by cases h

@[simp] theorem move_self : (s.move m p).place m = p := Function.update_self ..

theorem move_other {m' : R} (h : m' ≠ m) : (s.move m p).place m' = s.place m' :=
  Function.update_of_ne h ..

omit [DecidableEq R] in
@[simp] theorem addSession_new (username : String) (started : Bool) :
    (s.addSession username started).session s.made = ⟨s.nextId,username,false⟩ :=
  Function.update_self ..

omit [DecidableEq R] in
theorem addSession_old {username : String} {started : Bool} (h : n ≠ s.made) :
    (s.addSession username started).session n = s.session n :=
  Function.update_of_ne h ..

/-- A request goes on. -/
theorem Inv.move (h : Inv user s) (hp : ∀ made, p.testedAt = some made → made ≤ s.made ∧
    ∀ n ∈ s.active, n < made → (s.session n).user = user m → (s.session n).cleared) :
    Inv user (s.move m p) := by
  refine ⟨⟨h.one,h.ids⟩,h.made,h.alerting,fun m' made hm => ?_⟩
  by_cases hmm : m' = m
  · subst hmm
    rw [move_self] at hm
    exact hp made hm
  · rw [move_other hmm] at hm
    exact h.tested m' made hm

omit [DecidableEq R] in
/-- `has_session` says no: all sessions of the user are cleared. -/
theorem cleared_of_not_hasSession {username : String} (h : s.hasSession username = false) :
    ∀ n ∈ s.active, (s.session n).user = username → (s.session n).cleared := by
  intro n hn hu
  by_contra hc
  have hany : s.hasSession username = true :=
    List.any_eq_true.mpr ⟨n,hn,by simpa [hu] using hc⟩
  rw [h] at hany
  exact absurd hany (by decide)

omit [DecidableEq R] in
theorem Inv.addSession (h : Inv user s) {username : String} (started : Bool)
    (hone : ∀ n ∈ s.active, (s.session n).user = username → (s.session n).cleared)
    (hid : ∀ n ∈ s.active, (s.session n).id ≠ s.nextId) :
    Inv user (s.addSession username started) := by
  have hold : ∀ n ∈ s.active, (s.addSession username started).session n = s.session n :=
    fun n hn => addSession_old (Nat.ne_of_lt (h.made n hn))
  have hmem : ∀ n, n ∈ (s.addSession username started).active ↔ n ∈ s.active ∨ n = s.made := by
    intro n
    show n ∈ s.active ++ [s.made] ↔ _
    rw [List.mem_append,List.mem_singleton]
  refine ⟨⟨?_,?_⟩,?_,?_,?_⟩
  · intro n hn n' hn' hu hc hc'
    rcases (hmem n).mp hn with hn | rfl <;> rcases (hmem n').mp hn' with hn' | rfl
    · rw [hold n hn] at hu hc
      rw [hold n' hn'] at hu hc'
      exact h.one n hn n' hn' hu hc hc'
    · rw [hold n hn] at hu hc
      rw [addSession_new] at hu
      exact absurd (hone n hn hu) hc
    · rw [hold n' hn'] at hu hc'
      rw [addSession_new] at hu
      exact absurd (hone n' hn' hu.symm) hc'
    · rfl
  · show ((s.active ++ [s.made]).map fun n => _).Nodup
    rw [List.map_append,List.map_congr_left fun n hn => congrArg Session.id (hold n hn)]
    refine List.nodup_append.mpr ⟨h.ids,List.pairwise_singleton _ _,?_⟩
    intro i hi j hj hij
    obtain ⟨n,hn,rfl⟩ := List.mem_map.mp hi
    rw [List.map_cons,List.map_nil,List.mem_singleton,addSession_new] at hj
    exact hid n hn (hij.trans hj)
  · intro n hn
    rcases (hmem n).mp hn with hn | rfl
    · exact Nat.lt_succ_of_lt (h.made n hn)
    · exact Nat.lt_succ_self _
  · intro n hn
    rw [hmem]
    by_cases he : n = s.made
    · exact .inr he
    · refine .inl (h.alerting n ?_)
      rw [← hn]
      exact (Function.update_of_ne he ..).symm
  · intro m made hm
    obtain ⟨hle,hall⟩ := h.tested m made hm
    refine ⟨Nat.le_succ_of_le hle,fun n hn hlt hu => ?_⟩
    rcases (hmem n).mp hn with hn | rfl
    · rw [hold n hn] at hu ⊢
      exact hall n hn hlt hu
    · exact absurd hle (Nat.not_le.mpr hlt)

omit [DecidableEq R] in
theorem setCleared_session (s : SessionTable R) (n n' : ℕ) :
    ((s.setCleared n).session n').id = (s.session n').id ∧
    ((s.setCleared n).session n').user = (s.session n').user ∧
    (((s.setCleared n).session n').cleared ↔ (s.session n').cleared ∨ n' = n) := by
  show (Function.update s.session n _ n').id = _ ∧ (Function.update s.session n _ n').user = _ ∧
    ((Function.update s.session n _ n').cleared ↔ _)
  by_cases h : n' = n
  · subst h
    simp
  · simp [h]

omit [DecidableEq R] in
theorem Inv.setCleared (h : Inv user s) (n : ℕ) : Inv user (s.setCleared n) := by
  have hkeep : ∀ n', (s.session n').cleared → ((s.setCleared n).session n').cleared :=
    fun n' hc => (setCleared_session s n n').2.2.mpr (.inl hc)
  refine ⟨⟨fun n1 hn1 n2 hn2 hu hc1 hc2 => ?_,?_⟩,h.made,h.alerting,fun m made hm => ?_⟩
  · rw [(setCleared_session s n n1).2.1,(setCleared_session s n n2).2.1] at hu
    exact h.one n1 hn1 n2 hn2 hu (fun hc => hc1 (hkeep n1 hc)) (fun hc => hc2 (hkeep n2 hc))
  · refine (List.map_congr_left fun n' _ => ?_).symm ▸ h.ids
    exact (setCleared_session s n n').1
  · refine ⟨(h.tested m made hm).1,fun n' hn' hlt hu => hkeep n' ?_⟩
    rw [(setCleared_session s n n').2.1] at hu
    exact (h.tested m made hm).2 n' hn' hlt hu

omit [DecidableEq R] in
theorem Inv.removes (h : Inv user s) (ha : s.alerting n) :
    n ∈ s.active ∧ (s.removeSession n).active = s.active.erase n :=
  ⟨h.alerting n ha,removeByKey_of_nodup h.ids (h.alerting n ha)⟩

omit [DecidableEq R] in
theorem Inv.removeSession (h : Inv user s) (ha : s.alerting n) : Inv user (s.removeSession n) := by
  have he := (h.removes ha).2
  have hsub : ∀ n', n' ∈ (s.removeSession n).active → n' ∈ s.active := by
    intro n' hn'
    rw [he] at hn'
    exact List.mem_of_mem_erase hn'
  refine ⟨⟨fun n1 hn1 n2 hn2 => h.one n1 (hsub n1 hn1) n2 (hsub n2 hn2),?_⟩,
    fun n' hn' => h.made n' (hsub n' hn'),fun n' hn' => ?_,fun m made hm => ?_⟩
  · rw [he]
    exact h.ids.sublist (List.erase_sublist.map _)
  · by_cases hnn : n' = n
    · subst hnn
      rw [show (s.removeSession n').alerting n' = false from Function.update_self ..] at hn'
      exact absurd hn' (by decide)
    · rw [show (s.removeSession n).alerting n' = s.alerting n' from Function.update_of_ne hnn ..] at hn'
      rw [he]
      exact (List.mem_erase_of_ne hnn).mpr (h.alerting n' hn')
  · exact ⟨(h.tested m made hm).1,fun n' hn' => (h.tested m made hm).2 n' (hsub n' hn')⟩

/-! ### The steps -/

theorem inv_of_current {a : TableAct R} (h : Inv user s) (hstep : s.step user a = some t)
    (hc : s.Current user a) : Inv user t := by
  cases a with
  | handle m refusal =>
    simp only [step] at hstep
    split at hstep
    · split at hstep <;> cases hstep
      · exact h.move nofun
      · exact h.move nofun
    · cases hstep
  | hasSession m =>
    simp only [step] at hstep
    split at hstep
    · split at hstep
      · cases hstep
        exact h.move nofun
      · next hno =>
        cases hstep
        refine h.move fun made hm => ?_
        cases hm
        exact ⟨Nat.le_refl _,fun n hn _ hu =>
          cleared_of_not_hasSession (Bool.eq_false_iff.mpr hno) n hn hu⟩
    · cases hstep
  | timeLeft m minutes =>
    simp only [step] at hstep
    split at hstep
    · next made hm =>
      split at hstep <;> cases hstep
      · exact h.move nofun
      · refine h.move fun made' hm' => ?_
        cases hm'
        exact h.tested m made (congrArg BeginPlace.testedAt hm)
    · cases hstep
  | addSession m started =>
    simp only [step] at hstep
    split at hstep
    · next made hm =>
      cases hstep
      refine Inv.move (h.addSession started (fun n hn hu => ?_) hc.2) nofun
      rcases Nat.lt_or_ge n made with hlt | hge
      · exact (h.tested m made (congrArg BeginPlace.testedAt hm)).2 n hn hlt hu
      · exact hc.1 made hm n hn hge hu
    · cases hstep
  | clear n =>
    simp only [step] at hstep
    split at hstep <;> cases hstep
    exact h.setCleared n
  | removeSession n =>
    simp only [step] at hstep
    split at hstep
    · next ha =>
      cases hstep
      exact h.removeSession ha.1
    · cases hstep

theorem current_of_oneEach {a : TableAct R} (h : Inv user s) (hstep : s.step user a = some t)
    (ht : t.OneEach) : s.Current user a := by
  cases a with
  | addSession m started =>
    simp only [step] at hstep
    split at hstep
    · cases hstep
      -- the new session and an older one
      have hnew : s.made ∈ s.active ++ [s.made] := List.mem_append_right _ List.mem_cons_self
      refine ⟨fun made hm n hn _ hu => ?_,fun n hn hid => ?_⟩
      · by_contra hcl
        have hold : (s.addSession (user m) started).session n = s.session n :=
          addSession_old (Nat.ne_of_lt (h.made n hn))
        have heq := ht.one n (List.mem_append_left _ hn) s.made hnew
        simp only [SessionTable.move,hold,addSession_new] at heq
        exact absurd (heq hu hcl (by decide)) (Nat.ne_of_lt (h.made n hn))
      · have hids := ht.ids
        simp only [SessionTable.move] at hids
        rw [show (s.addSession (user m) started).active = s.active ++ [s.made] from rfl,
          List.map_append,List.nodup_append] at hids
        refine hids.2.2 _ (List.mem_map_of_mem hn) _ List.mem_cons_self ?_
        show ((s.addSession (user m) started).session n).id =
          ((s.addSession (user m) started).session s.made).id
        rw [addSession_old (Nat.ne_of_lt (h.made n hn)),addSession_new,hid]
    · cases hstep
  | _ => trivial

theorem removesGiven_of_inv {a : TableAct R} (h : Inv user s) (hstep : s.step user a = some t) :
    s.RemovesGiven a t := by
  cases a with
  | handle m refusal =>
    simp only [step] at hstep
    split at hstep
    · split at hstep <;> cases hstep <;> exact List.prefix_refl _
    · cases hstep
  | hasSession m =>
    simp only [step] at hstep
    split at hstep
    · split at hstep <;> cases hstep <;> exact List.prefix_refl _
    · cases hstep
  | timeLeft m minutes =>
    simp only [step] at hstep
    split at hstep
    · split at hstep <;> cases hstep <;> exact List.prefix_refl _
    · cases hstep
  | addSession m started =>
    simp only [step] at hstep
    split at hstep <;> cases hstep
    exact List.prefix_append _ _
  | clear n =>
    simp only [step] at hstep
    split at hstep <;> cases hstep
    exact List.prefix_refl _
  | removeSession n =>
    simp only [step] at hstep
    split at hstep
    · next ha =>
      cases hstep
      exact h.removes ha.1
    · cases hstep

/-- Any number of requests of any users, in any order of their sections and of the clears and the
threads of the sessions: a user has at most one session that is not cleared, the numbers in the list
are different, and every removal removes the session it is given, iff every session is added for a
user who has got no other since the test, under a number that is not in use. -/
theorem oneEach_iff_current (user : R → String) (tr : List (TableAct R × SessionTable R))
    (hr : IsRun (fun s a t => s.step user a = some t) {} tr) :
    (EveryState OneEach {} tr ∧ EveryStep RemovesGiven {} tr) ↔
      EveryStep (fun s a _ => s.Current user a) {} tr := by
  have hiff : EveryState OneEach {} tr ↔ EveryStep (fun s a _ => s.Current user a) {} tr :=
    hr.everyState_iff (fun _ _ _ h hs hc => inv_of_current h hs hc)
      (fun _ _ _ h hs ht => current_of_oneEach h hs ht) (fun _ h => h.toOneEach) inv_new
  constructor
  · exact fun h => hiff.1 h.1
  · intro h
    exact ⟨hiff.2 h,hr.everyStep (fun _ _ _ h hs hc => inv_of_current h hs hc)
      (fun _ _ _ h hs _ => removesGiven_of_inv h hs) inv_new h⟩

/-- The requests 0 and 1 are of one user. -/
def sameUser (_ : ℕ) : String := "u"

/-- The second request comes when the first session is cleared. -/
def beginTwice : List (TableAct ℕ) :=
  [.handle 0 none,.hasSession 0,.timeLeft 0 60,.addSession 0 true,.clear 0,
    .handle 1 none,.hasSession 1,.timeLeft 1 30,.addSession 1 true,.removeSession 0]

theorem beginTwice_oneEach :
    EveryState OneEach {} (runOf (step sameUser) {} beginTwice) ∧
      EveryStep RemovesGiven {} (runOf (step sameUser) {} beginTwice) := by
  refine (oneEach_iff_current sameUser _ (isRun_runOf (step sameUser) {} beginTwice)).2 ?_
  refine ⟨trivial,trivial,trivial,⟨?_,?_⟩,trivial,trivial,trivial,trivial,?_⟩
  · exact fun _ _ n hn => absurd hn List.not_mem_nil
  · exact fun n hn => absurd hn List.not_mem_nil
  refine ⟨⟨fun made hm n hn hle => ?_,fun n hn => ?_⟩,trivial,trivial⟩
  · have hn0 : n = 0 := List.mem_singleton.mp hn
    have hmade : made = 1 := by
      have hp : BeginPlace.reserved 1 = .reserved made := hm
      cases hp
      rfl
    omega
  · have hn0 : n = 0 := List.mem_singleton.mp hn
    subst hn0
    decide

/-- Both requests are told that there is no session. -/
theorem tests_together :
    ¬ ∀ (user : ℕ → String) (tr : List (TableAct ℕ × SessionTable ℕ)),
      IsRun (fun s a t => s.step user a = some t) {} tr →
        EveryState OneEach {} tr ∧ EveryStep RemovesGiven {} tr := by
  intro h
  have hlast := (h sameUser _ (isRun_runOf (step sameUser) {}
    [.handle 0 none,.handle 1 none,.hasSession 0,.hasSession 1,.timeLeft 0 60,.timeLeft 1 60,
      .addSession 0 true,.addSession 1 true])).1.last
  exact absurd (hlast.one 0 (by decide +kernel) 1 (by decide +kernel) (by decide +kernel)
    (by decide +kernel) (by decide +kernel)) (by decide)

end SessionTable

end OnlDaemons.Crd

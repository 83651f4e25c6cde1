import OnlDaemons.Lib.Run
import Mathlib.Data.Set.Card
import Mathlib.Logic.Function.Basic

/-!
# The ssh locks of nmd

Every switch has a lock that counts the ssh sessions on it. `start_ssh` waits for room for five minutes
at most and says whether it found any; `finish_ssh` counts down. `send_command` does not look at
what `start_ssh` says.

## Main definitions

- `SshLocks` — the counters and where the threads are
- `SshLocks.step` — one section under the lock of a switch, or a return
- `Counts` — the counters are the numbers of open sessions

## Main results

- `counts_iff` — the runs in which the counters stay exact
-/

namespace OnlDaemons.Nmd
open OnlDaemons.Lib

/-- The functions that start a session: `initialize_switch` and the like return if there is no room. -/
inductive SshCaller
  | sendCommand
  | initializeSwitch
deriving DecidableEq, Repr

/-- `waiting`: in the loop of `start_ssh`, with the rounds that are left. `running`: between the two
calls, with what `start_ssh` has returned. -/
inductive SshPlace
  | idle
  | waiting (caller : SshCaller) (switchId : String) (left : ℕ)
  | running (switchId : String) (started : Bool)
deriving DecidableEq, Repr

def maxOutstanding : ℤ := 10
def startRounds : ℕ := 300

/-- `outstanding` of the lock of each switch, and the threads. -/
structure SshLocks (T : Type*) where
  outstanding : String → ℤ
  place : T → SshPlace

inductive SshAct (T : Type*)
  | start (t : T) (caller : SshCaller) (switchId : String)
  | retry (t : T)
  | timeout (t : T)
  | finish (t : T)

namespace SshLocks

variable {T : Type*} [DecidableEq T]

/-- All counters are zero and no thread has begun. -/
def init : SshLocks T where
  outstanding _ := 0
  place _ := .idle

def goto (s : SshLocks T) (t : T) (p : SshPlace) : SshLocks T :=
  { s with place := Function.update s.place t p }

/-- What `start_ssh` does if there is room. -/
def enter (s : SshLocks T) (t : T) (switchId : String) : SshLocks T where
  outstanding := Function.update s.outstanding switchId (s.outstanding switchId + 1)
  place := Function.update s.place t (.running switchId true)

/-- `switch_ssh_lock::finish_ssh`. -/
def finishSsh (s : SshLocks T) (switchId : String) : SshLocks T :=
  let outstanding := s.outstanding switchId - 1
  { s with outstanding :=
      Function.update s.outstanding switchId (if outstanding < 0 then 0 else outstanding) }

def step (s : SshLocks T) : SshAct T → Option (SshLocks T)
  | .start t caller switchId =>
    match s.place t with
    | .idle =>
      if s.outstanding switchId < maxOutstanding then some (s.enter t switchId)
      else some (s.goto t (.waiting caller switchId startRounds))
    | _ => none
  | .retry t =>
    match s.place t with
    | .waiting caller switchId (left + 1) =>
      if s.outstanding switchId < maxOutstanding then some (s.enter t switchId)
      else some (s.goto t (.waiting caller switchId left))
    | _ => none
  | .timeout t =>
    match s.place t with
    -- `send_command` goes on all the same
    | .waiting .sendCommand switchId 0 => some (s.goto t (.running switchId false))
    | .waiting .initializeSwitch _ 0 => some (s.goto t .idle)
    | _ => none
  | .finish t =>
    match s.place t with
    | .running switchId _ => some ((s.finishSsh switchId).goto t .idle)
    | _ => none

/-- The threads between a successful start and its finish. -/
def sessions (s : SshLocks T) (switchId : String) : Set T :=
  {t | s.place t = .running switchId true}

/-- Every counter is the number of sessions of its switch, not below zero and not above the maximum. -/
def Counts (s : SshLocks T) : Prop :=
  ∀ switchId, 0 ≤ s.outstanding switchId ∧ s.outstanding switchId ≤ maxOutstanding ∧
    (s.sessions switchId).encard = (s.outstanding switchId).toNat

/-- A thread whose `start_ssh` has failed does not finish while its counter is positive. -/
def Spares (s : SshLocks T) (a : SshAct T) (_ : SshLocks T) : Prop :=
  ∀ t switchId, a = .finish t → s.place t = .running switchId false → s.outstanding switchId = 0

variable {s s' : SshLocks T} {t : T} {p : SshPlace} {i j : String}

/-- A thread that goes where no session is, from where none was. -/
theorem sessions_goto (hp : p ≠ .running i true) (ht : s.place t ≠ .running i true) :
    (s.goto t p).sessions i = s.sessions i := by
  ext t'
  show Function.update s.place t p t' = _ ↔ s.place t' = _
  by_cases h : t' = t
  · subst h
    rw [Function.update_self]
    exact iff_of_false hp ht
  · rw [Function.update_of_ne h]

theorem sessions_enter (s : SshLocks T) (t : T) (i : String) :
    (s.enter t i).sessions i = insert t (s.sessions i) := by
  ext t'
  show Function.update s.place t _ t' = _ ↔ t' = t ∨ s.place t' = _
  by_cases h : t' = t
  · subst h
    simp
  · simp [h]

theorem sessions_leave (s : SshLocks T) (t : T) (i : String) :
    (s.goto t .idle).sessions i = s.sessions i \ {t} := by
  ext t'
  show Function.update s.place t _ t' = _ ↔ s.place t' = _ ∧ t' ≠ t
  by_cases h : t' = t
  · subst h
    simp
  · simp [h]

/-- A thread that was outside all sessions gets one. -/
theorem Counts.enter (h : s.Counts) (ht : ∀ i, s.place t ≠ .running i true)
    (hroom : s.outstanding i < maxOutstanding) : (s.enter t i).Counts := by
  intro j
  by_cases hj : j = i
  · subst hj
    obtain ⟨h0,-,hc⟩ := h j
    have hout : (s.enter t j).outstanding j = s.outstanding j + 1 := Function.update_self ..
    rw [hout,sessions_enter,Set.encard_insert_of_notMem (show t ∉ s.sessions j from ht j),hc]
    refine ⟨by omega,by omega,?_⟩
    rw [Int.toNat_add h0 (by omega)]
    simp
  · have hout : (s.enter t i).outstanding j = s.outstanding j := Function.update_of_ne hj ..
    have hs : (s.enter t i).sessions j = s.sessions j :=
      sessions_goto (s := s) (by simpa using fun h => hj h.symm) (ht j)
    rw [hout,hs]
    exact h j

/-- A thread that moves outside of sessions changes nothing. -/
theorem Counts.goto (h : s.Counts) (hp : ∀ i, p ≠ .running i true)
    (ht : ∀ i, s.place t ≠ .running i true) : (s.goto t p).Counts := by
  intro j
  rw [sessions_goto (hp j) (ht j)]
  exact h j

/-- A thread that ends its own session counts down by one. -/
theorem Counts.finish (h : s.Counts) (ht : s.place t = .running i true) :
    ((s.finishSsh i).goto t .idle).Counts := by
  have hmem : t ∈ s.sessions i := ht
  intro j
  by_cases hj : j = i
  · subst hj
    obtain ⟨h0,hmax,hc⟩ := h j
    have hone := Set.encard_sdiff_singleton_add_one hmem
    have hpos : 0 < s.outstanding j := by
      by_contra hno
      have hz : (s.outstanding j).toNat = 0 := by omega
      rw [hz,Nat.cast_zero,Set.encard_eq_zero] at hc
      exact absurd (hc ▸ hmem) (Set.notMem_empty t)
    have hout : ((s.finishSsh j).goto t .idle).outstanding j = s.outstanding j - 1 := by
      show Function.update s.outstanding j _ j = _
      rw [Function.update_self,if_neg (by omega)]
    rw [hout,sessions_leave]
    refine ⟨by omega,by omega,?_⟩
    show (s.sessions j \ {t}).encard = _
    have hnat : (s.outstanding j).toNat = (s.outstanding j - 1).toNat + 1 := by omega
    rw [hc,hnat,Nat.cast_add,Nat.cast_one] at hone
    exact (ENat.add_left_injective_of_ne_top ENat.one_ne_top) hone
  · have hout : ((s.finishSsh i).goto t .idle).outstanding j = s.outstanding j :=
      Function.update_of_ne hj ..
    have hs : ((s.finishSsh i).goto t .idle).sessions j = s.sessions j :=
      sessions_goto (s := s.finishSsh i) (by simp)
        (by show s.place t ≠ _; rw [ht]; simpa using fun h => hj h.symm)
    rw [hout,hs]
    exact h j

/-- A thread without a session that finishes one takes it from the counter, unless that is zero. -/
theorem counts_finish_refused (h : s.Counts) (ht : s.place t = .running i false) :
    ((s.finishSsh i).goto t .idle).Counts ↔ s.outstanding i = 0 := by
  have hs : ∀ j, ((s.finishSsh i).goto t .idle).sessions j = s.sessions j := fun j =>
    sessions_goto (s := s.finishSsh i) (by simp) (by show s.place t ≠ _; rw [ht]; simp)
  obtain ⟨h0,hmax,hc⟩ := h i
  constructor
  · intro h'
    by_contra hne
    have hout : ((s.finishSsh i).goto t .idle).outstanding i = s.outstanding i - 1 := by
      show Function.update s.outstanding i _ i = _
      rw [Function.update_self,if_neg (by omega)]
    obtain ⟨-,-,hc'⟩ := h' i
    rw [hs,hc,hout,Nat.cast_inj] at hc'
    omega
  · intro hz j
    have hout : ((s.finishSsh i).goto t .idle).outstanding j = s.outstanding j := by
      show Function.update s.outstanding i _ j = _
      by_cases hj : j = i
      · subst hj
        rw [Function.update_self,if_pos (by omega),hz]
      · rw [Function.update_of_ne hj]
    rw [hs,hout]
    exact h j

/-- A thread that looks for room gets a session, or waits. -/
theorem Counts.tryEnter {caller : SshCaller} {left : ℕ} (h : s.Counts) (ht : ∀ i, s.place t ≠ .running i true)
    (hs : (if s.outstanding i < maxOutstanding then some (s.enter t i)
      else some (s.goto t (.waiting caller i left))) = some s') : s'.Counts := by
  split at hs
  · next hroom =>
    cases hs
    exact h.enter ht hroom
  · cases hs
    exact h.goto (fun _ => by simp) ht

/-- One section of one thread. -/
theorem Counts.step {a : SshAct T} (h : s.Counts) (hs : s.step a = some s') :
    s'.Counts ↔ s.Spares a s' := by
  cases a with
  | start t caller i =>
    refine iff_of_true ?_ fun _ _ h => nomatch h
    simp only [SshLocks.step] at hs
    split at hs
    · next hp => exact h.tryEnter (fun i => by rw [hp]; simp) hs
    · cases hs
  | retry t =>
    refine iff_of_true ?_ fun _ _ h => nomatch h
    simp only [SshLocks.step] at hs
    split at hs
    · next hp => exact h.tryEnter (fun i => by rw [hp]; simp) hs
    · cases hs
  | timeout t =>
    refine iff_of_true ?_ fun _ _ h => nomatch h
    simp only [SshLocks.step] at hs
    split at hs
    · next hp =>
      cases hs
      exact h.goto (fun _ => by simp) fun i => by rw [hp]; simp
    · next hp =>
      cases hs
      exact h.goto (fun _ => by simp) fun i => by rw [hp]; simp
    · cases hs
  | finish t =>
    simp only [SshLocks.step] at hs
    split at hs
    · next i started hp =>
      cases hs
      cases started with
      | true =>
        refine iff_of_true (h.finish hp) ?_
        rintro t' j ⟨⟩ hp'
        exact absurd (hp.symm.trans hp') (by simp)
      | false =>
        rw [counts_finish_refused h hp]
        constructor
        · rintro hz t' j ⟨⟩ hp'
          cases hp.symm.trans hp'
          exact hz
        · exact fun hsp => hsp t i rfl hp
    · cases hs

omit [DecidableEq T] in
theorem counts_init : (init : SshLocks T).Counts := by
  intro i
  have hs : (init : SshLocks T).sessions i = ∅ := by
    ext t
    exact iff_of_false (by simp [sessions,init]) (Set.notMem_empty t)
  rw [hs]
  refine ⟨le_rfl,?_,by simp [init]⟩
  show (0 : ℤ) ≤ 10
  decide

/-- The counters are the numbers of open sessions throughout a run exactly if no thread whose
`start_ssh` has timed out finishes while the counter is positive. -/
theorem counts_iff {tr : List (SshAct T × SshLocks T)}
    (hr : IsRun (fun s a s' => step s a = some s') init tr) :
    EveryState Counts init tr ↔ EveryStep Spares init tr :=
  hr.everyState_iff (fun _ _ _ h hs hc => (h.step hs).mpr hc)
    (fun _ _ _ h hs h' => (h.step hs).mp h') (fun _ h => h) counts_init

/-- One command is sent. -/
theorem counts_one_command :
    EveryState Counts (init : SshLocks ℕ)
      (runOf step init [.start 0 .sendCommand "arista1", .finish 0]) := by
  refine (counts_iff (isRun_runOf _ _ _)).mpr ⟨fun _ _ h => (nomatch h),?_,trivial⟩
  rintro t i ⟨⟩ hp
  exact absurd hp (by simp [enter])

/-- A thread goes through all the rounds that it has left. -/
theorem exists_retries {caller : SshCaller} {left : ℕ} (hp : s.place t = .waiting caller i left)
    (hfull : ¬s.outstanding i < maxOutstanding) :
    ∃ tr, IsRun (fun s a s' => step s a = some s') s tr ∧
      (lastState s tr).outstanding = s.outstanding ∧
      (lastState s tr).place t = .waiting caller i 0 := by
  induction left generalizing s with
  | zero => exact ⟨[],trivial,rfl,hp⟩
  | succ left ih =>
    have hstep : s.step (.retry t) = some (s.goto t (.waiting caller i left)) := by
      simp only [SshLocks.step,hp,if_neg hfull]
    have hgoto : (s.goto t (.waiting caller i left)).place t = .waiting caller i left :=
      Function.update_self ..
    obtain ⟨tr,hr,hout,hplace⟩ := ih hgoto hfull
    exact ⟨(.retry t,_) :: tr,⟨hstep,hr⟩,hout,hplace⟩

/-- Ten commands are being sent to a switch. The eleventh times out and finishes all the same. -/
theorem counts_broken : ∃ tr, IsRun (fun s a s' => step s a = some s') (init : SshLocks ℕ) tr ∧
    ¬EveryState Counts init tr := by
  let ten := runOf step (init : SshLocks ℕ)
    ((List.range 11).map fun t => .start t .sendCommand "arista1")
  have hten : IsRun (fun s a s' => step s a = some s') init ten := isRun_runOf _ _ _
  have hout : (lastState init ten).outstanding "arista1" = 10 := by decide +kernel
  have hplace : (lastState init ten).place 10 = .waiting .sendCommand "arista1" startRounds := by
    decide +kernel
  obtain ⟨wait,hwait,hout',hplace'⟩ := exists_retries hplace (by rw [hout]; decide)
  let s := lastState (lastState init ten) wait
  have htimeout : s.step (.timeout 10) = some (s.goto 10 (.running "arista1" false)) := by
    simp only [SshLocks.step,s,hplace']
  have hrun : (s.goto 10 (.running "arista1" false)).place 10 = .running "arista1" false := by
    simp [goto]
  have hfinish : (s.goto 10 (.running "arista1" false)).step (.finish 10) =
      some (((s.goto 10 (.running "arista1" false)).finishSsh "arista1").goto 10 .idle) := by
    simp only [SshLocks.step,hrun]
  refine ⟨ten ++ (wait ++ [(.timeout 10,_), (.finish 10,_)]),
    hten.append (hwait.append ⟨htimeout,hfinish,trivial⟩),fun h => ?_⟩
  obtain ⟨-,hbefore,hafter⟩ := h.of_append.of_append
  have hzero := (counts_finish_refused hbefore hrun).mp hafter
  have hten' : (s.goto 10 (.running "arista1" false)).outstanding "arista1" = 10 :=
    (congrFun hout' "arista1").trans hout
  rw [hten'] at hzero
  cases hzero

end SshLocks

end OnlDaemons.Nmd

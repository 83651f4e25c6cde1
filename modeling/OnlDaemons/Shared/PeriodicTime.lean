import OnlDaemons.Lib.Run
import OnlDaemons.Shared.Message

/-!
# The schedule of periodic messages

The periodic loop of a connection adds the period to the time the last message was due, with `timespec_add`, and sleeps
for what `timespec_diff` leaves until then. Seconds and nanoseconds are integers here, and the seconds have no bound.

## Main definitions

- `timespecAdd`, `timespecDiff` — the two functions, with the carry and the borrow between their fields
- `PeriodicLoop.pass` — one pass of the loop, from what the clock and `nanosleep` give

## Main results

- `timespecDiff_spec` — the difference is exact also when the first time is the earlier one
- `schedule_exact`
-/

namespace OnlDaemons.Shared
open OnlDaemons.Lib

structure Timespec where
  tv_sec : ℤ
  tv_nsec : ℤ
deriving DecidableEq, Repr

namespace Timespec

def Normalised (t : Timespec) : Prop := 0 ≤ t.tv_nsec ∧ t.tv_nsec < 1000000000

instance (t : Timespec) : Decidable t.Normalised := inferInstanceAs (Decidable (_ ∧ _))

/-- The time in nanoseconds. -/
def nanos (t : Timespec) : ℤ := t.tv_sec * 1000000000 + t.tv_nsec

theorem nanos_injective {a b : Timespec} (ha : a.Normalised) (hb : b.Normalised) (h : a.nanos = b.nanos) : a = b := by
  obtain ⟨as, an⟩ := a
  obtain ⟨bs, bn⟩ := b
  simp only [Normalised, nanos] at ha hb h
  have hs : as = bs := by omega
  have hn : an = bn := by omega
  rw [hs, hn]

end Timespec

/-- `result = t1 + t2` -/
def timespecAdd (t1 t2 : Timespec) : Timespec :=
  let tv_sec := t1.tv_sec + t2.tv_sec
  let tv_nsec := t1.tv_nsec + t2.tv_nsec
  if tv_nsec ≥ 1000000000 then ⟨tv_sec + 1, tv_nsec - 1000000000⟩ else ⟨tv_sec, tv_nsec⟩

/-- `result = t1 - t2`, with the value returned: false if `t1 < t2`. -/
def timespecDiff (t1 t2 : Timespec) : Timespec × Bool :=
  if t1.tv_sec = t2.tv_sec then
    let tv_nsec := t1.tv_nsec - t2.tv_nsec
    if tv_nsec < 0 then (⟨0 - 1, 1000000000 + tv_nsec⟩, false) else (⟨0, tv_nsec⟩, true)
  else if t1.tv_sec < t2.tv_sec then
    let tv_sec := t1.tv_sec - t2.tv_sec + 1
    let tv_nsec := -1 * (1000000000 - t1.tv_nsec + t2.tv_nsec)
    let result : Timespec :=
      if tv_nsec ≤ -1000000000 then ⟨tv_sec - 1, tv_nsec + 1000000000⟩ else ⟨tv_sec, tv_nsec⟩
    if result.tv_nsec < 0 then (⟨result.tv_sec - 1, 1000000000 + result.tv_nsec⟩, false) else (result, false)
  else
    let tv_sec := t1.tv_sec - t2.tv_sec - 1
    let tv_nsec := t1.tv_nsec + 1000000000 - t2.tv_nsec
    if tv_nsec ≥ 1000000000 then (⟨tv_sec + 1, tv_nsec - 1000000000⟩, true) else (⟨tv_sec, tv_nsec⟩, true)

/-- The sum is exact for all times, normalised or not. -/
theorem nanos_timespecAdd (t1 t2 : Timespec) : (timespecAdd t1 t2).nanos = t1.nanos + t2.nanos := by
  simp only [timespecAdd]
  split
  · simp only [Timespec.nanos]
    omega
  · simp only [Timespec.nanos]
    omega

theorem normalised_timespecAdd {t1 t2 : Timespec} (h1 : t1.Normalised) (h2 : t2.Normalised) :
    (timespecAdd t1 t2).Normalised := by
  obtain ⟨l1, u1⟩ := h1
  obtain ⟨l2, u2⟩ := h2
  simp only [timespecAdd]
  split
  · constructor
    · change 0 ≤ t1.tv_nsec + t2.tv_nsec - 1000000000
      omega
    · change t1.tv_nsec + t2.tv_nsec - 1000000000 < 1000000000
      omega
  · constructor
    · change 0 ≤ t1.tv_nsec + t2.tv_nsec
      omega
    · change t1.tv_nsec + t2.tv_nsec < 1000000000
      omega

/-- In each of the three branches the result is the exact difference, and the value returned says its sign. -/
theorem timespecDiff_spec {t1 t2 : Timespec} (h1 : t1.Normalised) (h2 : t2.Normalised) :
    (timespecDiff t1 t2).1.Normalised ∧ (timespecDiff t1 t2).1.nanos = t1.nanos - t2.nanos ∧
      ((timespecDiff t1 t2).2 = true ↔ t2.nanos ≤ t1.nanos) := by
  obtain ⟨l1, u1⟩ := h1
  obtain ⟨l2, u2⟩ := h2
  by_cases heq : t1.tv_sec = t2.tv_sec
  · -- the seconds cancel, a borrow makes the result negative
    simp only [timespecDiff, if_pos heq, Timespec.Normalised, Timespec.nanos]
    split
    · refine ⟨⟨?_, ?_⟩, ?_, ?_⟩ <;> simp <;> omega
    · refine ⟨⟨?_, ?_⟩, ?_, ?_⟩ <;> simp <;> omega
  by_cases hlt : t1.tv_sec < t2.tv_sec
  · simp only [timespecDiff, if_neg heq, if_pos hlt, Timespec.Normalised, Timespec.nanos]
    split
    · split
      · refine ⟨⟨?_, ?_⟩, ?_, ?_⟩ <;> simp at * <;> omega
      · refine ⟨⟨?_, ?_⟩, ?_, ?_⟩ <;> simp at * <;> omega
    · split
      · refine ⟨⟨?_, ?_⟩, ?_, ?_⟩ <;> simp at * <;> omega
      · refine ⟨⟨?_, ?_⟩, ?_, ?_⟩ <;> simp at * <;> omega
  · simp only [timespecDiff, if_neg heq, if_neg hlt, Timespec.Normalised, Timespec.nanos]
    split
    · refine ⟨⟨?_, ?_⟩, ?_, ?_⟩ <;> simp <;> omega
    · refine ⟨⟨?_, ?_⟩, ?_, ?_⟩ <;> simp <;> omega

/-! ### The loop -/

/-- `get_period` -/
def Request.getPeriod (req : Request) : Timespec where
  tv_sec := req.period.tv_sec.toNat
  tv_nsec := req.period.tv_usec.toNat * 1000

theorem Request.normalised_getPeriod {req : Request} (h : req.period.tv_usec.toNat < 1000000) :
    req.getPeriod.Normalised := by
  constructor
  · change (0 : ℤ) ≤ req.period.tv_usec.toNat * 1000
    omega
  · change (req.period.tv_usec.toNat : ℤ) * 1000 < 1000000000
    omega

/-- What one pass of the loop meets: two readings of the clock, before and after the message is handled, the times left
when a signal ends the sleep, and whether `nanosleep` fails for another reason. -/
structure Pass where
  cur_time : Timespec
  handled : Timespec
  remaining : List Timespec := []
  failed : Bool := false
deriving DecidableEq, Repr

structure PeriodicLoop where
  first : Bool := true
  last_fire_time : Timespec := ⟨0, 0⟩
  next_fire_time : Timespec := ⟨0, 0⟩
  /-- The sleeps the pass asked for. -/
  sleeps : List Timespec := []
  /-- `nanosleep` failed and the loop is left. -/
  left : Bool := false
deriving DecidableEq, Repr

namespace PeriodicLoop

/-- The deadline of the pass: the first one counts from the clock, the others from the deadline before. -/
def nextFireTime (req : Request) (s : PeriodicLoop) (p : Pass) : Timespec :=
  if s.first then timespecAdd p.cur_time req.getPeriod else timespecAdd s.last_fire_time req.getPeriod

/-- One pass; the loop may stop before any of them, when the request is stopped. -/
def pass (req : Request) (s : PeriodicLoop) (p : Pass) : Option PeriodicLoop :=
  if s.left then none
  else
    let next_fire_time := nextFireTime req s p
    let s : PeriodicLoop := { s with first := false, last_fire_time := next_fire_time, next_fire_time }
    let (sleep_time, ahead) := timespecDiff next_fire_time p.handled
    -- too late already: the next message at once
    if ahead = false then some { s with sleeps := [] }
    else some { s with sleeps := sleep_time :: p.remaining, left := p.failed }

def step (req : Request) (s : PeriodicLoop) (p : Pass) (t : PeriodicLoop) : Prop := s.pass req p = some t

variable {req : Request} {s t : PeriodicLoop} {p : Pass}

/-- All that a pass does: it sets the deadline, and then sleeps for what is left until it. -/
theorem step_cases (h : step req s p t) :
    t.first = false ∧ t.last_fire_time = t.next_fire_time ∧
      t.next_fire_time = nextFireTime req s p ∧
      (t.sleeps = [] ∧ (timespecDiff t.next_fire_time p.handled).2 = false ∨
        t.sleeps = (timespecDiff t.next_fire_time p.handled).1 :: p.remaining ∧
          (timespecDiff t.next_fire_time p.handled).2 = true) := by
  simp only [step, pass] at h
  split at h
  · cases h
  split at h
  · next hlate =>
    obtain rfl := Option.some.inj h
    exact ⟨rfl, rfl, rfl, .inl ⟨rfl, hlate⟩⟩
  · next hahead =>
    obtain rfl := Option.some.inj h
    exact ⟨rfl, rfl, rfl, .inr ⟨rfl, by simpa using hahead⟩⟩

/-- A later pass is due one period after the one before it, whatever the clock says. -/
theorem nanos_later (h : step req s p t) (hs : s.first = false) :
    t.last_fire_time.nanos = s.last_fire_time.nanos + req.getPeriod.nanos := by
  obtain ⟨-, hlast, hnext, -⟩ := step_cases h
  rw [hlast, hnext, nextFireTime, hs, if_neg Bool.false_ne_true, nanos_timespecAdd]

theorem nanos_first (h : step req s p t) (hs : s.first = true) :
    t.last_fire_time.nanos = p.cur_time.nanos + req.getPeriod.nanos := by
  obtain ⟨-, hlast, hnext, -⟩ := step_cases h
  rw [hlast, hnext, nextFireTime, if_pos hs, nanos_timespecAdd]

/-- The deadlines after the first pass. -/
theorem nanos_deadline {tr : List (Pass × PeriodicLoop)} (hr : IsRun (step req) s tr) (hs : s.first = false)
    {n : ℕ} {x : Pass × PeriodicLoop} (hx : tr[n]? = some x) :
    x.2.next_fire_time.nanos = s.last_fire_time.nanos + (n + 1) * req.getPeriod.nanos := by
  induction tr generalizing s n with
  | nil => simp at hx
  | cons y tr ih =>
    have hlater := nanos_later hr.1 hs
    obtain ⟨hfirst, hlast, -, -⟩ := step_cases hr.1
    cases n with
    | zero =>
      obtain rfl : y = x := by simpa using hx
      rw [← hlast, hlater]
      ring
    | succ n =>
      rw [ih hr.2 hfirst (by simpa using hx), hlater]
      push_cast
      ring

/-- The deadlines are times as the clock gives them, if the period and the first reading of the clock are. -/
theorem normalised_deadline {tr : List (Pass × PeriodicLoop)} (hperiod : req.getPeriod.Normalised)
    (hr : IsRun (step req) s tr) (hs : s.first = false) (hlast : s.last_fire_time.Normalised) :
    ∀ x ∈ tr, x.2.next_fire_time.Normalised := by
  induction tr generalizing s with
  | nil => simp
  | cons y tr ih =>
    obtain ⟨hfirst, heq, hnext, -⟩ := step_cases hr.1
    have hy : y.2.next_fire_time.Normalised := by
      rw [hnext, nextFireTime, hs, if_neg Bool.false_ne_true]
      exact normalised_timespecAdd hlast hperiod
    intro x hx
    obtain rfl | hx := List.mem_cons.mp hx
    · exact hy
    · exact ih hr.2 hfirst (heq ▸ hy) x hx

/-- The `n`-th deadline of a run: `n` periods after the time of the first pass. -/
def OnSchedule (req : Request) : List (Pass × PeriodicLoop) → Prop
  | [] => True
  | (p, t) :: tr => ∀ (n : ℕ) (x : Pass × PeriodicLoop), ((p, t) :: tr)[n]? = some x →
      x.2.next_fire_time.nanos = p.cur_time.nanos + (n + 1) * req.getPeriod.nanos ∧
        (req.getPeriod.Normalised → p.cur_time.Normalised → x.2.next_fire_time.Normalised)

theorem onSchedule {tr : List (Pass × PeriodicLoop)} (hr : IsRun (step req) {} tr) : OnSchedule req tr := by
  cases tr with
  | nil => trivial
  | cons y tr =>
    have hy := nanos_first hr.1 rfl
    obtain ⟨hfirst, heq, hnext, -⟩ := step_cases hr.1
    have hnorm (hperiod : req.getPeriod.Normalised) (hcur : y.1.cur_time.Normalised) :
        y.2.next_fire_time.Normalised := by
      rw [hnext, nextFireTime, if_pos rfl]
      exact normalised_timespecAdd hcur hperiod
    intro n x hx
    cases n with
    | zero =>
      obtain rfl : y = x := by simpa using hx
      refine ⟨?_, hnorm⟩
      rw [← heq, hy]
      simp
    | succ n =>
      have hx : tr[n]? = some x := by simpa using hx
      refine ⟨?_, fun hperiod hcur => ?_⟩
      · rw [nanos_deadline hr.2 hfirst hx, hy]
        push_cast
        ring
      · exact normalised_deadline hperiod hr.2 hfirst (heq ▸ hnorm hperiod hcur) x (List.mem_of_getElem? hx)

end PeriodicLoop

/-- The sum and the difference are the normalised exact ones, and the deadlines of the loop do not depend on when its
passes come. -/
theorem schedule_exact :
    (∀ t1 t2 : Timespec, t1.Normalised → t2.Normalised →
      (timespecAdd t1 t2).Normalised ∧ (timespecAdd t1 t2).nanos = t1.nanos + t2.nanos) ∧
    (∀ t1 t2 : Timespec, t1.Normalised → t2.Normalised → t2.nanos ≤ t1.nanos →
      (timespecDiff t1 t2).1.Normalised ∧ (timespecDiff t1 t2).1.nanos = t1.nanos - t2.nanos ∧
        (timespecDiff t1 t2).2 = true) ∧
    ∀ (req : Request) (tr : List (Pass × PeriodicLoop)),
      IsRun (PeriodicLoop.step req) {} tr → PeriodicLoop.OnSchedule req tr := by
  refine ⟨fun t1 t2 h1 h2 => ⟨normalised_timespecAdd h1 h2, nanos_timespecAdd t1 t2⟩, fun t1 t2 h1 h2 hle => ?_,
    fun req tr hr => PeriodicLoop.onSchedule hr⟩
  obtain ⟨hn, hexact, hsign⟩ := timespecDiff_spec h1 h2
  exact ⟨hn, hexact, hsign.mpr hle⟩

/-- Every 1.5 s from 10.7 s on. -/
def monitoring : Request where
  type := 0
  version := 1
  op := 0
  rend := Rendezvous.new 0 0
  periodic_message := true
  period := ⟨1, 500000⟩

theorem lateMessage_exact :
    PeriodicLoop.OnSchedule monitoring (runOf (PeriodicLoop.pass monitoring) {}
      [⟨⟨10, 700000000⟩, ⟨14, 700000000⟩, [], false⟩, ⟨⟨14, 700000001⟩, ⟨14, 700000002⟩, [], false⟩]) ∧
    timespecDiff ⟨15, 200000000⟩ ⟨14, 800000000⟩ = (⟨0, 400000000⟩, true) := by
  obtain ⟨-, hdiff, hloop⟩ := schedule_exact
  refine ⟨hloop monitoring _ (isRun_runOf _ _ _), ?_⟩
  obtain ⟨hn, hexact, hsign⟩ := hdiff ⟨15, 200000000⟩ ⟨14, 800000000⟩ (by decide) (by decide) (by decide)
  exact Prod.ext (Timespec.nanos_injective hn (by decide) (hexact.trans (by decide))) hsign

end OnlDaemons.Shared

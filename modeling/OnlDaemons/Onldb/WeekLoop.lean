import OnlDaemons.Onldb.MakeReservation
import Mathlib.Tactic.Ring

/-!
# The loop over the weeks of a range

`make_reservation` and `extend_current_reservation` go through the weeks of a range with
`while(week_start != end_week)`. The times are broken down to local time and back, and `mktime` goes by the flag for
daylight saving time that `localtime` has set.

## Main definitions

- `TimeZone` — `localtime` and `mktime` of a time zone
- `TimeZone.weeks` — the weeks the loop goes through
-/

namespace OnlDaemons.Onldb

/-- `struct tm`. The date is the number of days since the first of January 1970. -/
structure BrokenDown where
  day : ℤ
  hour : ℤ
  min : ℤ
  sec : ℤ
  wday : ℤ
  isdst : Bool
deriving DecidableEq

/-- The offsets are in seconds east of Greenwich. -/
structure TimeZone where
  standard : ℤ
  saving : ℤ
  daylight : ℤ → Bool
  saving_pos : 0 < saving
  saving_lt : saving < secondsPerWeek

namespace TimeZone

variable (z : TimeZone)

def offset (isdst : Bool) : ℤ := if isdst then z.standard + z.saving else z.standard

def localtime (time : ℤ) : BrokenDown :=
  let isdst := z.daylight time
  let seconds := time + z.offset isdst
  { day := seconds / 86400
    hour := seconds % 86400 / 3600
    min := seconds % 3600 / 60
    sec := seconds % 60
    wday := (seconds / 86400 + 4) % 7
    isdst }

/-- Fields out of their range are carried over. -/
def mktime (stm : BrokenDown) : ℤ :=
  stm.day * 86400 + stm.hour * 3600 + stm.min * 60 + stm.sec - z.offset stm.isdst

/-- The previous Monday, where 0 is Sunday. -/
def previousMonday (stm : BrokenDown) : ℤ := if stm.wday = 0 then stm.day - 6 else stm.day - (stm.wday - 1)

def getStartOfWeek (time : ℤ) : ℤ :=
  let stm := z.localtime time
  z.mktime { stm with day := previousMonday stm, hour := 0, min := 0, sec := 0 }

def addTime (time seconds : ℤ) : ℤ :=
  let stm := z.localtime time
  z.mktime { stm with sec := stm.sec + seconds }

/-- The weeks, as long as `week_start` is not `end_week`. There is no result when the rounds do not suffice. -/
def weekLoop (endWeek : ℤ) : ℕ → ℤ → Option (List ℤ)
  | 0, _ => none
  | rounds + 1, weekStart =>
    if weekStart = endWeek then some []
    else (weekLoop endWeek rounds (z.addTime weekStart secondsPerWeek)).map (weekStart :: ·)

def endWeek (last : ℤ) : ℤ := z.addTime (z.getStartOfWeek last) secondsPerWeek

def weeks (rounds : ℕ) (first last : ℤ) : Option (List ℤ) :=
  z.weekLoop (z.endWeek last) rounds (z.getStartOfWeek first)

/-! ### The time zone of the reservations -/

def firstSunday (day : ℤ) : ℤ := day + (3 - day) % 7

/-- The first of March that is not after the day, by the calendar of 400 years. -/
def firstOfMarch (day : ℤ) : ℤ :=
  let d := (day + 719468) % 146097
  let y := (d - d / 1460 + d / 36524 - d / 146096) / 365
  day - (d - (365 * y + y / 4 - y / 100))

/-- From the second Sunday of March to the first one of November, at two o'clock. -/
def centralDaylight (time : ℤ) : Bool :=
  let seconds := time - 6 * 3600
  let march := firstOfMarch (seconds / 86400)
  firstSunday (march + 7) * 86400 + 2 * 3600 ≤ seconds && seconds < firstSunday (march + 245) * 86400 + 3600

/-- `CST6CDT` -/
def central : TimeZone where
  standard := -6 * 3600
  saving := 3600
  daylight := centralDaylight
  saving_pos := by decide
  saving_lt := by decide

/-! ### The weeks that are left out or added -/

/-- The first Monday of the year 1970, at an offset. -/
def monday (isdst : Bool) : ℤ := 4 * 86400 - z.offset isdst

theorem addTime_eq (time seconds : ℤ) : z.addTime time seconds = time + seconds := by
  simp only [addTime, mktime, localtime]
  omega

theorem getStartOfWeek_eq (time : ℤ) :
    z.getStartOfWeek time = Onldb.getStartOfWeek (z.monday (z.daylight time)) time := by
  have hmonday : previousMonday (z.localtime time) =
      (time + z.offset (z.daylight time)) / 86400 - ((time + z.offset (z.daylight time)) / 86400 + 3) % 7 := by
    unfold previousMonday
    split
    all_goals
      next hday =>
      simp only [localtime] at hday ⊢
      omega
  simp only [getStartOfWeek, mktime, hmonday, monday, Onldb.getStartOfWeek, secondsPerWeek_eq]
  simp only [localtime]
  omega

theorem endWeek_eq (last : ℤ) : z.endWeek last = z.getStartOfWeek last + secondsPerWeek := z.addTime_eq _ _

variable {z} {rounds n : ℕ} {weekStart endWeek first last : ℤ} {ws : List ℤ}

/-- The loop comes to its end when the end is a number of weeks away. -/
theorem weekLoop_of_eq (h : weekStart + n * secondsPerWeek = endWeek) :
    z.weekLoop endWeek (n + 1) weekStart =
      some ((List.range n).map fun i : ℕ => Onldb.addTime weekStart ((i : ℤ) * secondsPerWeek)) := by
  induction n generalizing weekStart with
  | zero =>
    have hend : weekStart = endWeek := by simpa using h
    rw [weekLoop, if_pos hend]
    rfl
  | succ n ih =>
    have hne : weekStart ≠ endWeek := by
      rw [secondsPerWeek_eq] at h
      omega
    have hnext : z.addTime weekStart secondsPerWeek + n * secondsPerWeek = endWeek := by
      rw [addTime_eq, ← h]
      push_cast
      ring
    rw [weekLoop, if_neg hne, ih hnext, addTime_eq, List.range_succ_eq_map, List.map_cons, List.map_map,
      Option.map_some]
    congr 2
    · simp [Onldb.addTime]
    · apply List.map_congr_left
      intro i _
      simp only [Function.comp_apply, Onldb.addTime]
      push_cast
      ring

theorem eq_of_weekLoop (h : z.weekLoop endWeek rounds weekStart = some ws) :
    weekStart + ws.length * secondsPerWeek = endWeek := by
  induction rounds generalizing weekStart ws with
  | zero => cases h
  | succ rounds ih =>
    rw [weekLoop] at h
    split at h
    · next hend =>
      cases h
      simpa using hend
    · obtain ⟨rest, hrest, rfl⟩ := Option.map_eq_some_iff.mp h
      have hweeks := ih hrest
      rw [addTime_eq] at hweeks
      rw [← hweeks, List.length_cons]
      push_cast
      ring

theorem weeksOf_eq (clock : Clock) (tr : TimeRange) : weeksOf clock tr =
    (List.range (weekCount clock.monday tr)).map fun i : ℕ =>
      Onldb.addTime (Onldb.getStartOfWeek clock.monday tr.b1) ((i : ℤ) * secondsPerWeek) := by
  simp only [weeksOf, List.pure_def, List.bind_eq_flatMap, ← List.map_eq_flatMap, List.map_map]
  rfl

/-- With one offset at both ends the loop goes through the weeks that the policy is checked for. -/
theorem weeks_eq_weeksOf {clock : Clock} {tr : TimeRange} (h : tr.b1 ≤ tr.e2)
    (hclock : clock.monday = z.monday (z.daylight tr.b1)) (hd : z.daylight tr.b1 = z.daylight tr.e2) :
    z.weeks (weekCount clock.monday tr + 1) tr.b1 tr.e2 = some (weeksOf clock tr) := by
  have hstart : z.getStartOfWeek tr.b1 = Onldb.getStartOfWeek clock.monday tr.b1 := by
    rw [getStartOfWeek_eq, hclock]
  have hend : z.endWeek tr.e2 = Onldb.getStartOfWeek clock.monday tr.e2 + secondsPerWeek := by
    rw [endWeek_eq, getStartOfWeek_eq, hclock, hd]
  rw [weeks, hstart, hend, weeksOf_eq]
  exact weekLoop_of_eq (weekCount_eq h)

/-- A range in January 2026, with five weeks. -/
theorem weeks_january : central.weeks 6 1767225600 1769904000 =
    some (weeksOf ⟨central.monday false, fun _ => ""⟩ ⟨1767225600, 1767225600, 1769904000, 1769904000⟩) :=
  @weeks_eq_weeksOf central ⟨central.monday false, fun _ => ""⟩ ⟨1767225600, 1767225600, 1769904000, 1769904000⟩
    (by decide) (by decide) (by decide)

/-- Between the starts of two weeks are whole weeks only if both were found with one offset. -/
theorem daylight_eq_of_weeks (h : z.getStartOfWeek first + n * secondsPerWeek = z.endWeek last) :
    z.daylight first = z.daylight last := by
  rw [endWeek_eq, getStartOfWeek_eq, getStartOfWeek_eq] at h
  simp only [Onldb.getStartOfWeek, monday] at h
  have hpos := z.saving_pos
  have hlt := z.saving_lt
  rw [secondsPerWeek_eq] at h hlt
  cases hf : z.daylight first <;> cases hl : z.daylight last <;> rw [hf, hl] at h <;>
    simp [offset] at h ⊢ <;> omega

/-- The loop ends after as many steps as there are weeks between the two times if and only if daylight saving time
is in effect at both ends of the range or at neither. -/
theorem weeks_ends_iff (z : TimeZone) (h : first ≤ last) :
    (∃ rounds ws, z.weeks rounds first last = some ws ∧
      ws.length * secondsPerWeek = z.endWeek last - z.getStartOfWeek first) ↔
      z.daylight first = z.daylight last := by
  constructor
  · rintro ⟨rounds, ws, hws, -⟩
    exact daylight_eq_of_weeks (eq_of_weekLoop hws)
  · intro hd
    have hstart : z.getStartOfWeek first = Onldb.getStartOfWeek (z.monday (z.daylight first)) first :=
      z.getStartOfWeek_eq first
    have hend : z.endWeek last = Onldb.getStartOfWeek (z.monday (z.daylight first)) last + secondsPerWeek := by
      rw [endWeek_eq, getStartOfWeek_eq, hd]
    have hcount := @weekCount_eq (z.monday (z.daylight first)) ⟨first, first, last, last⟩ h
    dsimp only at hcount
    rw [← hstart, ← hend] at hcount
    refine ⟨_, _, weekLoop_of_eq hcount, ?_⟩
    rw [List.length_map, List.length_range, ← hcount]
    ring

/-- A range in January 2026. -/
theorem weeks_ends_january :
    1767225600 ≤ 1769904000 ∧
      ((∃ rounds ws, central.weeks rounds 1767225600 1769904000 = some ws ∧ ws.length * secondsPerWeek =
        central.endWeek 1769904000 - central.getStartOfWeek 1767225600) ↔
        central.daylight 1767225600 = central.daylight 1769904000) :=
  ⟨by decide, weeks_ends_iff central (by decide)⟩

/-- A range over the eighth of March 2026. -/
theorem weeks_never_end : ¬∀ first last : ℤ, first ≤ last → ∃ rounds ws, central.weeks rounds first last = some ws ∧
    ws.length * secondsPerWeek = central.endWeek last - central.getStartOfWeek first := by
  intro h
  obtain ⟨rounds, ws, hws, -⟩ := h 1772906400 1773075600 (by decide)
  have hd := daylight_eq_of_weeks (eq_of_weekLoop hws)
  exact absurd hd (by decide)

end TimeZone

end OnlDaemons.Onldb

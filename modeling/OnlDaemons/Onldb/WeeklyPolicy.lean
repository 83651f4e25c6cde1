import OnlDaemons.Onldb.TimeRange

/-!
# The weekly usage policy

For every resource type of a request, `make_reservation` goes through the weeks a start range
reaches and cuts out the start times at which the user or the group would use the type for
longer than its policy allows in one week. In a week over the limit it keeps the sessions that
end within the slack from the beginning of the week, and moves the left edge of the range to
where the slack from the end of the week begins. The slack is not divided by the number of
nodes of the type.

Local times are taken to be a fixed number of whole minutes off UTC: `monday` is the beginning
of some week.

## Main definitions

- `checkWeek`, `checkWeeks`, `checkType`, `weeklyPolicy` — the loops of `make_reservation`
- `WithinLimits` — a start time keeps to the limits of a type in every week
- `Adjusted` — no week of the walk takes one of the branches that lose track of the usage
-/

namespace OnlDaemons.Onldb

def secondsPerWeek : ℤ := 60 * 60 * 24 * 7

def getStartOfWeek (monday time : ℤ) : ℤ :=
  monday + (time - monday) / secondsPerWeek * secondsPerWeek

/-- An entry of `type_list`, with its row of the type policy, in hours, and the reservations
of the type its queries find for the user and for the group. -/
structure TypeInfo where
  num : ℕ
  usermaxusage : ℕ
  grpmaxusage : ℕ
  userReservations : List Restime
  grpReservations : List Restime

/-- The seconds of the week the reservations use. -/
def weekUsage (reservations : List Restime) (weekStart : ℤ) : ℤ :=
  let thisWeekEnd := addTime weekStart secondsPerWeek
  let rts := reservations.filter (fun r => r.rb < thisWeekEnd ∧ r.re > weekStart)
  (rts.map (fun r =>
    let rb := if r.rb < weekStart then weekStart else r.rb
    let re := if r.re > thisWeekEnd then thisWeekEnd else r.re
    re - rb)).sum

/-- The longest a session of the range can be in the week, in minutes. -/
def maxWeekLength (len : ℤ) (tr : TimeRange) (weekStart : ℤ) : ℤ :=
  let thisWeekEnd := addTime weekStart secondsPerWeek
  if tr.b1 < weekStart ∧ tr.e2 > thisWeekEnd then min len (7 * 24 * 60)
  else if tr.b1 < weekStart then min len ((tr.e2 - weekStart) / 60)
  else if tr.e2 > thisWeekEnd then min len ((thisWeekEnd - tr.b1) / 60)
  else len

/-- The test for a week over the limit of the user or the group. -/
def OverLimit (ty : TypeInfo) (len : ℤ) (tr : TimeRange) (weekStart : ℤ) : Prop :=
  let maxLength := maxWeekLength len tr weekStart
  weekUsage ty.userReservations weekStart / 60 + maxLength * ty.num > ty.usermaxusage * 60 ∨
    weekUsage ty.grpReservations weekStart / 60 + maxLength * ty.num > ty.grpmaxusage * 60

instance (ty : TypeInfo) (len : ℤ) (tr : TimeRange) (weekStart : ℤ) :
    Decidable (OverLimit ty len tr weekStart) := inferInstanceAs (Decidable (_ ∨ _))

def slackSeconds (ty : TypeInfo) (weekStart : ℤ) : ℤ :=
  let userSlack := ty.usermaxusage * 60 * 60 - weekUsage ty.userReservations weekStart
  let grpSlack := ty.grpmaxusage * 60 * 60 - weekUsage ty.grpReservations weekStart
  let slack := min userSlack grpSlack
  if slack < 0 then 0 else slack

def adjustedWeekStart (ty : TypeInfo) (weekStart : ℤ) : ℤ :=
  addTime weekStart (slackSeconds ty weekStart)

def adjustedWeekEnd (ty : TypeInfo) (weekStart : ℤ) : ℤ :=
  subTime (addTime weekStart secondsPerWeek) (slackSeconds ty weekStart)

/-- In a week over the limit: the sessions that end by the adjusted week start are kept. -/
def KeepsBefore (ty : TypeInfo) (tr : TimeRange) (weekStart : ℤ) : Prop :=
  tr.b1 < adjustedWeekStart ty weekStart ∧ adjustedWeekStart ty weekStart ≥ tr.e1

/-- In a week over the limit: the range goes on from the adjusted week end. -/
def MovesEdge (ty : TypeInfo) (tr : TimeRange) (weekStart : ℤ) : Prop :=
  tr.e2 > adjustedWeekEnd ty weekStart ∧ adjustedWeekEnd ty weekStart ≤ tr.b2

instance (ty : TypeInfo) (tr : TimeRange) (weekStart : ℤ) :
    Decidable (KeepsBefore ty tr weekStart) := inferInstanceAs (Decidable (_ ∧ _))

instance (ty : TypeInfo) (tr : TimeRange) (weekStart : ℤ) :
    Decidable (MovesEdge ty tr weekStart) := inferInstanceAs (Decidable (_ ∧ _))

/-- One week of one range: the range as it goes on, and the ranges put on
`new_possible_times`. -/
def checkWeek (ty : TypeInfo) (len weekStart : ℤ) (w : TimeRange × List TimeRange) :
    TimeRange × List TimeRange :=
  let tr := w.1
  if OverLimit ty len tr weekStart then
    let out :=
      if KeepsBefore ty tr weekStart then
        w.2 ++ [⟨tr.b1, subTime tr.b2 (tr.e2 - adjustedWeekStart ty weekStart), tr.e1,
          adjustedWeekStart ty weekStart⟩]
      else w.2
    if MovesEdge ty tr weekStart then
      ({ tr with
          e1 := addTime tr.e1 (adjustedWeekEnd ty weekStart - tr.b1)
          b1 := adjustedWeekEnd ty weekStart }, out)
    else (tr, out)
  else if tr.e2 < addTime weekStart secondsPerWeek then (tr, w.2 ++ [tr])
  else w

/-- The loop over `n` weeks. -/
def checkWeeks (ty : TypeInfo) (len : ℤ) :
    ℕ → ℤ → TimeRange × List TimeRange → TimeRange × List TimeRange
  | 0, _, w => w
  | n + 1, weekStart, w =>
    checkWeeks ty len n (addTime weekStart secondsPerWeek) (checkWeek ty len weekStart w)

/-- How many weeks `while(week_start != end_week)` goes through. -/
def weekCount (monday : ℤ) (tr : TimeRange) : ℕ :=
  ((getStartOfWeek monday tr.e2 + secondsPerWeek - getStartOfWeek monday tr.b1) /
    secondsPerWeek).toNat

def checkType (monday len : ℤ) (ty : TypeInfo) (possibleTimes : List TimeRange) :
    List TimeRange :=
  possibleTimes.flatMap (fun tr =>
    (checkWeeks ty len (weekCount monday tr) (getStartOfWeek monday tr.b1) (tr, [])).2)

/-- The loop over the types of the request. -/
def weeklyPolicy (monday len : ℤ) (types : List TypeInfo) (possibleTimes : List TimeRange) :
    List TimeRange :=
  types.foldl (fun possibleTimes ty => checkType monday len ty possibleTimes) possibleTimes

/-- The seconds a session of length `d` from `s` has in the week. -/
def weekPart (d s weekStart : ℤ) : ℤ :=
  max 0 (min (s + d) (weekStart + secondsPerWeek) - max s weekStart)

/-- In the week, if the session touches it, user and group stay within their limits. -/
def WeekWithin (ty : TypeInfo) (d s weekStart : ℤ) : Prop :=
  0 < weekPart d s weekStart →
    weekUsage ty.userReservations weekStart + weekPart d s weekStart * ty.num ≤
      ty.usermaxusage * 60 * 60 ∧
    weekUsage ty.grpReservations weekStart + weekPart d s weekStart * ty.num ≤
      ty.grpmaxusage * 60 * 60

/-- The session keeps to the limits of the type in every week it touches. -/
def WithinLimits (monday : ℤ) (ty : TypeInfo) (d s : ℤ) : Prop :=
  ∀ k : ℤ, WeekWithin ty d s (monday + k * secondsPerWeek)

/-- What the walk relies on in a week over the limit. Slack is only handed to sessions with one
node of the type. And the range goes on behind the week or ends in it. -/
def Adjusts (ty : TypeInfo) (len weekStart : ℤ) (tr : TimeRange) : Prop :=
  OverLimit ty len tr weekStart →
    ((KeepsBefore ty tr weekStart ∨ MovesEdge ty tr weekStart) →
      ty.num = 1 ∨ slackSeconds ty weekStart = 0) ∧
    (MovesEdge ty tr weekStart ∨ tr.e2 < addTime weekStart secondsPerWeek)

/-- Every week the loop goes through. -/
def WeeksAdjust (ty : TypeInfo) (len : ℤ) : ℕ → ℤ → TimeRange × List TimeRange → Prop
  | 0, _, _ => True
  | n + 1, weekStart, w => Adjusts ty len weekStart w.1 ∧
      WeeksAdjust ty len n (addTime weekStart secondsPerWeek) (checkWeek ty len weekStart w)

/-- Every week of every range for every type. -/
def Adjusted (monday len : ℤ) : List TypeInfo → List TimeRange → Prop
  | [], _ => True
  | ty :: types, possibleTimes =>
    (∀ tr ∈ possibleTimes,
      WeeksAdjust ty len (weekCount monday tr) (getStartOfWeek monday tr.b1) (tr, [])) ∧
    Adjusted monday len types (checkType monday len ty possibleTimes)

/-- A range of start times in whole minutes, for sessions of length `d`. -/
structure TimeRange.Ok (d : ℤ) (tr : TimeRange) : Prop where
  hasLength : tr.HasLength d
  le : tr.b1 ≤ tr.b2
  minutes1 : 60 ∣ tr.b1
  minutes2 : 60 ∣ tr.b2

/-- The times in the reservations table are whole minutes: `discretize_time` made them. -/
def WholeMinutes (reservations : List Restime) : Prop :=
  ∀ r ∈ reservations, 60 ∣ r.rb ∧ 60 ∣ r.re

structure TypeInfo.Ok (ty : TypeInfo) : Prop where
  user : WholeMinutes ty.userReservations
  grp : WholeMinutes ty.grpReservations

variable {ty : TypeInfo} {len d monday weekStart s : ℤ} {tr tr₀ : TimeRange}

theorem secondsPerWeek_eq : secondsPerWeek = 604800 := rfl

theorem weekUsage_minutes {l : List Restime} (hl : WholeMinutes l) (hw : 60 ∣ weekStart) :
    60 ∣ weekUsage l weekStart := by
  have hsum : ∀ l : List Restime, WholeMinutes l → 60 ∣ (l.map (fun r =>
      (if r.re > addTime weekStart secondsPerWeek then addTime weekStart secondsPerWeek else r.re) -
        if r.rb < weekStart then weekStart else r.rb)).sum := by
    intro l
    induction l with
    | nil => simp
    | cons r l ih =>
      intro hl
      rw [List.map_cons,List.sum_cons]
      have hi := ih fun r hr => hl r (List.mem_cons_of_mem _ hr)
      have hr := hl r List.mem_cons_self
      refine Int.dvd_add ?_ hi
      simp only [addTime,secondsPerWeek_eq]
      split_ifs <;> omega
  exact hsum _ fun r hr => hl r (List.mem_filter.mp hr).1

theorem slackSeconds_nonneg (ty : TypeInfo) (weekStart : ℤ) : 0 ≤ slackSeconds ty weekStart := by
  simp only [slackSeconds]
  split <;> omega

theorem slackSeconds_minutes (ht : ty.Ok) (hw : 60 ∣ weekStart) :
    60 ∣ slackSeconds ty weekStart := by
  have h1 := weekUsage_minutes ht.user hw
  have h2 := weekUsage_minutes ht.grp hw
  simp only [slackSeconds]
  split <;> omega

/-- Slack that is there is within both limits. -/
theorem usage_add_slack (h : 0 < slackSeconds ty weekStart) :
    weekUsage ty.userReservations weekStart + slackSeconds ty weekStart ≤
      ty.usermaxusage * 60 * 60 ∧
    weekUsage ty.grpReservations weekStart + slackSeconds ty weekStart ≤
      ty.grpmaxusage * 60 * 60 := by
  simp only [slackSeconds] at h ⊢
  split at h
  · omega
  · next hneg =>
    rw [if_neg hneg]
    omega

/-- No session of the range is in the week for longer than the length used for the test, and
that one fits between the week's borders and the range's. -/
theorem maxWeekLength_bounds (hd : d = len * 60) (ht : tr.Ok d) (hw : 60 ∣ weekStart) :
    (∀ s, tr.Has s → weekPart d s weekStart ≤ 60 * maxWeekLength len tr weekStart ∨
      weekPart d s weekStart = 0) ∧
    (tr.b1 < weekStart + secondsPerWeek →
      60 * maxWeekLength len tr weekStart ≤ weekStart + secondsPerWeek - tr.b1) ∧
    60 * maxWeekLength len tr weekStart ≤ tr.e2 - weekStart ∧
    60 * maxWeekLength len tr weekStart ≤ secondsPerWeek := by
  obtain ⟨h1,h2⟩ := ht.hasLength
  have hle := ht.le
  have hm1 := ht.minutes1
  have hm2 := ht.minutes2
  simp only [maxWeekLength,addTime,weekPart,TimeRange.Has,secondsPerWeek_eq]
  split_ifs <;> refine ⟨fun s hs => ?_,?_,?_,?_⟩ <;> omega

/-- A week is over the limit for one node only if its slack is shorter than the session. -/
theorem slack_lt_of_overLimit (ht : ty.Ok) (hw : 60 ∣ weekStart)
    (ho : OverLimit ty len tr weekStart)
    (hn : ty.num = 1 ∨ slackSeconds ty weekStart = 0) :
    slackSeconds ty weekStart = 0 ∨
      slackSeconds ty weekStart < 60 * maxWeekLength len tr weekStart := by
  rcases hn with hn | hn
  · have h1 := weekUsage_minutes ht.user hw
    have h2 := weekUsage_minutes ht.grp hw
    simp only [OverLimit,hn] at ho
    simp only [slackSeconds]
    split <;> omega
  · exact .inl hn

/-- A session that has at most the slack in the week stays within the limits. -/
theorem weekWithin_of_slack (hn : ty.num = 1 ∨ slackSeconds ty weekStart = 0)
    (hp : weekPart d s weekStart ≤ slackSeconds ty weekStart) : WeekWithin ty d s weekStart := by
  intro hpos
  have hs : 0 < slackSeconds ty weekStart := by omega
  have hnum : ty.num = 1 := hn.resolve_right (by omega)
  have hu := usage_add_slack hs
  rw [hnum]
  omega

/-- In a week that is not over the limit every session of the range stays within it. -/
theorem weekWithin_of_not_overLimit (ht : ty.Ok) (hd : d = len * 60) (hr : tr.Ok d)
    (hw : 60 ∣ weekStart) (ho : ¬ OverLimit ty len tr weekStart) (hs : tr.Has s) :
    WeekWithin ty d s weekStart := by
  intro hpos
  have hb := ((maxWeekLength_bounds hd hr hw).1 s hs).resolve_right (by omega)
  have h1 := weekUsage_minutes ht.user hw
  have h2 := weekUsage_minutes ht.grp hw
  have hmul : weekPart d s weekStart * ty.num ≤ 60 * maxWeekLength len tr weekStart * ty.num :=
    mul_le_mul_of_nonneg_right hb (Int.natCast_nonneg _)
  rw [mul_assoc] at hmul
  simp only [OverLimit,not_or,not_lt] at ho
  omega

/-- Outside the weeks it reaches a session has no part. -/
theorem weekWithin_of_after (h : s + d ≤ weekStart) : WeekWithin ty d s weekStart := by
  intro hpos
  simp only [weekPart] at hpos
  omega

/-- The walk before a week: the range going on keeps to the limits of all weeks before, and the
ranges put on the list keep to all limits. -/
structure WeekInv (ty : TypeInfo) (d monday : ℤ) (tr₀ : TimeRange) (weekStart : ℤ)
    (w : TimeRange × List TimeRange) : Prop where
  ok : w.1.Ok d
  b2 : w.1.b2 = tr₀.b2
  b1 : tr₀.b1 ≤ w.1.b1
  early : w.1.b1 < weekStart + secondsPerWeek
  past : ∀ s, w.1.Has s → ∀ k : ℤ, monday + k * secondsPerWeek < weekStart →
    WeekWithin ty d s (monday + k * secondsPerWeek)

/-- What is said of the ranges on `new_possible_times`. -/
def OutInv (ty : TypeInfo) (d monday : ℤ) (tr₀ : TimeRange) (out : List TimeRange) : Prop :=
  ∀ tr ∈ out, tr.Ok d ∧ ∀ s, tr.Has s → tr₀.Has s ∧ WithinLimits monday ty d s

theorem outInv_concat {out : List TimeRange} (h : OutInv ty d monday tr₀ out) (ho : tr.Ok d)
    (hs : ∀ s, tr.Has s → tr₀.Has s ∧ WithinLimits monday ty d s) :
    OutInv ty d monday tr₀ (out ++ [tr]) := by
  intro r hr
  rcases List.mem_append.mp hr with hr | hr
  · exact h r hr
  · rw [List.mem_singleton.mp hr]
    exact ⟨ho,hs⟩

/-- The weeks before, this week, and the weeks after it. -/
theorem withinLimits_of_weeks {j : ℤ} (hj : weekStart = monday + j * secondsPerWeek)
    (hpast : ∀ k : ℤ, monday + k * secondsPerWeek < weekStart →
      WeekWithin ty d s (monday + k * secondsPerWeek))
    (hthis : WeekWithin ty d s weekStart) (hend : s + d ≤ weekStart + secondsPerWeek) :
    WithinLimits monday ty d s := by
  intro k
  rcases lt_trichotomy k j with hk | rfl | hk
  · refine hpast k ?_
    rw [hj,secondsPerWeek_eq]
    omega
  · exact hj ▸ hthis
  · refine weekWithin_of_after ?_
    rw [secondsPerWeek_eq] at *
    omega

/-- The sessions kept before the adjusted week start. -/
theorem keepsBefore_ok {j : ℤ} (ht : ty.Ok) (hd : d = len * 60)
    (hj : weekStart = monday + j * secondsPerWeek) (hw : 60 ∣ weekStart)
    {w : TimeRange × List TimeRange} (hi : WeekInv ty d monday tr₀ weekStart w)
    (hreach : weekStart ≤ w.1.e2) (ho : OverLimit ty len w.1 weekStart)
    (hn : ty.num = 1 ∨ slackSeconds ty weekStart = 0) (hk : KeepsBefore ty w.1 weekStart) :
    let r : TimeRange := ⟨w.1.b1, subTime w.1.b2 (w.1.e2 - adjustedWeekStart ty weekStart), w.1.e1,
      adjustedWeekStart ty weekStart⟩
    r.Ok d ∧ ∀ s, r.Has s → tr₀.Has s ∧ WithinLimits monday ty d s := by
  obtain ⟨h1,h2⟩ := hi.ok.hasLength
  obtain ⟨hk1,hk2⟩ := hk
  have hslack := slackSeconds_nonneg ty weekStart
  have hslack60 := slackSeconds_minutes ht hw
  have hlt := slack_lt_of_overLimit ht hw ho hn
  obtain ⟨_,_,hmax1,hmax2⟩ := maxWeekLength_bounds hd hi.ok hw
  have hm1 := hi.ok.minutes1
  have hm2 := hi.ok.minutes2
  simp only [adjustedWeekStart,addTime,subTime] at hk1 hk2 ⊢
  refine ⟨⟨⟨h1,?_⟩,?_,hm1,?_⟩,fun s hs => ?_⟩
  · simp only
    omega
  · simp only
    omega
  · simp only
    omega
  · simp only [TimeRange.Has] at hs
    have hb2 : s ≤ w.1.b2 := by omega
    refine ⟨⟨hi.b1.trans hs.1,hi.b2 ▸ hb2⟩,?_⟩
    have hspw := secondsPerWeek_eq
    refine withinLimits_of_weeks hj (hi.past s ⟨hs.1,hb2⟩) (weekWithin_of_slack hn ?_) (by omega)
    simp only [weekPart]
    omega

/-- The range going on from the adjusted week end. -/
theorem movesEdge_ok {j : ℤ} (ht : ty.Ok) (hd : d = len * 60)
    (hj : weekStart = monday + j * secondsPerWeek) (hw : 60 ∣ weekStart)
    {w : TimeRange × List TimeRange} (hi : WeekInv ty d monday tr₀ weekStart w)
    (ho : OverLimit ty len w.1 weekStart)
    (hn : ty.num = 1 ∨ slackSeconds ty weekStart = 0) (hm : MovesEdge ty w.1 weekStart)
    (out : List TimeRange) :
    WeekInv ty d monday tr₀ (weekStart + secondsPerWeek)
      ({ w.1 with
          e1 := addTime w.1.e1 (adjustedWeekEnd ty weekStart - w.1.b1)
          b1 := adjustedWeekEnd ty weekStart }, out) := by
  obtain ⟨h1,h2⟩ := hi.ok.hasLength
  have hslack := slackSeconds_nonneg ty weekStart
  have hslack60 := slackSeconds_minutes ht hw
  have hlt := slack_lt_of_overLimit ht hw ho hn
  have hearly := hi.early
  have hb1 := hi.b1
  have hmax := (maxWeekLength_bounds hd hi.ok hw).2.1 hearly
  have hm2 := hi.ok.minutes2
  have hmoves := hm.2
  -- the edge moves forward, into this week
  have hedge : adjustedWeekEnd ty weekStart =
      weekStart + secondsPerWeek - slackSeconds ty weekStart := rfl
  rw [secondsPerWeek_eq] at *
  refine ⟨⟨⟨?_,h2⟩,hmoves,?_,hm2⟩,hi.b2,?_,?_,?_⟩
  · simp only [addTime]
    omega
  · simp only
    omega
  · simp only
    omega
  · simp only [secondsPerWeek_eq]
    omega
  · intro s hs k hk
    obtain ⟨hs1,hs2⟩ := hs
    simp only [secondsPerWeek_eq] at hs1 hs2 hk
    by_cases hkj : monday + k * 604800 < weekStart
    · exact hi.past s ⟨by omega,hs2⟩ k hkj
    · have hkw : monday + k * 604800 = weekStart := by omega
      rw [secondsPerWeek_eq,hkw]
      refine weekWithin_of_slack hn ?_
      simp only [weekPart,secondsPerWeek_eq]
      omega

/-- One week of the walk. -/
theorem checkWeek_ok {j : ℤ} (ht : ty.Ok) (hd : d = len * 60)
    (hj : weekStart = monday + j * secondsPerWeek) (hw : 60 ∣ weekStart)
    {w : TimeRange × List TimeRange} (hi : WeekInv ty d monday tr₀ weekStart w)
    (hout : OutInv ty d monday tr₀ w.2) (hreach : weekStart ≤ w.1.e2)
    (ha : Adjusts ty len weekStart w.1) :
    OutInv ty d monday tr₀ (checkWeek ty len weekStart w).2 ∧
      (checkWeek ty len weekStart w).1.e2 = w.1.e2 ∧
      (weekStart + secondsPerWeek ≤ w.1.e2 →
        WeekInv ty d monday tr₀ (weekStart + secondsPerWeek) (checkWeek ty len weekStart w)) := by
  obtain ⟨tr,out⟩ := w
  simp only [checkWeek]
  by_cases ho : OverLimit ty len tr weekStart
  · obtain ⟨hn,hgo⟩ := ha ho
    rw [if_pos ho]
    have hout' : OutInv ty d monday tr₀ (if KeepsBefore ty tr weekStart then
        out ++ [⟨tr.b1, subTime tr.b2 (tr.e2 - adjustedWeekStart ty weekStart), tr.e1,
          adjustedWeekStart ty weekStart⟩] else out) := by
      split
      · next hk =>
        obtain ⟨hok,hs⟩ := keepsBefore_ok ht hd hj hw hi hreach ho (hn (.inl hk)) hk
        exact outInv_concat hout hok hs
      · exact hout
    by_cases hm : MovesEdge ty tr weekStart
    · rw [if_pos hm]
      exact ⟨hout',rfl,fun _ => movesEdge_ok ht hd hj hw hi ho (hn (.inr hm)) hm _⟩
    · rw [if_neg hm]
      refine ⟨hout',rfl,fun hmore => ?_⟩
      have := hgo.resolve_left hm
      simp only [addTime] at this hmore
      omega
  · rw [if_neg ho]
    have hthis : ∀ s, tr.Has s → WeekWithin ty d s weekStart :=
      fun s hs => weekWithin_of_not_overLimit ht hd hi.ok hw ho hs
    have h2 := hi.ok.hasLength.2
    split
    · next hlast =>
      simp only [addTime] at hlast h2
      refine ⟨outInv_concat hout hi.ok fun s hs => ⟨⟨hi.b1.trans hs.1,hi.b2 ▸ hs.2⟩,?_⟩,rfl,?_⟩
      · have := hs.2
        exact withinLimits_of_weeks hj (hi.past s hs) (hthis s hs) (by omega)
      · intro hmore
        omega
    · refine ⟨hout,rfl,fun _ => ⟨hi.ok,hi.b2,hi.b1,?_,fun s hs k hk => ?_⟩⟩
      · have := hi.early
        simp only [secondsPerWeek_eq] at this ⊢
        omega
      · by_cases hkj : monday + k * secondsPerWeek < weekStart
        · exact hi.past s hs k hkj
        · have hkw : monday + k * secondsPerWeek = weekStart := by
            rw [secondsPerWeek_eq] at *
            omega
          rw [hkw]
          exact hthis s hs

/-- The weeks up to the one that holds the last end time. -/
theorem checkWeeks_ok (ht : ty.Ok) (hd : d = len * 60) (hmon : 60 ∣ monday) (n : ℕ) {j : ℤ}
    {w : TimeRange × List TimeRange} (hi : WeekInv ty d monday tr₀ (monday + j * secondsPerWeek) w)
    (hout : OutInv ty d monday tr₀ w.2)
    (hreach : monday + j * secondsPerWeek + n * secondsPerWeek ≤ w.1.e2 + secondsPerWeek)
    (ha : WeeksAdjust ty len n (monday + j * secondsPerWeek) w) :
    OutInv ty d monday tr₀ (checkWeeks ty len n (monday + j * secondsPerWeek) w).2 := by
  induction n generalizing j w with
  | zero => exact hout
  | succ n ih =>
    have hw : 60 ∣ monday + j * secondsPerWeek := by
      rw [secondsPerWeek_eq]
      omega
    rw [secondsPerWeek_eq] at hreach
    push_cast at hreach
    have hreach' : monday + j * secondsPerWeek ≤ w.1.e2 := by
      rw [secondsPerWeek_eq]
      omega
    obtain ⟨hout',he2,hnext⟩ := checkWeek_ok ht hd rfl hw hi hout hreach' ha.1
    have hstep : addTime (monday + j * secondsPerWeek) secondsPerWeek =
        monday + (j + 1) * secondsPerWeek := by
      simp only [addTime,secondsPerWeek_eq]
      omega
    rw [checkWeeks,hstep]
    have ha' := ha.2
    rw [hstep] at ha'
    by_cases hmore : monday + j * secondsPerWeek + secondsPerWeek ≤ w.1.e2
    · have hi' := hnext hmore
      have hstep' : monday + j * secondsPerWeek + secondsPerWeek =
          monday + (j + 1) * secondsPerWeek := hstep
      rw [hstep'] at hi'
      refine ih hi' hout' ?_ ha'
      rw [he2,secondsPerWeek_eq]
      omega
    · -- this was the last week
      have hn : n = 0 := by
        rw [secondsPerWeek_eq] at hmore
        omega
      subst hn
      exact hout'

theorem weekWithin_of_before (h : weekStart + secondsPerWeek ≤ s) :
    WeekWithin ty d s weekStart := by
  intro hpos
  simp only [weekPart] at hpos
  omega

/-- The weeks are counted up to the one that holds the last end time. -/
theorem weekCount_eq (h : tr.b1 ≤ tr.e2) : getStartOfWeek monday tr.b1 +
    weekCount monday tr * secondsPerWeek = getStartOfWeek monday tr.e2 + secondsPerWeek := by
  simp only [weekCount,getStartOfWeek,secondsPerWeek_eq]
  omega

theorem checkType_ok (ht : ty.Ok) (hd : d = len * 60) (hd0 : 0 < d) (hmon : 60 ∣ monday)
    {possibleTimes : List TimeRange} (hp : ∀ tr ∈ possibleTimes, tr.Ok d)
    (ha : ∀ tr ∈ possibleTimes,
      WeeksAdjust ty len (weekCount monday tr) (getStartOfWeek monday tr.b1) (tr, [])) :
    ∀ r ∈ checkType monday len ty possibleTimes, r.Ok d ∧
      ∀ s, r.Has s → InRanges possibleTimes s ∧ WithinLimits monday ty d s := by
  intro r hr
  obtain ⟨tr,htr,hr⟩ := List.mem_flatMap.mp hr
  have hok := hp tr htr
  have h2 := hok.hasLength.2
  have hle := hok.le
  have hcount : getStartOfWeek monday tr.b1 + weekCount monday tr * secondsPerWeek =
      getStartOfWeek monday tr.e2 + secondsPerWeek := weekCount_eq (by omega)
  have hi : WeekInv ty d monday tr (getStartOfWeek monday tr.b1) (tr,[]) := by
    refine ⟨hok,rfl,le_rfl,?_,fun s hs k hk => weekWithin_of_before ?_⟩
    · simp only [getStartOfWeek,secondsPerWeek_eq]
      omega
    · have := hs.1
      simp only [getStartOfWeek,secondsPerWeek_eq] at hk this ⊢
      omega
  have hreach : getStartOfWeek monday tr.b1 + weekCount monday tr * secondsPerWeek ≤
      tr.e2 + secondsPerWeek := by
    rw [hcount]
    simp only [getStartOfWeek,secondsPerWeek_eq]
    omega
  have hout := checkWeeks_ok ht hd hmon (weekCount monday tr) hi (fun _ h => absurd h List.not_mem_nil)
    hreach (ha tr htr)
  obtain ⟨hrok,hs⟩ := hout r hr
  exact ⟨hrok,fun s hrs => ⟨⟨tr,htr,(hs s hrs).1⟩,(hs s hrs).2⟩⟩

/-- Every start time the policy loop leaves lies in a given range and keeps to the limits of
every type in every week, if the weeks over the limit are such that the loop can adjust to
them. -/
theorem weeklyPolicy_within (monday : ℤ) (hmon : 60 ∣ monday) (len : ℤ) (hlen : 0 < len)
    (types : List TypeInfo) (htypes : ∀ ty ∈ types, ty.Ok) (possibleTimes : List TimeRange)
    (hp : ∀ tr ∈ possibleTimes, tr.Ok (len * 60)) (ha : Adjusted monday len types possibleTimes) :
    ∀ s, InRanges (weeklyPolicy monday len types possibleTimes) s →
      InRanges possibleTimes s ∧ ∀ ty ∈ types, WithinLimits monday ty (len * 60) s := by
  induction types generalizing possibleTimes with
  | nil => exact fun s hs => ⟨hs,by simp⟩
  | cons ty types ih =>
    intro s hs
    have hty := checkType_ok (htypes ty List.mem_cons_self) rfl (by omega) hmon hp ha.1
    obtain ⟨⟨r,hr,hrs⟩,hrest⟩ := ih (fun t h => htypes t (List.mem_cons_of_mem ty h)) _
      (fun r hr => (hty r hr).1) ha.2 s hs
    obtain ⟨hin,hlim⟩ := (hty r hr).2 s hrs
    exact ⟨hin,List.forall_mem_cons.mpr ⟨hlim,hrest⟩⟩

/-- Where the condition fails for two nodes or more, the last session kept before the adjusted
week start is over the limit. -/
theorem not_weekWithin_of_keepsBefore (hd : d = len * 60) (hd0 : 0 < d) (ht : ty.Ok) (hw : 60 ∣ weekStart) (ho : OverLimit ty len tr weekStart)
    (hn : 2 ≤ ty.num) (hs : 0 < slackSeconds ty weekStart)
    (hs' : slackSeconds ty weekStart ≤ secondsPerWeek) :
    ¬ WeekWithin ty d (adjustedWeekStart ty weekStart - d) weekStart := by
  intro h
  have hpart : weekPart d (adjustedWeekStart ty weekStart - d) weekStart =
      min d (slackSeconds ty weekStart) := by
    simp only [weekPart,adjustedWeekStart,addTime]
    omega
  rw [WeekWithin,hpart] at h
  obtain ⟨hu,hg⟩ := h (by omega)
  have hmax : 60 * maxWeekLength len tr weekStart ≤ d := by
    simp only [maxWeekLength]
    split_ifs <;> omega
  have h1 := weekUsage_minutes ht.user hw
  have h2 := weekUsage_minutes ht.grp hw
  have hslack : slackSeconds ty weekStart =
      min (ty.usermaxusage * 60 * 60 - weekUsage ty.userReservations weekStart)
        (ty.grpmaxusage * 60 * 60 - weekUsage ty.grpReservations weekStart) := by
    simp only [slackSeconds] at hs ⊢
    split at hs
    · omega
    · next hneg => rw [if_neg hneg]
  have hmul : 60 * maxWeekLength len tr weekStart * ty.num ≤ d * ty.num :=
    mul_le_mul_of_nonneg_right hmax (Int.natCast_nonneg _)
  rw [mul_assoc] at hmul
  have htwo : slackSeconds ty weekStart * 2 ≤ slackSeconds ty weekStart * ty.num :=
    mul_le_mul_of_nonneg_left (by exact_mod_cast hn) (by omega)
  rcases min_cases d (slackSeconds ty weekStart) with ⟨hmin,_⟩ | ⟨hmin,_⟩
  · rw [hmin] at hu hg
    simp only [OverLimit] at ho
    omega
  · rw [hmin] at hu hg
    omega

/-- Three hours a week, two of which are used in the first week. -/
def oneNode : TypeInfo := ⟨1, 3, 3, [⟨0, 7200, by decide⟩], []⟩

/-- Three hours a week for two nodes. -/
def twoNodes : TypeInfo := ⟨2, 3, 3, [], []⟩

/-- With one hour of slack in the first week, a session of two hours can start one hour before
it ends. -/
theorem weeklyPolicy_one_node :
    weeklyPolicy 0 120 [oneNode] [⟨594000, 622800, 601200, 630000⟩] =
      [⟨601200, 622800, 608400, 630000⟩] ∧
    ∀ s, InRanges (weeklyPolicy 0 120 [oneNode] [⟨594000, 622800, 601200, 630000⟩]) s →
      InRanges [⟨594000, 622800, 601200, 630000⟩] s ∧
        ∀ ty ∈ [oneNode], WithinLimits 0 ty (120 * 60) s := by
  refine ⟨by decide,?_⟩
  refine weeklyPolicy_within 0 (by decide) 120 (by decide) [oneNode] ?_
    [⟨594000,622800,601200,630000⟩] ?_ ?_
  · intro ty hty
    rw [List.mem_singleton.mp hty]
    exact ⟨by simp [oneNode,WholeMinutes],by simp [oneNode,WholeMinutes]⟩
  · intro tr htr
    rw [List.mem_singleton.mp htr]
    exact ⟨⟨rfl,rfl⟩,by decide,by decide,by decide⟩
  · refine ⟨fun tr htr => ?_,trivial⟩
    rw [List.mem_singleton.mp htr]
    exact ⟨fun _ => ⟨fun _ => .inl rfl,.inl (by decide)⟩,fun h => absurd h (by decide),trivial⟩

/-- Two nodes for two hours are four hours of use, but the slack of three hours is handed out
as if they were two. -/
theorem weeklyPolicy_two_nodes :
    ¬ ∀ s, InRanges (weeklyPolicy 0 120 [twoNodes] [⟨0, 28800, 7200, 36000⟩]) s →
      ∀ ty ∈ [twoNodes], WithinLimits 0 ty (120 * 60) s := by
  intro h
  have hin : InRanges (weeklyPolicy 0 120 [twoNodes] [⟨0, 28800, 7200, 36000⟩]) 3600 := by
    have hout : weeklyPolicy 0 120 [twoNodes] [⟨0, 28800, 7200, 36000⟩] =
        [⟨0, 3600, 7200, 10800⟩] := by decide
    rw [hout]
    exact ⟨_,List.mem_cons_self,by decide⟩
  have hw := (h 3600 hin twoNodes List.mem_cons_self 0 (by decide)).1
  revert hw
  decide

end OnlDaemons.Onldb

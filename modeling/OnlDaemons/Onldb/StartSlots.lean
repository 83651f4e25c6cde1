import Mathlib
import OnlDaemons.Lib.ProgramRules
import OnlDaemons.Onldb.MakeReservation

/-!
# The start times that are not tried

`make_reservation` tries a slot only when a reservation begins or ends since the slot before it. A slot that it does
not try overlaps the reservations that the last slot tried overlaps, since one of them that had ended would have been
passed on the way.

## Main definitions

- `tried` — the start times that are tried as long as none succeeds
- `tryEach`, `tryRanges`
- `overlapped` — the reservations that overlap a slot

## Main results

- `forEach_tryTime` — the loop tries exactly these start times
- `tryRanges_skips` — what is not tried overlaps more, and nothing is lost by it
-/

namespace OnlDaemons.Onldb

open OnlDaemons.Lib LockProg

/-- The times of interest that one start time passes. -/
def passTimes (length curStart : ℤ) (s : TryState) : TryState :=
  ⟨(passTime s.toiEnd (curStart + length) (passTime s.toiStart curStart s.changed).2).2,
    (passTime s.toiStart curStart s.changed).1,
    (passTime s.toiEnd (curStart + length) (passTime s.toiStart curStart s.changed).2).1⟩

/-- After a slot nothing has changed. -/
def nextSlot (length curStart : ℤ) (s : TryState) : TryState := { passTimes length curStart s with changed := false }

def tried (length : ℤ) : List ℤ → TryState → List ℤ
  | [], _ => []
  | curStart :: rest, s =>
    if (passTimes length curStart s).changed then curStart :: tried length rest (nextSlot length curStart s)
    else tried length rest (nextSlot length curStart s)

/-- Try the start times one after the other. -/
def tryEach (clock : Clock) (username : String) (length : ℤ) : List ℤ → Op → Op
  | [], k => k
  | curStart :: rest, k =>
    .ask (.tryReservation username curStart (curStart + length) "pending" false) fun trr =>
      if trr.result = 1 then unlockRet 1 (clock.unix2db curStart)
      else if trr.result < 0 then unlockRet (-1) trr.msg
      else tryEach clock username length rest k

/-- `make_reservation` from where it has the ranges. -/
def tryRanges (clock : Clock) (username : String) (divisor : ℕ) (possibleTimes : List TimeRange) : Op :=
  forEach (tryRange clock username divisor) possibleTimes () fun _ =>
    unlockRet 0 "too many resources used by others during those times"

/-- The start times that are tried in a range, with the reservations that its query finds. -/
def triedTimes (divisor : ℕ) (tr : TimeRange) (rts : List Restime) : List ℤ :=
  tried (tr.e1 - tr.b1) (startTimes tr (60 / divisor * 60))
    ⟨true, timesOfInterest tr rts, (timesOfInterest tr rts).dropWhile (· < tr.e1)⟩

/-- The reservations that overlap the time from `s` to `e`. -/
def overlapped (reservations : List Restime) (s e : ℤ) : Set Restime := {r | r ∈ reservations ∧ r.rb < e ∧ s < r.re}

/-- What the database and `try_reservation` answer while the schedule holds the reservations. -/
def Scheduled (reservations : List Restime) (feasible : Set Restime → Prop) : ∀ q : Query, q.Answer → Prop
  | .allTimes b e, rts => ∀ l, rts = .ok l → ∀ r, r ∈ l ↔ r ∈ overlapped reservations b e
  | .tryReservation _ _ _ _ true, trr => trr.result = 1 ∧ feasible ∅ ∨ trr.result = 0 ∧ ¬feasible ∅
  | .tryReservation _ s e _ false, trr =>
    trr.result = 1 ∧ feasible (overlapped reservations s e) ∨
      trr.result = 0 ∧ ¬feasible (overlapped reservations s e)
  | _, _ => True

variable {clock : Clock} {username : String} {length d : ℤ} {divisor : ℕ} {tr : TimeRange}
  {rts reservations : List Restime} {feasible : Set Restime → Prop} {toi : List ℤ} {s : TryState} {j x : ℤ}

/-- The rest of `make_reservation` is `tryRanges`. -/
theorem makeReservationLocked_eq (current : ℤ) (len : ℕ) (typeList : List TypeListEntry) :
    makeReservationLocked clock username divisor current len typeList tr =
      .ask .verifyClusters fun vcr =>
      if vcr.result ≠ 1 then unlockRet vcr.result vcr.msg
      else forEach (checkTypePolicy clock username current len) typeList [tr] fun possibleTimes =>
        if possibleTimes = [] then
          unlockRet 0 "your usage during that time period is already maxed out"
        else .ask (.isSysadmin username) fun ra =>
          forEach (removeUserTimes username (ra.result == 1)) possibleTimes [] fun possibleTimes =>
          if possibleTimes = [] then
            unlockRet 0 ("either you already have reservations or there is system maintenance " ++
              "during that time period")
          else tryRanges clock username divisor possibleTimes := rfl

theorem tryTime_eq (curStart : ℤ) (s : TryState) (k : TryState → Op) : tryTime clock username length curStart s k =
    if (passTimes length curStart s).changed then
      .ask (.tryReservation username curStart (curStart + length) "pending" false) fun trr =>
        if trr.result = 1 then unlockRet 1 (clock.unix2db curStart)
        else if trr.result < 0 then unlockRet (-1) trr.msg
        else k (nextSlot length curStart s)
    else k (nextSlot length curStart s) := rfl

/-- The loop over the start times tries those of `tried`. -/
theorem forEach_tryTime (starts : List ℤ) (s : TryState) (k : Op) :
    forEach (tryTime clock username length) starts s (fun _ => k) =
      tryEach clock username length (tried length starts s) k := by
  induction starts generalizing s with
  | nil => rfl
  | cons curStart rest ih =>
    rw [forEach, tried, tryTime_eq, ih]
    split
    · rfl
    · rfl

/-! ### What is passed -/

theorem passTime_cases (toi : List ℤ) (cur : ℤ) (changed : Bool) :
    (∃ t rest, toi = t :: rest ∧ t ≤ cur ∧ passTime toi cur changed = (rest, true)) ∨
      (∀ t ∈ toi.head?, cur < t) ∧ passTime toi cur changed = (toi, changed) := by
  cases toi with
  | nil => exact .inr ⟨nofun, rfl⟩
  | cons t rest =>
    unfold passTime
    by_cases ht : t ≤ cur
    · exact .inl ⟨t, rest, rfl, ht, if_pos ht⟩
    · refine .inr ⟨fun u hu => ?_, if_neg ht⟩
      cases hu
      exact not_le.mp ht

theorem passTime_true (toi : List ℤ) (cur : ℤ) : (passTime toi cur true).2 = true := by
  obtain ⟨t, rest, -, -, h⟩ | ⟨-, h⟩ := passTime_cases toi cur true
  · rw [h]
  · rw [h]

/-- What is not to come any more has been passed by the last slot that was tried. -/
structure Passed (toi : List ℤ) (j : ℤ) (s : TryState) : Prop where
  sorted : s.toiStart.Pairwise (· ≤ ·)
  passed : ∀ t ∈ toi, t ∈ s.toiStart ∨ t ≤ j
  changed : s.changed = false

/-- A slot that is not tried has passed nothing. -/
theorem passTimes_unchanged (hs : s.toiStart.Pairwise (· ≤ ·)) (h : (passTimes length x s).changed = false) :
    (nextSlot length x s).toiStart = s.toiStart ∧ ∀ t ∈ s.toiStart, x < t := by
  unfold nextSlot passTimes at *
  obtain ⟨t, rest, -, -, hstart⟩ | ⟨hhead, hstart⟩ := passTime_cases s.toiStart x s.changed
  · rw [hstart, passTime_true] at h
    cases h
  · refine ⟨by rw [hstart], ?_⟩
    cases htoi : s.toiStart with
    | nil => nofun
    | cons t rest =>
      rw [htoi] at hs hhead
      have ht : x < t := hhead t rfl
      intro u hu
      obtain rfl | hu := List.mem_cons.mp hu
      · exact ht
      · exact ht.trans_le ((List.pairwise_cons.mp hs).1 u hu)

theorem Passed.keep (h : Passed toi j s) (hx : (passTimes length x s).changed = false) :
    Passed toi j (nextSlot length x s) := by
  obtain ⟨hsame, -⟩ := passTimes_unchanged h.sorted hx
  exact ⟨by rw [hsame]; exact h.sorted, by rw [hsame]; exact h.passed, rfl⟩

theorem passed_nextSlot (hs : s.toiStart.Pairwise (· ≤ ·)) (hp : ∀ t ∈ toi, t ∈ s.toiStart ∨ t ≤ x) :
    Passed toi x (nextSlot length x s) := by
  unfold nextSlot passTimes
  obtain ⟨t, rest, htoi, ht, hstart⟩ | ⟨-, hstart⟩ := passTime_cases s.toiStart x s.changed
  · rw [htoi] at hs hp
    refine ⟨by rw [hstart]; exact (List.pairwise_cons.mp hs).2, fun u hu => ?_, rfl⟩
    rw [hstart]
    obtain hmem | hle := hp u hu
    · obtain rfl | hmem := List.mem_cons.mp hmem
      · exact .inr ht
      · exact .inl hmem
    · exact .inr hle
  · exact ⟨by rw [hstart]; exact hs, by rw [hstart]; exact hp, rfl⟩

/-- A tried start time is one of the start times. -/
theorem tried_subset {starts : List ℤ} : ∀ x ∈ tried length starts s, x ∈ starts := by
  induction starts generalizing s with
  | nil => nofun
  | cons c rest ih =>
    intro x hx
    rw [tried] at hx
    split at hx
    · obtain rfl | hx := List.mem_cons.mp hx
      · exact List.mem_cons_self
      · exact List.mem_cons_of_mem _ (ih x hx)
    · exact List.mem_cons_of_mem _ (ih x hx)

/-- Between a start time that is not tried and the last one that is, there is no time of interest. -/
theorem exists_tried (hp : Passed toi j s) {starts : List ℤ} (hsorted : (j :: starts).Pairwise (· < ·))
    (hx : x ∈ starts) (hskip : x ∉ tried length starts s) : ∃ k, k ∈ j :: tried length starts s ∧ k < x ∧
      (∀ y ∈ tried length starts s, y < x → y ≤ k) ∧ ∀ t ∈ toi, t ≤ k ∨ x < t := by
  induction starts generalizing j s with
  | nil => cases hx
  | cons c rest ih =>
    obtain ⟨hj, hrest⟩ := List.pairwise_cons.mp hsorted
    have hjc := hj c List.mem_cons_self
    rw [tried] at hskip ⊢
    by_cases hchanged : (passTimes length c s).changed = true
    · rw [if_pos hchanged] at hskip ⊢
      rw [List.mem_cons, not_or] at hskip
      have hxr := (List.mem_cons.mp hx).resolve_left hskip.1
      have hp' : Passed toi c (nextSlot length c s) :=
        passed_nextSlot hp.sorted fun t ht => (hp.passed t ht).imp_right fun h => h.trans hjc.le
      obtain ⟨k, hk, hkx, hlast, hbetween⟩ := ih hp' hrest hxr hskip.2
      refine ⟨k, List.mem_cons_of_mem _ hk, hkx, fun y hy hyx => ?_, hbetween⟩
      obtain rfl | hy := List.mem_cons.mp hy
      · obtain rfl | hk := List.mem_cons.mp hk
        · exact le_rfl
        · exact ((List.pairwise_cons.mp hrest).1 k (tried_subset k hk)).le
      · exact hlast y hy hyx
    · rw [Bool.not_eq_true] at hchanged
      rw [if_neg (by rw [hchanged]; exact Bool.false_ne_true)] at hskip ⊢
      obtain rfl | hxr := List.mem_cons.mp hx
      · refine ⟨j, List.mem_cons_self, hjc, fun y hy hyx => ?_, fun t ht => ?_⟩
        · exact absurd hyx ((List.pairwise_cons.mp hrest).1 y (tried_subset y hy)).not_gt
        · exact (hp.passed t ht).symm.imp_right fun hmem => (passTimes_unchanged hp.sorted hchanged).2 t hmem
      · have hrest' : (j :: rest).Pairwise (· < ·) :=
          List.pairwise_cons.mpr ⟨fun y hy => hj y (List.mem_cons_of_mem _ hy), (List.pairwise_cons.mp hrest).2⟩
        exact ih (hp.keep hchanged) hrest' hxr hskip

/-! ### A range -/

theorem mem_timesOfInterest {t : ℤ} : t ∈ timesOfInterest tr rts ↔
    (∃ r ∈ rts, t = r.rb ∨ t = r.re) ∧ tr.b1 < t ∧ t < tr.e2 := by
  rw [timesOfInterest, List.mem_dedup, List.mem_mergeSort, List.mem_filter, List.mem_flatMap, decide_eq_true_iff]
  simp only [List.mem_cons, List.not_mem_nil, or_false]

theorem timesOfInterest_sorted (tr : TimeRange) (rts : List Restime) :
    (timesOfInterest tr rts).Pairwise (· ≤ ·) := by
  refine List.Pairwise.sublist (List.dedup_sublist _) ?_
  exact List.pairwise_mergeSort' (· ≤ ·) _

theorem startTimes_eq (tr : TimeRange) (increment : ℕ) : startTimes tr increment =
    (List.range ((tr.b2 - tr.b1) / increment + 1).toNat).map fun i : ℕ => tr.b1 + (i : ℤ) * increment := by
  simp only [startTimes, bind_pure_comp, List.map_eq_map, List.map_map]
  rfl

theorem startTimes_sorted (tr : TimeRange) (increment : ℕ) : (startTimes tr increment).Pairwise (· < ·) := by
  rw [startTimes_eq]
  obtain rfl | hpos := Nat.eq_zero_or_pos increment
  · rw [Nat.cast_zero, Int.ediv_zero]
    exact List.pairwise_singleton _ _
  · rw [List.pairwise_map]
    refine List.Pairwise.imp (fun {i j} hij => ?_) List.pairwise_lt_range
    have hmul : (i : ℤ) * increment < j * increment :=
      mul_lt_mul_of_pos_right (Int.ofNat_lt.mpr hij) (Int.natCast_pos.mpr hpos)
    exact add_lt_add_of_le_of_lt le_rfl hmul

theorem le_of_mem_startTimes {increment : ℕ} (h : x ∈ startTimes tr increment) :
    tr.b1 ≤ x ∧ (tr.b1 < x → x ≤ tr.b2) := by
  rw [startTimes_eq] at h
  obtain ⟨i, hi, rfl⟩ := List.mem_map.mp h
  have hnonneg : 0 ≤ (i : ℤ) * increment := Int.mul_nonneg (Int.natCast_nonneg _) (Int.natCast_nonneg _)
  refine ⟨by omega, fun hlt => ?_⟩
  have hinc : 0 < increment := by
    rw [Nat.pos_iff_ne_zero]
    rintro rfl
    rw [Nat.cast_zero, mul_zero] at hlt
    omega
  have hle : (i : ℤ) ≤ (tr.b2 - tr.b1) / increment := by
    have hi := List.mem_range.mp hi
    omega
  have hmul := (Int.le_ediv_iff_mul_le (Int.natCast_pos.mpr hinc)).mp hle
  omega

/-- The first slot is tried. -/
theorem passTimes_changed (h : s.changed = true) : (passTimes length x s).changed = true := by
  unfold passTimes
  rw [h, passTime_true]
  exact passTime_true _ _

/-- A slot that is not tried overlaps what the last slot tried overlaps. -/
theorem overlapped_of_not_tried (hd : 0 < d) (hlen : tr.HasLength d)
    (hrts : ∀ r, r ∈ rts ↔ r ∈ overlapped reservations tr.b1 tr.e2)
    (hx : x ∈ startTimes tr (60 / divisor * 60)) (hskip : x ∉ triedTimes divisor tr rts) :
    ∃ k ∈ triedTimes divisor tr rts, k < x ∧ (∀ y ∈ triedTimes divisor tr rts, y < x → y ≤ k) ∧
      overlapped reservations k (k + d) ⊆ overlapped reservations x (x + d) := by
  obtain ⟨hlen1, hlen2⟩ := hlen
  have hsorted := startTimes_sorted tr (60 / divisor * 60)
  have hbounds : ∀ y ∈ startTimes tr (60 / divisor * 60), tr.b1 ≤ y ∧ (tr.b1 < y → y ≤ tr.b2) :=
    fun y hy => le_of_mem_startTimes hy
  unfold triedTimes at *
  generalize startTimes tr (60 / divisor * 60) = starts at *
  cases starts with
  | nil => cases hx
  | cons c rest =>
    rw [tried, if_pos (passTimes_changed rfl)] at hskip ⊢
    rw [List.mem_cons, not_or] at hskip
    have hxr := (List.mem_cons.mp hx).resolve_left hskip.1
    have hp : Passed (timesOfInterest tr rts) c (nextSlot (tr.e1 - tr.b1) c
        ⟨true, timesOfInterest tr rts, (timesOfInterest tr rts).dropWhile (· < tr.e1)⟩) :=
      passed_nextSlot (timesOfInterest_sorted tr rts) (fun t ht => .inl ht)
    obtain ⟨k, hk, hkx, hlast, hbetween⟩ := exists_tried hp hsorted hxr hskip.2
    have hkb : tr.b1 ≤ k := by
      obtain rfl | hk := List.mem_cons.mp hk
      · exact (hbounds _ List.mem_cons_self).1
      · exact (hbounds k (List.mem_cons_of_mem _ (tried_subset k hk))).1
    have hxb := (hbounds x hx).2 (hkb.trans_lt hkx)
    refine ⟨k, hk, hkx, fun y hy hyx => ?_, ?_⟩
    · obtain rfl | hy := List.mem_cons.mp hy
      · obtain rfl | hk := List.mem_cons.mp hk
        · exact le_rfl
        · exact ((List.pairwise_cons.mp hsorted).1 k (tried_subset k hk)).le
      · exact hlast y hy hyx
    · rintro r ⟨hr, hbegin, hend⟩
      refine ⟨hr, by omega, ?_⟩
      -- if it had ended by now, its end would be a time of interest
      by_contra hover
      have hmem : r ∈ rts := (hrts r).mpr ⟨hr, by omega, by omega⟩
      have htoi : r.re ∈ timesOfInterest tr rts :=
        mem_timesOfInterest.mpr ⟨⟨r, hmem, .inr rfl⟩, by omega, by omega⟩
      obtain hle | hlt := hbetween _ htoi
      · omega
      · omega

/-! ### Runs -/

/-- What is returned, if it is not a success, says that the start times are of no use. -/
def Lost (reservations : List Restime) (feasible : Set Restime → Prop) (d : ℤ) (starts : List ℤ) : Prop :=
  ∀ x ∈ starts, ¬feasible (overlapped reservations x (x + d))

theorem meets_tryEach {post : OnldbResp → Prop} {pre : Query → Prop} (hpre : ∀ q, pre q) {starts : List ℤ} {k : Op}
    (hone : ∀ a : OnldbResp, a.result = 1 → post a)
    (hk : Lost reservations feasible length starts → k.Meets (Scheduled reservations feasible) pre post) :
    (tryEach clock username length starts k).Meets (Scheduled reservations feasible) pre post := by
  induction starts with
  | nil => exact hk nofun
  | cons c rest ih =>
    refine Meets.ask (hpre _) fun trr htrr => ?_
    obtain ⟨hres, -⟩ | ⟨hres, hno⟩ := htrr
    · rw [if_pos hres]
      exact hone _ rfl
    · rw [if_neg (by rw [hres]; decide), if_neg (by rw [hres]; decide)]
      refine ih fun hrest => hk fun x hx => ?_
      obtain rfl | hx := List.mem_cons.mp hx
      · exact hno
      · exact hrest x hx

/-- Every slot of every range. -/
def NoSlot (reservations : List Restime) (feasible : Set Restime → Prop) (d : ℤ) (divisor : ℕ)
    (possibleTimes : List TimeRange) : Prop :=
  ∀ tr ∈ possibleTimes, Lost reservations feasible d (startTimes tr (60 / divisor * 60))

theorem meets_tryRanges (hd : 0 < d) {possibleTimes : List TimeRange} (hlen : ∀ tr ∈ possibleTimes, tr.HasLength d)
    (hf : Antitone feasible) : (tryRanges clock username divisor possibleTimes).Meets (Scheduled reservations feasible)
      (fun _ => True) fun a => a.result ≠ 1 → NoSlot reservations feasible d divisor possibleTimes := by
  refine Meets.forEach (fun done _ => NoSlot reservations feasible d divisor done) ?_ ?_ nofun
  case refine_2 => exact fun _ h _ => h
  intro done tr rest _ k hsplit hdone hk
  have hlentr := hlen tr (hsplit ▸ List.mem_append_right _ List.mem_cons_self)
  have hdiff : tr.e1 - tr.b1 = d := by
    rw [hlentr.1]
    omega
  refine Meets.ask trivial fun rts hrts => ?_
  cases rts with
  | error er => trivial
  | ok rts =>
    have hrts := hrts rts rfl
    refine Meets.ask trivial fun trr htrr => ?_
    obtain ⟨hres, -⟩ | ⟨hres, hno⟩ := htrr
    · rw [if_neg (not_not.mpr hres), forEach_tryTime]
      refine meets_tryEach (fun _ => trivial) (fun a ha hne => absurd ha hne) fun hlost => hk () ?_
      intro tr' htr'
      obtain htr' | htr' := List.mem_append.mp htr'
      · exact hdone tr' htr'
      · rw [List.mem_singleton.mp htr']
        intro x hx hfeasible
        rw [hdiff] at hlost
        by_cases htried : x ∈ triedTimes divisor tr rts
        · rw [triedTimes, hdiff] at htried
          exact hlost x htried hfeasible
        · obtain ⟨y, hy, -, -, hsub⟩ := overlapped_of_not_tried hd hlentr hrts hx htried
          rw [triedTimes, hdiff] at hy
          exact hlost y hy (hf hsub hfeasible)
    · -- the request cannot be mapped without any reservations
      rw [if_pos (by rw [hres]; decide)]
      exact fun _ tr' _ x _ hfeasible => hno (hf (Set.empty_subset _) hfeasible)

variable (clock username divisor reservations) in
/-- A slot that is not tried overlaps at least what the last slot tried overlaps. Where a slot is feasible whenever one
is that overlaps more, no reservation is made only if no slot is feasible. -/
theorem tryRanges_skips (hd : 0 < d) {possibleTimes : List TimeRange} (hlen : ∀ tr ∈ possibleTimes, tr.HasLength d) :
    (∀ tr ∈ possibleTimes, ∀ rts, (∀ r, r ∈ rts ↔ r ∈ overlapped reservations tr.b1 tr.e2) →
      ∀ x ∈ startTimes tr (60 / divisor * 60), x ∉ triedTimes divisor tr rts → ∃ k ∈ triedTimes divisor tr rts,
        k < x ∧ (∀ y ∈ triedTimes divisor tr rts, y < x → y ≤ k) ∧
          overlapped reservations k (k + d) ⊆ overlapped reservations x (x + d)) ∧
    ∀ feasible : Set Restime → Prop, Antitone feasible → ∀ events resp,
      (tryRanges clock username divisor possibleTimes).Run events resp →
      (∀ q b, .answer q b ∈ events → Scheduled reservations feasible q b) → resp.result ≠ 1 →
        ∀ tr ∈ possibleTimes, ∀ x ∈ startTimes tr (60 / divisor * 60),
          ¬feasible (overlapped reservations x (x + d)) := by
  refine ⟨fun tr htr rts hrts x hx hskip => overlapped_of_not_tried hd (hlen tr htr) hrts hx hskip, ?_⟩
  intro feasible hf events resp hrun hanswers
  exact ((meets_tryRanges hd hlen hf).run hrun hanswers).1

/-- Two hours from midnight or half an hour later. -/
def halfHour : TimeRange := ⟨0, 1800, 7200, 9000⟩

/-- From one to three. -/
def oneToThree : Restime := ⟨3600, 10800, by decide⟩

theorem halfHour_antitone : Antitone fun reservations : Set Restime => reservations = ∅ :=
  fun _ _ hsub h => Set.subset_empty_iff.mp (h ▸ hsub)

theorem overlapped_halfHour : overlapped [oneToThree] 0 7200 ≠ ∅ :=
  Set.nonempty_iff_ne_empty.mp ⟨oneToThree, List.mem_cons_self, by decide, by decide⟩

theorem triedTimes_halfHour : triedTimes 2 halfHour [oneToThree] = [0] := by
  have htoi : timesOfInterest halfHour [oneToThree] = [3600] := by
    show ([3600].mergeSort fun a b => decide (a ≤ b)).dedup = [3600]
    rw [List.mergeSort_singleton]
    rfl
  rw [triedTimes, htoi]
  rfl

def quietClock : Clock := ⟨0, fun _ => ""⟩

theorem run_halfHour : (tryRanges quietClock "user" 2 [halfHour]).Run
    [.answer (.allTimes 0 9000) (.ok [oneToThree]), .answer (.tryReservation "user" 0 7200 "pending" true) ⟨1, ""⟩,
      .answer (.tryReservation "user" 0 7200 "pending" false) ⟨0, ""⟩, .released]
    ⟨0, "too many resources used by others during those times"⟩ := by
  refine .answer _ (.answer _ ?_)
  have htried := triedTimes_halfHour
  unfold triedTimes at htried
  rw [if_neg (by decide), forEach_tryTime, htried]
  exact .answer _ (.released .ret)

/-- The second slot is not tried, and no reservation is made. -/
theorem tryRanges_halfHour :
    (∃ k ∈ triedTimes 2 halfHour [oneToThree], k < 1800 ∧
      (∀ y ∈ triedTimes 2 halfHour [oneToThree], y < 1800 → y ≤ k) ∧
        overlapped [oneToThree] k (k + 7200) ⊆ overlapped [oneToThree] 1800 (1800 + 7200)) ∧
    ∀ tr ∈ [halfHour], ∀ x ∈ startTimes tr (60 / 2 * 60), ¬overlapped [oneToThree] x (x + 7200) = ∅ := by
  obtain ⟨hskip, hlost⟩ := tryRanges_skips quietClock "user" 2 [oneToThree] (by decide : (0 : ℤ) < 7200)
    (fun tr htr => by rw [List.mem_singleton.mp htr]; exact ⟨by decide, by decide⟩ :
      ∀ tr ∈ [halfHour], tr.HasLength 7200)
  constructor
  · refine hskip halfHour List.mem_cons_self [oneToThree] (fun r => ?_) 1800 (by decide)
      (by rw [triedTimes_halfHour]; decide)
    constructor
    · intro hr
      obtain rfl := List.mem_singleton.mp hr
      exact ⟨hr, by decide, by decide⟩
    · exact fun hr => hr.1
  · refine hlost _ halfHour_antitone _ _ run_halfHour ?_ (by decide)
    intro q b hqb
    obtain hqb | hqb := List.mem_cons.mp hqb
    · cases hqb
      intro l hl r
      cases hl
      constructor
      · intro hr
        obtain rfl := List.mem_singleton.mp hr
        exact ⟨hr, by decide, by decide⟩
      · exact fun hr => hr.1
    · obtain hqb | hqb := List.mem_cons.mp hqb
      · cases hqb
        exact .inl ⟨rfl, rfl⟩
      · obtain hqb | hqb := List.mem_cons.mp hqb
        · cases hqb
          exact .inr ⟨rfl, overlapped_halfHour⟩
        · cases List.mem_singleton.mp hqb

end OnlDaemons.Onldb

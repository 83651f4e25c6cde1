import Mathlib.Algebra.Order.Ring.Int
import Mathlib.Data.List.Induction
import Mathlib.Data.List.TakeWhile
import Mathlib.Tactic.Common

/-!
# Start ranges of a reservation

`make_reservation` keeps the times at which a session may start as a list of ranges, and takes
out of them the times at which the user already has a reservation. It walks the overlapping
reservations once, in the order of their begin times, and keeps only the end of the last
reservation that ended in the range as the left edge of what is left.

Times are seconds; the conversion to and from the database's local times is left out.

## Main definitions

- `subtractLoop`, `subtractRange`, `removeExisting` — the loops of `make_reservation`
- `Exact` — when the walk over one range leaves exactly the times without a conflict
-/

namespace OnlDaemons.Onldb

/-- `struct time_range`: start times from `b1` to `b2`, with the end times `e1` and `e2` that
belong to the first and the last of them. -/
structure TimeRange where
  b1 : ℤ
  b2 : ℤ
  e1 : ℤ
  e2 : ℤ
deriving DecidableEq, Repr

/-- `restimes`: a row of the reservations table. Reservations are written with a positive
length. -/
structure Restime where
  rb : ℤ
  re : ℤ
  rb_lt : rb < re
deriving DecidableEq

def addTime (time seconds : ℤ) : ℤ := time + seconds

def subTime (time seconds : ℤ) : ℤ := time - seconds

/-- What the walk over the reservations of one range carries: the range itself, the flag
`add_left_over` and the ranges already put on `new_possible_times`. -/
structure Walk where
  tr : TimeRange
  addLeftOver : Bool
  newPossibleTimes : List TimeRange

/-- If the reservation begins after the first possible end time, there is some time before it. -/
def Walk.timeBefore (w : Walk) (restime : Restime) : Walk :=
  if w.tr.b1 < restime.rb ∧ restime.rb ≥ w.tr.e1 then
    { w with newPossibleTimes := w.newPossibleTimes ++
        [⟨w.tr.b1, subTime w.tr.b2 (w.tr.e2 - restime.rb), w.tr.e1, restime.rb⟩] }
  else w

/-- If the reservation ends by the last start time, there is some time after it. -/
def Walk.timeAfter (w : Walk) (restime : Restime) : Walk :=
  if w.tr.e2 > restime.re ∧ restime.re ≤ w.tr.b2 then
    { w with
      tr := { w.tr with
        e1 := addTime w.tr.e1 (restime.re - w.tr.b1)
        b1 := restime.re }
      addLeftOver := true }
  else w

/-- The loop over the reservations that overlap the range. It stops at a reservation that
makes the range unusable. -/
def subtractLoop (w : Walk) : List Restime → Walk
  | [] => w
  | restime :: rts =>
    let w := (w.timeBefore restime).timeAfter restime
    if w.tr.e1 ≥ restime.rb ∧ w.tr.b2 < restime.re then { w with addLeftOver := false }
    else subtractLoop w rts

/-- The ranges the walk leaves, the left over one included. -/
def Walk.finish (w : Walk) : List TimeRange :=
  if w.addLeftOver then w.newPossibleTimes ++ [w.tr] else w.newPossibleTimes

/-- The query for the reservations that overlap the range. -/
def overlapping (tr : TimeRange) (reservations : List Restime) : List Restime :=
  reservations.filter (fun r => r.rb < tr.e2 ∧ tr.b1 < r.re)

def subtractRange (reservations : List Restime) (tr : TimeRange) : List TimeRange :=
  let rts := overlapping tr reservations
  if rts = [] then [tr] else (subtractLoop ⟨tr, false, []⟩ rts).finish

/-- The loop over the possible ranges. -/
def removeExisting (reservations : List Restime) (possibleTimes : List TimeRange) :
    List TimeRange :=
  possibleTimes.flatMap (subtractRange reservations)

/-- The start times of a range. -/
def TimeRange.Has (tr : TimeRange) (s : ℤ) : Prop := tr.b1 ≤ s ∧ s ≤ tr.b2

instance (tr : TimeRange) (s : ℤ) : Decidable (tr.Has s) := inferInstanceAs (Decidable (_ ∧ _))

def InRanges (l : List TimeRange) (s : ℤ) : Prop := ∃ tr ∈ l, tr.Has s

/-- The end times of the range belong to a session of length `d`. -/
def TimeRange.HasLength (d : ℤ) (tr : TimeRange) : Prop := tr.e1 = tr.b1 + d ∧ tr.e2 = tr.b2 + d

/-- A session of length `d` that starts at `s` overlaps none of the reservations. -/
def ConflictFree (d : ℤ) (reservations : List Restime) (s : ℤ) : Prop :=
  ∀ r ∈ reservations, s + d ≤ r.rb ∨ r.re ≤ s

/-- The end of the last of the reservations that ends by the last start time of the range. -/
def leftEdge (tr : TimeRange) (l : List Restime) : ℤ :=
  l.foldl (fun e r => if r.re ≤ tr.b2 then r.re else e) tr.b1

/-- No reservation of the list ends the walk: a reservation does when it ends after the last
start time and leaves no time between the left edge and itself. -/
def Walked (d : ℤ) (tr : TimeRange) (l : List Restime) : Prop :=
  ∀ pre r post, l = pre ++ r :: post → r.re ≤ tr.b2 ∨ leftEdge tr pre + d < r.rb

/-- Wherever the walk leaves time between the left edge and a reservation, all reservations
that begin before that one have ended by the left edge; and if it comes to the end with time
left over, all reservations have. -/
def Exact (d : ℤ) (tr : TimeRange) (l : List Restime) : Prop :=
  (∀ pre r post, l = pre ++ r :: post → Walked d tr pre → leftEdge tr pre + d ≤ r.rb →
    ∀ q ∈ pre, q.rb < r.rb → q.re ≤ leftEdge tr pre) ∧
  (Walked d tr l → (∃ r ∈ l, r.re ≤ tr.b2) → ∀ q ∈ l, q.re ≤ leftEdge tr l)

variable {d s : ℤ} {tr : TimeRange} {reservations l pre post : List Restime} {r : Restime}

@[simp] theorem inRanges_nil (s : ℤ) : ¬ InRanges [] s := by simp [InRanges]

@[simp] theorem inRanges_cons (tr : TimeRange) (l : List TimeRange) (s : ℤ) :
    InRanges (tr :: l) s ↔ tr.Has s ∨ InRanges l s := by simp [InRanges]

@[simp] theorem inRanges_append (l l' : List TimeRange) (s : ℤ) :
    InRanges (l ++ l') s ↔ InRanges l s ∨ InRanges l' s := by
  simp [InRanges,or_and_right,exists_or]

@[simp] theorem leftEdge_nil (tr : TimeRange) : leftEdge tr [] = tr.b1 := rfl

theorem leftEdge_concat (tr : TimeRange) (l : List Restime) (r : Restime) :
    leftEdge tr (l ++ [r]) = if r.re ≤ tr.b2 then r.re else leftEdge tr l := by
  simp [leftEdge]

theorem walked_nil (d : ℤ) (tr : TimeRange) : Walked d tr [] := by simp [Walked]

theorem walked_concat : Walked d tr (l ++ [r]) ↔
    Walked d tr l ∧ (r.re ≤ tr.b2 ∨ leftEdge tr l + d < r.rb) := by
  constructor
  · intro h
    refine ⟨fun pre q post hl => h pre q (post ++ [r]) (by simp [hl]),h l r [] rfl⟩
  · rintro ⟨h,hr⟩ pre q post hl
    rcases List.eq_nil_or_concat post with rfl | ⟨post',q',rfl⟩
    · obtain ⟨rfl,hq⟩ := List.append_inj' hl rfl
      simp only [List.cons.injEq,and_true] at hq
      exact hq ▸ hr
    · have hl' : l ++ [r] = (pre ++ q :: post') ++ [q'] := by simpa using hl
      obtain ⟨hl'',_⟩ := List.append_inj' hl' rfl
      exact h pre q post' hl''

theorem Walked.prefix (post : List Restime) (h : Walked d tr (pre ++ post)) : Walked d tr pre :=
  fun p q p' hp => h p q (p' ++ post) (by simp [hp])

/-- The walk after the reservations of `pre`. -/
def walkAfter (d : ℤ) (tr : TimeRange) (pre : List Restime) (out : List TimeRange) : Walk where
  tr := ⟨leftEdge tr pre, tr.b2, leftEdge tr pre + d, tr.b2 + d⟩
  addLeftOver := pre.any (fun r => r.re ≤ tr.b2)
  newPossibleTimes := out

/-- The times the rest of the walk leaves, for the rest `post` of the reservations. -/
def Leaves (d : ℤ) (tr : TimeRange) (pre post : List Restime) (s : ℤ) : Prop :=
  (∃ p r q, post = p ++ r :: q ∧ Walked d tr (pre ++ p) ∧ leftEdge tr (pre ++ p) ≤ s ∧
    s + d ≤ r.rb) ∨
  (Walked d tr (pre ++ post) ∧ (∃ r ∈ pre ++ post, r.re ≤ tr.b2) ∧
    leftEdge tr (pre ++ post) ≤ s ∧ s ≤ tr.b2)

theorem leaves_cons (hw : Walked d tr pre) : Leaves d tr pre (r :: post) s ↔
    (leftEdge tr pre ≤ s ∧ s + d ≤ r.rb) ∨
      (Walked d tr (pre ++ [r]) ∧ Leaves d tr (pre ++ [r]) post s) := by
  simp only [Leaves,List.append_assoc,List.singleton_append]
  constructor
  · rintro (⟨p,q,p',hp,hwp,hl,hr⟩ | h)
    · cases p with
      | nil =>
        simp only [List.nil_append,List.cons.injEq] at hp
        rw [List.append_nil] at hl
        exact .inl ⟨hl,by rw [hp.1]; exact hr⟩
      | cons p₀ p =>
        simp only [List.cons_append,List.cons.injEq] at hp
        obtain ⟨rfl,rfl⟩ := hp
        refine .inr ⟨?_,.inl ⟨p,q,p',rfl,hwp,hl,hr⟩⟩
        exact Walked.prefix p (by simpa using hwp)
    · refine .inr ⟨?_,.inr h⟩
      exact Walked.prefix post (by simpa using h.1)
  · rintro (⟨hl,hr⟩ | ⟨_,⟨p,q,p',rfl,hwp,hl,hr⟩ | h⟩)
    · exact .inl ⟨[],r,post,rfl,by simpa using hw,by simpa using hl,hr⟩
    · exact .inl ⟨r :: p,q,p',rfl,hwp,hl,hr⟩
    · exact .inr h

/-- What `timeBefore` puts on the list are the start times of sessions that fit between the
left edge and the reservation. -/
theorem timeBefore_walkAfter (hd : 0 < d) (tr : TimeRange) (pre : List Restime)
    (r : Restime) (out : List TimeRange) : ∃ out',
    (walkAfter d tr pre out).timeBefore r = walkAfter d tr pre out' ∧
    ∀ s, InRanges out' s ↔ InRanges out s ∨ (leftEdge tr pre ≤ s ∧ s + d ≤ r.rb) := by
  unfold Walk.timeBefore
  split
  · next h =>
    refine ⟨_,rfl,fun s => ?_⟩
    simp only [walkAfter] at h
    simp only [walkAfter,inRanges_append,inRanges_cons,inRanges_nil,or_false,TimeRange.Has,subTime]
    exact or_congr_right (by omega)
  · next h =>
    refine ⟨out,rfl,fun s => ?_⟩
    simp only [walkAfter] at h
    exact (or_iff_left (by omega)).symm

theorem timeAfter_walkAfter (hd : 0 < d) (tr : TimeRange) (pre : List Restime)
    (r : Restime) (out : List TimeRange) :
    (walkAfter d tr pre out).timeAfter r = walkAfter d tr (pre ++ [r]) out := by
  unfold Walk.timeAfter walkAfter
  rw [leftEdge_concat]
  by_cases hre : r.re ≤ tr.b2
  · rw [if_pos ⟨show tr.b2 + d > r.re by omega,hre⟩,if_pos hre]
    simp only [addTime,List.any_append,List.any_cons,hre,decide_true,List.any_nil,Bool.or_false,
      Bool.or_true,Walk.mk.injEq,TimeRange.mk.injEq,true_and,and_true]
    omega
  · rw [if_neg (fun h => hre h.2),if_neg hre]
    simp [hre]

/-- The walk from a point no reservation has ended it before. -/
theorem inRanges_subtractLoop (hd : 0 < d) (hw : Walked d tr pre) (out : List TimeRange) :
    InRanges (subtractLoop (walkAfter d tr pre out) post).finish s ↔
      InRanges out s ∨ Leaves d tr pre post s := by
  induction post generalizing pre out with
  | nil =>
    have hl : Leaves d tr pre [] s ↔
        (∃ r ∈ pre, r.re ≤ tr.b2) ∧ leftEdge tr pre ≤ s ∧ s ≤ tr.b2 := by
      simp [Leaves,hw]
    rw [hl]
    simp only [subtractLoop,walkAfter,Walk.finish,List.any_eq_true,decide_eq_true_eq]
    split
    · next h => simp [h,TimeRange.Has]
    · next h => simp [h]
  | cons r post ih =>
    obtain ⟨out',hbefore,hout⟩ := timeBefore_walkAfter hd tr pre r out
    rw [leaves_cons hw,← or_assoc,← hout,subtractLoop,hbefore,timeAfter_walkAfter hd]
    have hstop : ((walkAfter d tr (pre ++ [r]) out').tr.e1 ≥ r.rb ∧
        (walkAfter d tr (pre ++ [r]) out').tr.b2 < r.re) ↔
        ¬ (r.re ≤ tr.b2 ∨ leftEdge tr pre + d < r.rb) := by
      have hlt := r.rb_lt
      simp only [walkAfter,leftEdge_concat]
      split <;> omega
    by_cases hends : r.re ≤ tr.b2 ∨ leftEdge tr pre + d < r.rb
    · have hwc := walked_concat.mpr ⟨hw,hends⟩
      rw [if_neg (fun h => hstop.mp h hends),ih hwc]
      simp only [hwc,true_and]
    · have hnw : ¬ Walked d tr (pre ++ [r]) := fun h => hends (walked_concat.mp h).2
      rw [if_pos (hstop.mpr hends)]
      simp only [hnw,false_and,or_false]
      rfl

/-- The start times the walk over one range leaves. -/
theorem inRanges_subtractRange (hd : 0 < d) (hlen : tr.HasLength d)
    (hne : overlapping tr reservations ≠ []) :
    InRanges (subtractRange reservations tr) s ↔
      Leaves d tr [] (overlapping tr reservations) s := by
  have hstart : (⟨tr, false, []⟩ : Walk) = walkAfter d tr [] [] := by
    simp only [walkAfter,leftEdge_nil,List.any_nil,← hlen.1,← hlen.2]
  rw [subtractRange,if_neg hne,hstart,inRanges_subtractLoop hd (walked_nil d tr)]
  simp

theorem le_leftEdge (h : ∀ r ∈ l, tr.b1 < r.re) : tr.b1 ≤ leftEdge tr l := by
  induction l using List.reverseRecOn with
  | nil => exact le_rfl
  | append_singleton l r ih =>
    rw [leftEdge_concat]
    split
    · exact (h r (by simp)).le
    · exact ih fun q hq => h q (List.mem_append_left _ hq)

/-- The left edge is at most `s` while the reservations have ended by `s`. -/
theorem leftEdge_le (hs : tr.b1 ≤ s) (h : ∀ r ∈ l, r.re ≤ s) : leftEdge tr l ≤ s := by
  induction l using List.reverseRecOn with
  | nil => exact hs
  | append_singleton l r ih =>
    rw [leftEdge_concat]
    split
    · exact h r (by simp)
    · exact ih fun q hq => h q (List.mem_append_left _ hq)

theorem mem_overlapping : r ∈ overlapping tr reservations ↔
    r ∈ reservations ∧ r.rb < tr.e2 ∧ tr.b1 < r.re := by
  simp [overlapping]

/-- Only overlapping reservations matter for the start times of the range. -/
theorem conflictFree_overlapping (hlen : tr.HasLength d) (hs : tr.Has s) :
    ConflictFree d (overlapping tr reservations) s ↔ ConflictFree d reservations s := by
  obtain ⟨_,h2⟩ := hlen
  obtain ⟨hb1,hb2⟩ := hs
  constructor
  · intro h r hr
    by_cases ho : r.rb < tr.e2 ∧ tr.b1 < r.re
    · exact h r (mem_overlapping.mpr ⟨hr,ho⟩)
    · omega
  · exact fun h r hr => h r (mem_overlapping.mp hr).1

/-- The walk never leaves the range. -/
theorem subtractRange_sub (hd : 0 < d) (hlen : tr.HasLength d)
    (h : InRanges (subtractRange reservations tr) s) : tr.Has s := by
  by_cases hne : overlapping tr reservations = []
  · simpa [subtractRange,hne,InRanges] using h
  rw [inRanges_subtractRange hd hlen hne] at h
  have hmem : ∀ r ∈ overlapping tr reservations,
      r ∈ reservations ∧ r.rb < tr.e2 ∧ tr.b1 < r.re := fun r => mem_overlapping.mp
  rcases h with ⟨p,r,q,hl,_,h1,h2⟩ | ⟨_,_,h1,h2⟩
  · have hb : tr.b1 ≤ leftEdge tr p :=
      le_leftEdge fun q' hq' => (hmem q' (hl ▸ List.mem_append_left _ hq')).2.2
    have hr := (hmem r (hl ▸ List.mem_append_right _ List.mem_cons_self)).2.1
    have := hlen.2
    simp only [List.nil_append] at h1
    exact ⟨by omega,by omega⟩
  · have hb : tr.b1 ≤ leftEdge tr (overlapping tr reservations) :=
      le_leftEdge fun q' hq' => (hmem q' hq').2.2
    simp only [List.nil_append] at h1
    exact ⟨by omega,h2⟩

/-- No start time without a conflict is lost. -/
theorem subtractRange_complete (hd : 0 < d) (hlen : tr.HasLength d) (hs : tr.Has s)
    (hc : ConflictFree d reservations s) : InRanges (subtractRange reservations tr) s := by
  by_cases hne : overlapping tr reservations = []
  · simpa [subtractRange,hne,InRanges] using hs
  rw [inRanges_subtractRange hd hlen hne]
  have hc' := (conflictFree_overlapping hlen hs).mpr hc
  generalize overlapping tr reservations = rts at hne hc'
  -- the reservations up to the first that has not ended by `s`
  have hbefore : ∀ r ∈ rts.takeWhile (fun r => r.re ≤ s), r.re ≤ s :=
    fun r hr => by simpa using List.mem_takeWhile_imp hr
  have hsplit := List.takeWhile_append_dropWhile (p := fun r : Restime => r.re ≤ s) (l := rts)
  generalize hp : rts.takeWhile (fun r => r.re ≤ s) = p at hbefore hsplit
  have hwalked : Walked d tr p := by
    intro pre r post hl
    exact .inl ((hbefore r (by simp [hl])).trans hs.2)
  have hedge : leftEdge tr p ≤ s := leftEdge_le hs.1 hbefore
  cases hq : rts.dropWhile (fun r => r.re ≤ s) with
  | nil =>
    rw [hq,List.append_nil] at hsplit
    subst hsplit
    obtain ⟨r,hr⟩ := List.exists_mem_of_ne_nil p hne
    exact .inr ⟨hwalked,⟨r,hr,(hbefore r hr).trans hs.2⟩,hedge,hs.2⟩
  | cons r q =>
    have hr : ¬ r.re ≤ s := by
      have := List.head_dropWhile_not (fun r : Restime => decide (r.re ≤ s))
        (l := rts) (by simp [hq])
      simpa [hq] using this
    rw [hq] at hsplit
    refine .inl ⟨p,r,q,hsplit.symm,hwalked,hedge,?_⟩
    exact (hc' r (hsplit ▸ List.mem_append_right p List.mem_cons_self)).resolve_right hr

theorem leftEdge_le_last (h : ∃ r ∈ l, r.re ≤ tr.b2) : leftEdge tr l ≤ tr.b2 := by
  induction l using List.reverseRecOn with
  | nil => simp at h
  | append_singleton l r ih =>
    rw [leftEdge_concat]
    split
    · assumption
    · next hr =>
      obtain ⟨q,hq,hqb⟩ := h
      rcases List.mem_append.mp hq with hq | hq
      · exact ih ⟨q,hq,hqb⟩
      · rw [List.mem_singleton.mp hq] at hqb
        exact absurd hqb hr

/-- The walk leaves only start times without a conflict exactly when it is `Exact`. -/
theorem exact_iff (hd : 0 < d) (hover : ∀ r ∈ l, r.rb < tr.b2 + d)
    (hsorted : l.Pairwise (fun a b => a.rb ≤ b.rb)) :
    Exact d tr l ↔ ∀ s, Leaves d tr [] l s → ConflictFree d l s := by
  simp only [Leaves,List.nil_append]
  constructor
  · rintro ⟨hbefore,hend⟩ s (⟨p,r,q,rfl,hw,h1,h2⟩ | ⟨hw,hex,h1,_⟩) x hx
    · rcases List.mem_append.mp hx with hx | hx
      · by_cases hxr : x.rb < r.rb
        · exact .inr ((hbefore p r q rfl hw (by omega) x hx hxr).trans h1)
        · exact .inl (by omega)
      · have hso := (List.pairwise_append.mp hsorted).2.1
        rcases List.mem_cons.mp hx with rfl | hx
        · exact .inl h2
        · exact .inl (h2.trans ((List.pairwise_cons.mp hso).1 x hx))
    · exact .inr ((hend hw hex x hx).trans h1)
  · intro h
    constructor
    · intro pre r post hl hw hgap q hq hqr
      have hmem : q ∈ l := hl ▸ List.mem_append_left _ hq
      have hlt := q.rb_lt
      -- the last start time before `r`, and the last one before `q` ends
      have hlast := h (r.rb - d) (.inl ⟨pre,r,post,hl,hw,by omega,by omega⟩) q hmem
      by_contra hlate
      have hearly := h (q.re - 1) (.inl ⟨pre,r,post,hl,hw,by omega,by omega⟩) q hmem
      omega
    · intro hw hex q hq
      have hlt := q.rb_lt
      have hqe := hover q hq
      have hb := leftEdge_le_last hex
      by_contra hlate
      have hmin := h (min (q.re - 1) tr.b2) (.inr ⟨hw,hex,by omega,by omega⟩) q hq
      omega

/-- The ranges that are left after the user's reservations were subtracted hold exactly the
start times of the given ranges without a conflict if and only if the walk over each range is
`Exact` for the reservations that overlap it. -/
theorem removeExisting_iff (d : ℤ) (hd : 0 < d) (possibleTimes : List TimeRange)
    (hlen : ∀ tr ∈ possibleTimes, tr.HasLength d) (reservations : List Restime)
    (hsorted : reservations.Pairwise (fun a b => a.rb ≤ b.rb)) :
    (∀ s, InRanges (removeExisting reservations possibleTimes) s ↔
      InRanges possibleTimes s ∧ ConflictFree d reservations s) ↔
    ∀ tr ∈ possibleTimes, Exact d tr (overlapping tr reservations) := by
  have hflat : ∀ s, InRanges (removeExisting reservations possibleTimes) s ↔
      ∃ tr ∈ possibleTimes, InRanges (subtractRange reservations tr) s := by
    intro s
    simp only [InRanges,removeExisting,List.mem_flatMap]
    tauto
  have hexact : ∀ tr ∈ possibleTimes, Exact d tr (overlapping tr reservations) ↔
      ∀ s, Leaves d tr [] (overlapping tr reservations) s →
        ConflictFree d (overlapping tr reservations) s := by
    intro tr htr
    refine exact_iff hd (fun r hr => ?_) (hsorted.filter _)
    rw [← (hlen tr htr).2]
    exact (mem_overlapping.mp hr).2.1
  constructor
  · intro h tr htr
    by_cases hne : overlapping tr reservations = []
    · rw [hne]
      exact ⟨by simp,by simp⟩
    rw [hexact tr htr]
    intro s hs
    have hin := (inRanges_subtractRange hd (hlen tr htr) hne).mpr hs
    have hhas := subtractRange_sub hd (hlen tr htr) hin
    rw [conflictFree_overlapping (hlen tr htr) hhas]
    exact ((h s).mp ((hflat s).mpr ⟨tr,htr,hin⟩)).2
  · intro h s
    rw [hflat]
    constructor
    · rintro ⟨tr,htr,hin⟩
      have hhas := subtractRange_sub hd (hlen tr htr) hin
      refine ⟨⟨tr,htr,hhas⟩,?_⟩
      rw [← conflictFree_overlapping (hlen tr htr) hhas]
      by_cases hne : overlapping tr reservations = []
      · rw [hne]
        exact fun _ hr => absurd hr List.not_mem_nil
      · exact (hexact tr htr).mp (h tr htr) s ((inRanges_subtractRange hd (hlen tr htr) hne).mp hin)
    · rintro ⟨⟨tr,htr,hhas⟩,hc⟩
      exact ⟨tr,htr,subtractRange_complete hd (hlen tr htr) hhas hc⟩

/-- Ten hours of start times for a session of two hours. -/
def tenHours : TimeRange := ⟨0, 36000, 7200, 43200⟩

/-- One reservation inside the range cuts it into the times before and the times after it. -/
theorem removeExisting_one :
    {s | InRanges (removeExisting [⟨18000, 25200, by decide⟩] [tenHours]) s} =
      {s | InRanges [tenHours] s ∧ ConflictFree 7200 [⟨18000, 25200, by decide⟩] s} := by
  ext s
  refine (removeExisting_iff 7200 (by decide) [tenHours] (by simp [TimeRange.HasLength,tenHours])
    [⟨18000,25200,by decide⟩] (List.pairwise_singleton _ _)).mpr ?_ s
  intro tr htr
  rw [List.mem_singleton.mp htr]
  constructor
  · intro pre r post hl _ _ q hq
    have hlen := congrArg List.length hl
    have hone : (overlapping tenHours [⟨18000,25200,by decide⟩]).length = 1 := rfl
    simp only [hone,List.length_append,List.length_cons] at hlen
    rw [List.length_eq_zero_iff.mp (show pre.length = 0 by omega)] at hq
    exact absurd hq List.not_mem_nil
  · intro _ _
    decide

/-- After an hour that ends inside the range comes a reservation that ends after it: the walk
goes on behind it and leaves the whole rest of the range. -/
theorem removeExisting_unsound :
    ¬ ∀ s, InRanges (removeExisting [⟨0, 3600, by decide⟩,⟨18000, 72000, by decide⟩] [tenHours]) s ↔
      InRanges [tenHours] s ∧
        ConflictFree 7200 [⟨0, 3600, by decide⟩,⟨18000, 72000, by decide⟩] s := by
  intro h
  have hleft : removeExisting [⟨0, 3600, by decide⟩,⟨18000, 72000, by decide⟩] [tenHours] =
      [⟨3600, 10800, 10800, 18000⟩,⟨3600, 36000, 10800, 43200⟩] := by decide
  have hs := (h 20000).mp (by rw [hleft]; exact ⟨_,List.mem_cons_of_mem _ List.mem_cons_self,by decide⟩)
  exact absurd (hs.2 ⟨18000,72000,by decide⟩ (by simp)) (by decide)

end OnlDaemons.Onldb

import Mathlib
import OnlDaemons.Lib.Run
import OnlDaemons.Npr.IndexList

/-!
# Free index lists over runs, with the arithmetic of `unsigned int`

`get_free_index` and `add_free_index` compute `left + 1`, `index - 1` and `index + 1` on 32-bit
numbers. The bottom layer here follows that arithmetic; the lists of `IndexList` are what it
does as long as nothing wraps.

## Main definitions

- `getFreeIndex`, `addFreeIndex` — the two functions with wrapping arithmetic
- `Wraps` — index 0 is put before a first range that ends at the largest number
- `Pool`, `step` — a list, the indices taken from it, and one call
- `Sound`, `Exact` — what a state and a step keep of the list as a set

## Main results

- `addFreeIndex_eq` — without a wrap the function is the one of `IndexList`
- `behaves_as_set` — over every run the list is a set of indices
-/

namespace OnlDaemons.Npr.FreeLists
open OnlDaemons.Lib OnlDaemons.Lib.RangeList

/-- `index + 1` on `unsigned int`. -/
def succ (index : ℕ) : ℕ := (index + 1) % 2 ^ 32

/-- `index - 1` on `unsigned int`. -/
def pred (index : ℕ) : ℕ := (index + (2 ^ 32 - 1)) % 2 ^ 32

/-- `Configuration::get_free_index`; `none` is the exception "no more free TCAM entries". -/
def getFreeIndex : IndexList → Option (ℕ × IndexList)
  | [] => none
  | head :: next =>
    if head.left ≠ head.right then some (head.left, ⟨succ head.left, head.right⟩ :: next)
    else some (head.left, next)

/-- `add_free_index` once its loop has moved past `last`, which is not `node` then. -/
def addFreeIndexAfter (last : Range) (index : ℕ) : IndexList → IndexList
  | [] =>
    if last.right = pred index then [⟨last.left, index⟩] else [last, ⟨index, index⟩]
  | node :: next =>
    if node.right < index then last :: addFreeIndexAfter node index next
    else if last.right = pred index then
      if node.left = succ index then ⟨last.left, node.right⟩ :: next
      else ⟨last.left, index⟩ :: node :: next
    else if node.left = succ index then last :: ⟨index, node.right⟩ :: next
    else last :: ⟨index, index⟩ :: node :: next

/-- `Configuration::add_free_index`; `none` where the head is deleted while the list still
starts with it. -/
def addFreeIndex (index : ℕ) : IndexList → Option IndexList
  | [] => some [⟨index, index⟩]
  | head :: next =>
    if head.right < index then some (addFreeIndexAfter head index next)
    else if head.right = pred index then
      -- `last` and `node` are both the head, whose `right` has just been set
      if head.left = succ index then none else some (⟨head.left, index⟩ :: next)
    else if head.left = succ index then some (⟨index, head.right⟩ :: next)
    else some (⟨index, index⟩ :: head :: next)

/-- No range of the list touches another. -/
def Apart (l : IndexList) : Prop := l.Pairwise fun r s => r.right + 1 < s.left

/-- Index 0 is given back to a list whose first range ends at the largest number: `index - 1`
is that number. -/
def Wraps (index : ℕ) (l : IndexList) : Prop :=
  index = 0 ∧ ∃ head ∈ l.head?, head.right = 2 ^ 32 - 1

instance (l : IndexList) : Decidable (Apart l) :=
  inferInstanceAs (Decidable (l.Pairwise _))

@[simp] theorem apart_nil : Apart [] := by simp [Apart]

theorem apart_cons (r : Range) (l : IndexList) :
    Apart (r :: l) ↔ (∀ s ∈ l, r.right + 1 < s.left) ∧ Apart l := by simp [Apart]

theorem getFreeIndex_eq {l : IndexList} (ho : Ordered l) (hw : Within l 0 (2 ^ 32 - 1)) :
    getFreeIndex l = Npr.getFreeIndex l := by
  cases l with
  | nil => rfl
  | cons head next =>
    have hne := ((ordered_cons _ _).mp ho).1
    have hmax := ((within_cons _ _ _ _).mp hw).1.2
    simp only [getFreeIndex,Npr.getFreeIndex]
    split_ifs with hlr
    · rw [show succ head.left = head.left + 1 from Nat.mod_eq_of_lt (by omega)]
    · rfl

/-- Past the first range `index` is not 0, and it is not the largest number where a range
comes after it. -/
theorem addFreeIndexAfter_eq {last : Range} {index : ℕ} {l : IndexList}
    (ho : Ordered (last :: l)) (hw : Within (last :: l) 0 (2 ^ 32 - 1)) (hx : index < 2 ^ 32)
    (hi : last.right < index) (hn : ¬Covers l index) :
    addFreeIndexAfter last index l = Npr.addFreeIndexAfter last index l := by
  have hpred : last.right = pred index ↔ last.right + 1 = index := by
    unfold pred
    omega
  induction l generalizing last with
  | nil => simp only [addFreeIndexAfter,Npr.addFreeIndexAfter,hpred]
  | cons node next ih =>
    have hrest := ho.tail
    have hwrest := ((within_cons _ _ _ _).mp hw).2
    have hne := ((ordered_cons _ _).mp hrest).1
    have hmax := ((within_cons _ _ _ _).mp hwrest).1.2
    simp only [covers_cons,not_or] at hn
    simp only [addFreeIndexAfter,Npr.addFreeIndexAfter,hpred]
    by_cases hgo : node.right < index
    · rw [if_pos hgo,if_pos hgo]
      have hnext : node.right = pred index ↔ node.right + 1 = index := by
        unfold pred
        omega
      rw [ih hrest hwrest hgo hn.2 hnext]
    · have hsucc : node.left = succ index ↔ node.left = index + 1 := by
        unfold succ
        omega
      simp only [if_neg hgo,hsucc]

/-- Giving back an index that is not free does what the list without wrapping does, in every
case but one. -/
theorem addFreeIndex_eq {index : ℕ} {l : IndexList} (ho : Ordered l)
    (hw : Within l 0 (2 ^ 32 - 1)) (hx : index < 2 ^ 32) (hn : ¬Covers l index)
    (hc : ¬Wraps index l) : addFreeIndex index l = some (Npr.addFreeIndex index l) := by
  cases l with
  | nil => rfl
  | cons head next =>
    have hne := ((ordered_cons _ _).mp ho).1
    have hmax := ((within_cons _ _ _ _).mp hw).1.2
    have hcorner : ¬(index = 0 ∧ head.right = 2 ^ 32 - 1) := by simpa [Wraps] using hc
    simp only [covers_cons,not_or] at hn
    simp only [addFreeIndex,Npr.addFreeIndex]
    by_cases hgo : head.right < index
    · rw [if_pos hgo,if_pos hgo,addFreeIndexAfter_eq ho hw hx hgo hn.2]
    · have hpred : head.right ≠ pred index := by
        unfold pred
        omega
      have hsucc : head.left = succ index ↔ head.left = index + 1 := by
        unfold succ
        omega
      rw [if_neg hgo,if_neg hgo,if_neg hpred]
      by_cases hjoin : head.left = index + 1
      · rw [if_pos (hsucc.mpr hjoin),if_pos hjoin]
      · rw [if_neg (fun h => hjoin (hsucc.mp h)),if_neg hjoin]

/-- Taking the left end of the first range brings no two ranges together. -/
theorem getFreeIndex_apart {l l' : IndexList} {i : ℕ} (ha : Apart l)
    (h : Npr.getFreeIndex l = some (i, l')) : Apart l' := by
  cases l with
  | nil => simp [Npr.getFreeIndex] at h
  | cons head next =>
    rw [apart_cons] at ha
    simp only [Npr.getFreeIndex] at h
    split at h
    · simp only [Option.some.injEq,Prod.mk.injEq] at h
      obtain ⟨rfl,rfl⟩ := h
      exact (apart_cons _ _).mpr ha
    · simp only [Option.some.injEq,Prod.mk.injEq] at h
      obtain ⟨rfl,rfl⟩ := h
      exact ha.2

/-- An index next to a range joins it, and one between two ranges joins both. -/
theorem addFreeIndexAfter_apart {last : Range} {index : ℕ} {l : IndexList}
    (ho : Ordered (last :: l)) (ha : Apart (last :: l)) (hi : last.right < index)
    (hn : ¬Covers l index) : Apart (Npr.addFreeIndexAfter last index l) := by
  induction l generalizing last with
  | nil =>
    simp only [Npr.addFreeIndexAfter]
    split_ifs with hadj
    · simp [Apart]
    · simp only [apart_cons,List.forall_mem_singleton,apart_nil,and_true]
      exact ⟨by omega,by simp⟩
  | cons node next ih =>
    obtain ⟨hne,hlt,hrest⟩ := (ordered_cons _ _).mp ho
    obtain ⟨hnode,hnext,htail⟩ := (ordered_cons _ _).mp hrest
    obtain ⟨hgap,harest⟩ := (apart_cons _ _).mp ha
    obtain ⟨hgapn,hatail⟩ := (apart_cons _ _).mp harest
    have hfirst := hgap node List.mem_cons_self
    have hlast : ∀ r ∈ next, last.right + 1 < r.left := fun r hr =>
      hgap r (List.mem_cons_of_mem _ hr)
    simp only [covers_cons,not_or] at hn
    simp only [Npr.addFreeIndexAfter]
    split_ifs with hgo hadj hjoin hjoin
    · have hl := (addFreeIndexAfter_spec hrest hgo hn.2).2.1
      refine (apart_cons _ _).mpr ⟨fun r hr => ?_,ih hrest harest hgo hn.2⟩
      have := hl r hr
      omega
    · exact (apart_cons _ _).mpr ⟨hgapn,hatail⟩
    · simp only [apart_cons,List.forall_mem_cons]
      exact ⟨⟨by omega,fun r hr => by have := hgapn r hr; omega⟩,hgapn,hatail⟩
    · simp only [apart_cons,List.forall_mem_cons]
      exact ⟨⟨by omega,hlast⟩,hgapn,hatail⟩
    · simp only [apart_cons,List.forall_mem_cons]
      exact ⟨⟨by omega,hfirst,hlast⟩,⟨by omega,fun r hr => by have := hgapn r hr; omega⟩,
        hgapn,hatail⟩

theorem addFreeIndex_apart {index : ℕ} {l : IndexList} (ho : Ordered l) (ha : Apart l)
    (hn : ¬Covers l index) : Apart (Npr.addFreeIndex index l) := by
  cases l with
  | nil => simp [Npr.addFreeIndex,Apart]
  | cons head next =>
    obtain ⟨hne,hlt,htail⟩ := (ordered_cons _ _).mp ho
    obtain ⟨hgap,hatail⟩ := (apart_cons _ _).mp ha
    simp only [covers_cons,not_or] at hn
    simp only [Npr.addFreeIndex]
    split_ifs with hgo hjoin
    · exact addFreeIndexAfter_apart ho ha hgo hn.2
    · exact (apart_cons _ _).mpr ⟨hgap,hatail⟩
    · simp only [apart_cons,List.forall_mem_cons]
      exact ⟨⟨by omega,fun r hr => by have := hlt r hr; omega⟩,hgap,hatail⟩

/-! ### Runs -/

/-- A call and what comes back: `get_free_index` answers with an index or throws. -/
inductive Call
  | get (index : Option ℕ)
  | add (index : ℕ)
deriving DecidableEq, Repr

/-- A list and the indices taken from it that have not been given back. -/
structure Pool where
  free : IndexList
  taken : Finset ℕ

/-- One call; only a taken index is given back. -/
inductive step : Pool → Call → Pool → Prop
  | none {s : Pool} : getFreeIndex s.free = none → step s (.get none) s
  | get {s : Pool} {i : ℕ} {free : IndexList} : getFreeIndex s.free = some (i, free) →
      step s (.get (some i)) ⟨free, insert i s.taken⟩
  | add {s : Pool} {i : ℕ} {free : IndexList} : i ∈ s.taken → addFreeIndex i s.free = some free →
      step s (.add i) ⟨free, s.taken.erase i⟩

/-- A list and its taken indices before the first call: sorted disjoint ranges of 32-bit
numbers, none of them taken. -/
structure Start (s : Pool) : Prop where
  ordered : Ordered s.free
  within : Within s.free 0 (2 ^ 32 - 1)
  small : ∀ i ∈ s.taken, i < 2 ^ 32
  disjoint : ∀ i ∈ s.taken, ¬Covers s.free i

/-- What a state keeps of the state the run began in: the ranges are sorted and disjoint, and
every index is free or taken, not both, as it was. -/
structure Sound (s₀ s : Pool) : Prop extends Start s where
  all : ∀ i, Covers s.free i ∨ i ∈ s.taken ↔ Covers s₀.free i ∨ i ∈ s₀.taken

/-- What a call does to the set of free indices. -/
def Exact (s : Pool) : Call → Pool → Prop
  | .get none, t => s.free = [] ∧ t = s
  | .get (some i), t => Covers s.free i ∧ i ∉ s.taken ∧
      ∀ j, Covers t.free j ↔ Covers s.free j ∧ j ≠ i
  | .add i, t => ¬Covers s.free i ∧ ∀ j, Covers t.free j ↔ Covers s.free j ∨ j = i

/-- The step does not put 0 before a first range that ends at the largest number. -/
def NoWrap (s : Pool) : Call → Pool → Prop
  | .get _, _ => True
  | .add i, _ => ¬Wraps i s.free

instance (s : Pool) : (c : Call) → (t : Pool) → Decidable (NoWrap s c t)
  | .get _, _ => .isTrue trivial
  | .add i, _ => inferInstanceAs (Decidable ¬(i = 0 ∧ ∃ head ∈ s.free.head?, _))

/-- One call keeps the bookkeeping and changes the set of free indices by its own index. -/
theorem Sound.after {s₀ s t : Pool} {c : Call} (hs : Sound s₀ s) (ht : step s c t)
    (hc : NoWrap s c t) :
    Sound s₀ t ∧ Exact s c t ∧ (Apart s.free → Apart t.free) := by
  cases ht with
  | none hg =>
    have hnil : s.free = [] := by
      cases hf : s.free with
      | nil => rfl
      | cons head next =>
        rw [hf] at hg
        simp only [getFreeIndex] at hg
        split at hg <;> cases hg
    exact ⟨hs,⟨hnil,rfl⟩,id⟩
  | @get i free hg =>
    rw [getFreeIndex_eq hs.ordered hs.within] at hg
    obtain ⟨ho,hfree,hcov⟩ := getFreeIndex_spec hs.ordered hg
    obtain ⟨hw,_,hmax⟩ := getFreeIndex_within hs.ordered hs.within hg
    have hnot : i ∉ s.taken := fun h => hs.disjoint i h hfree
    refine ⟨⟨⟨ho,hw,?_,?_⟩,fun j => ?_⟩,⟨hfree,hnot,hcov⟩,fun ha => getFreeIndex_apart ha hg⟩
    · intro j hj
      obtain rfl | hj := Finset.mem_insert.mp hj
      · omega
      · exact hs.small j hj
    · intro j hj hcj
      obtain ⟨hcj,hne⟩ := (hcov j).mp hcj
      obtain rfl | hj := Finset.mem_insert.mp hj
      · exact hne rfl
      · exact hs.disjoint j hj hcj
    · rw [← hs.all j,hcov j,Finset.mem_insert]
      by_cases hji : j = i
      · subst hji
        simp [hfree]
      · simp [hji]
  | @add i free hi ha =>
    have hn := hs.disjoint i hi
    rw [addFreeIndex_eq hs.ordered hs.within (hs.small i hi) hn hc,Option.some.injEq] at ha
    subst ha
    obtain ⟨ho,hcov⟩ := addFreeIndex_spec hs.ordered hn
    refine ⟨⟨⟨ho,?_,?_,?_⟩,fun j => ?_⟩,⟨hn,fun j => (hcov j).trans or_comm⟩,
      fun hapart => addFreeIndex_apart hs.ordered hapart hn⟩
    · rw [within_iff ho]
      intro j hj
      obtain rfl | hj := (hcov j).mp hj
      · have := hs.small j hi
        omega
      · exact (within_iff hs.ordered).mp hs.within j hj
    · exact fun j hj => hs.small j (Finset.mem_of_mem_erase hj)
    · intro j hj hcj
      obtain ⟨hne,hj⟩ := Finset.mem_erase.mp hj
      exact ((hcov j).mp hcj).elim hne (hs.disjoint j hj)
    · rw [← hs.all j,hcov j,Finset.mem_erase]
      by_cases hji : j = i
      · subst hji
        simp [hi]
      · simp [hji]

/-- An index that is out is not handed out before it has been given back. -/
theorem Sound.held {s₀ s : Pool} {tr : List (Call × Pool)} (hr : IsRun step s tr)
    (hs : Sound s₀ s) (hc : EveryStep NoWrap s tr) {i : ℕ} (hi : i ∈ s.taken)
    (hn : ∀ t, (Call.add i, t) ∉ tr) : i ∈ (lastState s tr).taken := by
  induction tr generalizing s with
  | nil => exact hi
  | cons x tr ih =>
    obtain ⟨c,t⟩ := x
    have hstep := hr.1
    refine ih hr.2 (hs.after hr.1 hc.1).1 hc.2 ?_ fun t' h => hn t' (List.mem_cons_of_mem _ h)
    cases hstep with
    | none _ => exact hi
    | get _ => exact Finset.mem_insert_of_mem hi
    | @add j _ _ _ =>
      refine Finset.mem_erase.mpr ⟨?_,hi⟩
      rintro rfl
      exact hn _ List.mem_cons_self

/-- A taken index can always be given back. -/
theorem Start.add {s : Pool} (hs : Start s) {i : ℕ} (hi : i ∈ s.taken)
    (hc : ¬Wraps i s.free) : ∃ t, step s (.add i) t :=
  ⟨_,.add hi (addFreeIndex_eq hs.ordered hs.within (hs.small i hi) (hs.disjoint i hi) hc)⟩

/-- From any sorted list of disjoint ranges and in any run in which only taken indices are given
back, and 0 never to a list that starts with a range up to the largest number: the ranges stay
sorted and disjoint, and apart if they were so at the start; no index is lost or free and taken
at once; a call changes the set by exactly its index; and no index is handed out twice without
being given back in between. -/
theorem behaves_as_set {s₀ : Pool} {tr : List (Call × Pool)} (hs : Start s₀)
    (hr : IsRun step s₀ tr) (hc : EveryStep NoWrap s₀ tr) :
    EveryState (fun s => Sound s₀ s ∧ (Apart s₀.free → Apart s.free) ∧
      ∀ i ∈ s.taken, ¬Wraps i s.free → ∃ t, step s (.add i) t) s₀ tr ∧
    EveryStep Exact s₀ tr ∧
    ∀ i pre mid post t t', tr = pre ++ (.get (some i), t) :: (mid ++ (.get (some i), t') :: post) →
      ∃ u, (Call.add i, u) ∈ mid := by
  have hstart : Sound s₀ s₀ ∧ (Apart s₀.free → Apart s₀.free) :=
    ⟨⟨hs,fun _ => Iff.rfl⟩,id⟩
  have hkeep : ∀ s c t, Sound s₀ s ∧ (Apart s₀.free → Apart s.free) → step s c t →
      NoWrap s c t → Sound s₀ t ∧ (Apart s₀.free → Apart t.free) := by
    rintro s c t ⟨hsound,hapart⟩ ht hn
    obtain ⟨ht',_,ha⟩ := hsound.after ht hn
    exact ⟨ht',fun h => ha (hapart h)⟩
  have hall := hr.everyState hkeep hstart hc
  refine ⟨hall.mono fun s h => ⟨h.1,h.2,fun i hi hn => h.1.toStart.add hi hn⟩,
    hr.everyStep hkeep (fun s c t h ht hn => (h.1.after ht hn).2.1) hstart hc,?_⟩
  rintro i pre mid post t t' rfl
  by_contra hno
  have hno : ∀ u, (Call.add i, u) ∉ mid := fun u h => hno ⟨u,h⟩
  obtain ⟨hfirst,hrest⟩ := hr.of_append
  obtain ⟨hcfirst,hcrest⟩ := hc.of_append
  have hsound : Sound s₀ t := hall.of_append.2.head.1
  have htaken : i ∈ t.taken := by
    cases hfirst
    exact Finset.mem_insert_self _ _
  -- `i` is still out at the second call, which found it free
  have hmid : IsRun step t mid := hrest.of_prefix
  have hout := hsound.held hmid hcrest.of_prefix htaken hno
  have hsound' : Sound s₀ (lastState t mid) := hall.of_append.2.of_append.head.1
  have hlast := hrest.of_append.1
  have hclast := hcrest.of_append.1
  exact (hsound'.after hlast hclast).2.1.2.1 hout

/-- A run of one take and one return, both of 7. -/
theorem behaves_as_set_run :
    EveryStep Exact ⟨[⟨7, 9⟩], ∅⟩
      [(.get (some 7), ⟨[⟨8, 9⟩], {7}⟩), (.add 7, ⟨[⟨7, 9⟩], ∅⟩)] := by
  have hs : Start ⟨[⟨7, 9⟩], ∅⟩ := ⟨by decide,by decide,by decide,by decide⟩
  have hr : IsRun step ⟨[⟨7, 9⟩], ∅⟩
      [(.get (some 7), ⟨[⟨8, 9⟩], {7}⟩), (.add 7, ⟨[⟨7, 9⟩], ∅⟩)] :=
    ⟨.get rfl,.add (by decide) rfl,trivial⟩
  exact (behaves_as_set hs hr (by decide)).2.1

/-- Ranges that touch at the start go on touching, and an index before the largest numbers is
joined to them: giving back 0 to the list of 2 to the largest number leaves a range that ends
before it starts, and all its indices are lost. -/
theorem not_apart_or_not_sound :
    (∃ s₀ tr, Start s₀ ∧ IsRun step s₀ tr ∧ ¬Apart (lastState s₀ tr).free) ∧
    ∃ s₀ tr, Start s₀ ∧ Apart s₀.free ∧ IsRun step s₀ tr ∧ ¬Sound s₀ (lastState s₀ tr) := by
  refine ⟨⟨⟨[⟨1, 2⟩, ⟨3, 4⟩], ∅⟩,[(.get (some 1), ⟨[⟨2, 2⟩, ⟨3, 4⟩], {1}⟩)],?_,?_,by decide⟩,
    ⟨[⟨2, 2 ^ 32 - 1⟩], {0}⟩,[(.add 0, ⟨[⟨2, 0⟩], ∅⟩)],?_,by decide,?_,?_⟩
  · exact ⟨by decide,by decide,by decide,by decide⟩
  · exact ⟨.get rfl,trivial⟩
  · exact ⟨by decide,by decide,by decide,by decide⟩
  · exact ⟨.add (by decide) (by decide),trivial⟩
  · intro h
    exact absurd h.ordered (by decide)

end OnlDaemons.Npr.FreeLists

import OnlDaemons.Npr.ArpResults
import OnlDaemons.Npr.RouterRuns

/-!
# Additions that throw

`add_route`, `add_pfilter`, `add_afilter` and `add_arp` take a TCAM index, an SRAM index and, but for
ARP entries, an entry of the SRAM map before they write. None of them gives anything back when a
later part throws.

## Main definitions

- `Addition`, `Addition.run` — one of the four calls
- `Unchanged` — index lists, SRAM map and installed entries are as they were

## Main results

- `unchanged_iff` — when a call that throws leaves everything unchanged
-/

namespace OnlDaemons.Npr
open OnlDaemons.Lib OnlDaemons.Lib.RangeList

inductive Addition
  | route (key mask : RouteKey) (result : RouteResult)
  | pfilter (key mask : FilterKey) (priority : ℕ) (result : RouteResult)
  | afilter (key mask : FilterKey) (priority : ℕ) (result : AfilterResult)
  | arp (ipaddr hi16 low32 : ℕ)

/-- The call on the configuration; an ARP entry is not a call of `Op`. -/
def Addition.op (x : Exchange) : Addition → Option Op
  | .route key mask result => some (.addRoute key mask result x)
  | .pfilter key mask priority result => some (.addPfilter key mask priority result x)
  | .afilter key mask priority result => some (.addAfilter key mask priority result x)
  | .arp _ _ _ => none

/-- The addition with its exchange. With `arrived` the TCAM daemon has executed a command whose
exchange failed. -/
def Addition.run (sm : SearchMachine) (a : Addition) (x : Exchange) (arrived : Bool) (c : ArpConf) :
    Except String Unit × ArpConf :=
  match a with
  | .arp ipaddr hi16 low32 =>
    let (r, c') := addArp ipaddr hi16 low32 x c
    (r, if arrived then { c' with arpDb := (addArp ipaddr hi16 low32 x.arrived c).2.arpDb } else c')
  | a =>
    match a.op x with
    | some op => ((call sm op arrived c.conf).1, { c with conf := (call sm op arrived c.conf).2 })
    | none => (.ok (), c)

/-- The list the TCAM index is taken from; `none` if the priority is invalid. -/
def Addition.list (c : ArpConf) : Addition → Option IndexList
  | .route _ mask result => some (c.conf.free (addRoutePool mask result))
  | .pfilter _ _ priority _ => if priority > maxPriority then none else some (c.conf.free (.pfilters priority))
  | .afilter _ _ priority _ => if priority > maxPriority then none else some (c.conf.free (.afilters priority))
  | .arp _ _ _ => some c.conf.arps

/-- The free index lists, the SRAM map and the installed entries are as before. -/
structure Unchanged (c c' : ArpConf) : Prop where
  sramFreeList : c'.conf.sramFreeList = c.conf.sramFreeList
  free : c'.conf.free = c.conf.free
  arps : c'.conf.arps = c.conf.arps
  srmap : c'.conf.srmap = c.conf.srmap
  db : c'.conf.db = c.conf.db
  arpDb : c'.arpDb = c.arpDb

/-- A call that throws has changed nothing. -/
def Atomic (sm : SearchMachine) (a : Addition) (x : Exchange) (arrived : Bool) (c : ArpConf) : Prop :=
  ∀ text, (a.run sm x arrived c).1 = .error text → Unchanged c (a.run sm x arrived c).2

theorem unchanged_refl (c : ArpConf) : Unchanged c c := ⟨rfl,rfl,rfl,rfl,rfl,rfl⟩

theorem getFreeIndex_eq_none {l : IndexList} : getFreeIndex l = none ↔ l = [] := by
  cases l with
  | nil => simp [getFreeIndex]
  | cons head next =>
    simp only [getFreeIndex]
    split <;> simp

theorem ne_nil_of_getFreeIndex {l : IndexList} {il : ℕ × IndexList} (h : getFreeIndex l = some il) : l ≠ [] := by
  rintro rfl
  cases h

/-- An index that is taken is missing from the list. -/
theorem getFreeIndex_ne {l l' : IndexList} {i : ℕ} (h : getFreeIndex l = some (i, l')) : l' ≠ l := by
  cases l with
  | nil => cases h
  | cons head next =>
    simp only [getFreeIndex] at h
    split at h
    · cases h
      intro he
      have hleft := congrArg Range.left (List.cons_eq_cons.mp he).1
      simp at hleft
    · cases h
      exact fun he => absurd (congrArg List.length he) (by simp)

/-- A call that finds its TCAM list empty does nothing. Any other returns if there is an SRAM index and
its exchange is done, and else it throws with the TCAM index gone. -/
theorem call_add_outcome {sm : SearchMachine} {op : Op} {a : AddReq} {x : Exchange}
    {c : Configuration}
    (h : exec sm op c = addEntry a.d a.pool a.key a.mask a.word a.result x c)
    (h' : exec sm op.arrived c = addEntry a.d a.pool a.key a.mask a.word a.result x.arrived c)
    (arrived : Bool) :
    (c.free a.pool = [] ∧ (call sm op arrived c).2 = c) ∨
    c.free a.pool ≠ [] ∧
      (if c.sramFreeList ≠ [] ∧ x = .done then (call sm op arrived c).1 = .ok ()
      else (∃ text, (call sm op arrived c).1 = .error text) ∧
        (call sm op arrived c).2.free a.pool ≠ c.free a.pool) := by
  simp only [call,h,h',addEntry]
  cases hi : getFreeIndex (c.free a.pool) with
  | none =>
    refine .inl ⟨getFreeIndex_eq_none.mp hi,?_⟩
    cases arrived <;> rfl
  | some il =>
    obtain ⟨i,l⟩ := il
    -- whatever follows, the list is `l` then
    have hlost : Function.update c.free a.pool l a.pool ≠ c.free a.pool := by
      rw [Function.update_self]
      exact getFreeIndex_ne hi
    refine .inr ⟨ne_nil_of_getFreeIndex hi,?_⟩
    simp only [Configuration.setFree]
    cases hj : getFreeIndex c.sramFreeList with
    | none =>
      rw [if_neg fun hs => hs.1 (getFreeIndex_eq_none.mp hj)]
      cases arrived <;> exact ⟨⟨_,rfl⟩,hlost⟩
    | some jl =>
      cases x with
      | dead text =>
        rw [if_neg fun hs => by cases hs.2]
        cases arrived <;> exact ⟨⟨_,rfl⟩,hlost⟩
      | fault =>
        rw [if_neg fun hs => by cases hs.2]
        cases arrived <;> exact ⟨⟨_,rfl⟩,hlost⟩
      | done => rw [if_pos ⟨ne_nil_of_getFreeIndex hj,rfl⟩]

/-- The same for an ARP entry and the list of its own. -/
theorem addArp_outcome (ipaddr hi16 low32 : ℕ) (x : Exchange) (c : ArpConf) :
    (c.conf.arps = [] ∧ (addArp ipaddr hi16 low32 x c).2 = c) ∨
    c.conf.arps ≠ [] ∧
      (if c.conf.sramFreeList ≠ [] ∧ x = .done then (addArp ipaddr hi16 low32 x c).1 = .ok ()
      else (∃ text, (addArp ipaddr hi16 low32 x c).1 = .error text) ∧
        (addArp ipaddr hi16 low32 x c).2.conf.arps ≠ c.conf.arps) := by
  unfold addArp
  cases hi : getFreeIndex c.conf.arps with
  | none => exact .inl ⟨getFreeIndex_eq_none.mp hi,rfl⟩
  | some il =>
    obtain ⟨i,l⟩ := il
    refine .inr ⟨ne_nil_of_getFreeIndex hi,?_⟩
    simp only
    cases hj : getFreeIndex c.conf.sramFreeList with
    | none =>
      rw [if_neg fun hs => hs.1 (getFreeIndex_eq_none.mp hj)]
      exact ⟨⟨_,rfl⟩,getFreeIndex_ne hi⟩
    | some jl =>
      cases x with
      | dead text =>
        rw [if_neg fun hs => by cases hs.2]
        exact ⟨⟨_,rfl⟩,getFreeIndex_ne hi⟩
      | fault =>
        rw [if_neg fun hs => by cases hs.2]
        exact ⟨⟨_,rfl⟩,getFreeIndex_ne hi⟩
      | done => rw [if_pos ⟨ne_nil_of_getFreeIndex hj,rfl⟩]

/-- Once an index is taken, the call is atomic only if it does not throw. -/
theorem atomic_of_taken {sm : SearchMachine} {a : Addition} {x : Exchange} {arrived : Bool}
    {c : ArpConf} (h : if c.conf.sramFreeList ≠ [] ∧ x = .done then (a.run sm x arrived c).1 = .ok ()
      else (∃ text, (a.run sm x arrived c).1 = .error text) ∧
        ¬Unchanged c (a.run sm x arrived c).2) :
    Atomic sm a x arrived c ↔ c.conf.sramFreeList ≠ [] ∧ x = .done := by
  split at h
  · next hs =>
    refine ⟨fun _ => hs,fun _ text ht => ?_⟩
    rw [h] at ht
    cases ht
  · next hs =>
    obtain ⟨⟨text,ht⟩,hch⟩ := h
    exact ⟨fun ha => absurd (ha text ht) hch,fun h => absurd h hs⟩

theorem atomic_of_same {sm : SearchMachine} {a : Addition} {x : Exchange} {arrived : Bool}
    {c : ArpConf} (h : (a.run sm x arrived c).2 = c) : Atomic sm a x arrived c :=
  fun _ _ => by
    rw [h]
    exact unchanged_refl c

/-- The three kinds of addition that are calls of `Op`, with a valid priority. -/
theorem atomic_entry {sm : SearchMachine} {a : Addition} {x : Exchange} {arrived : Bool}
    {c : ArpConf} {op : Op} {r : AddReq}
    (hrun : a.run sm x arrived c =
      ((call sm op arrived c.conf).1, { c with conf := (call sm op arrived c.conf).2 }))
    (hlist : a.list c = some (c.conf.free r.pool))
    (h : exec sm op c.conf = addEntry r.d r.pool r.key r.mask r.word r.result x c.conf)
    (h' : exec sm op.arrived c.conf =
      addEntry r.d r.pool r.key r.mask r.word r.result x.arrived c.conf) :
    Atomic sm a x arrived c ↔
      (∀ l, a.list c = some l → l = []) ∨ (c.conf.sramFreeList ≠ [] ∧ x = .done) := by
  obtain ⟨hnil,hc⟩ | ⟨hne,hc⟩ := call_add_outcome h h' arrived
  · refine iff_of_true (atomic_of_same ?_) (.inl fun l hl => ?_)
    · rw [hrun,hc]
    · rw [hlist] at hl
      cases hl
      exact hnil
  · have hlist' : ¬∀ l, a.list c = some l → l = [] := fun hl => hne (hl _ hlist)
    rw [or_iff_right hlist']
    apply atomic_of_taken
    rw [hrun]
    split at hc
    · next hs => rwa [if_pos hs]
    · next hs =>
      rw [if_neg hs]
      exact ⟨hc.1,fun hu => hc.2 (congrFun hu.free r.pool)⟩

/-- A call that adds is atomic if its priority is invalid, its TCAM list is empty, or neither an SRAM
index is missing nor its exchange fails. -/
theorem atomic_iff (sm : SearchMachine) (a : Addition) (x : Exchange) (arrived : Bool) (c : ArpConf) :
    Atomic sm a x arrived c ↔
      (∀ l, a.list c = some l → l = []) ∨ (c.conf.sramFreeList ≠ [] ∧ x = .done) := by
  cases a with
  | route key mask result =>
    exact atomic_entry (r := ⟨.route, addRoutePool mask result, key, mask, id, .inl result⟩)
      rfl rfl rfl rfl
  | pfilter key mask priority result =>
    by_cases hp : priority > maxPriority
    · refine iff_of_true (atomic_of_same ?_) (.inl fun l hl => ?_)
      · simp only [Addition.run,Addition.op,call,exec,Op.arrived,addPfilter,if_pos hp,ite_self]
      · cases (if_pos hp).symm.trans hl
    · exact atomic_entry (r := ⟨.pfilter, .pfilters priority, key, mask,
        pfilterWord priority result, .inl result⟩) rfl (if_neg hp) (if_neg hp) (if_neg hp)
  | afilter key mask priority result =>
    by_cases hp : priority > maxPriority
    · refine iff_of_true (atomic_of_same ?_) (.inl fun l hl => ?_)
      · simp only [Addition.run,Addition.op,call,exec,Op.arrived,addAfilter,if_pos hp,ite_self]
      · cases (if_pos hp).symm.trans hl
    · exact atomic_entry (r := ⟨.afilter, .afilters priority, key, mask,
        afilterWord result, .inr result⟩) rfl (if_neg hp) (if_neg hp) (if_neg hp)
  | arp ipaddr hi16 low32 =>
    have hconf : ((Addition.arp ipaddr hi16 low32).run sm x arrived c).2.conf =
        (addArp ipaddr hi16 low32 x c).2.conf := by
      cases arrived <;> rfl
    obtain ⟨hnil,hc⟩ | ⟨hne,hc⟩ := addArp_outcome ipaddr hi16 low32 x c
    · refine iff_of_true (atomic_of_same ?_) (.inl fun l hl => ?_)
      · obtain ⟨-,hc'⟩ | ⟨hne,-⟩ := addArp_outcome ipaddr hi16 low32 x.arrived c
        · simp only [Addition.run,hc,hc',ite_self]
        · exact absurd hnil hne
      · cases hl
        exact hnil
    · have hlist : ¬∀ l, (Addition.arp ipaddr hi16 low32).list c = some l → l = [] :=
        fun hl => hne (hl _ rfl)
      rw [or_iff_right hlist]
      apply atomic_of_taken
      split at hc
      · next hs =>
        rw [if_pos hs]
        exact hc
      · next hs =>
        rw [if_neg hs]
        exact ⟨hc.1,fun hu => hc.2 (hconf ▸ hu.arps)⟩

/-- The state of a router that was just started. -/
def freshConf : ArpConf :=
  ⟨((Router.new blankSram).exec tcam (.start (.code fun _ => (.done, false)))).conf, []⟩

/-- A route that the TCAM daemon refuses keeps its indices. -/
theorem not_atomic_route :
    ¬Atomic tcam (.route (unicastKey 0x0a000000) (unicastKey 0xff000000) noResult) .fault false
      freshConf := by
  intro h
  have hmap := (h _ rfl).srmap
  exact absurd (congrArg List.length hmap) (by decide +kernel)

end OnlDaemons.Npr

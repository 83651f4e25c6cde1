import OnlDaemons.Crd.ComponentLife
import OnlDaemons.Lib.Run

/-!
# The life cycle of a component, over runs

While `do_initialize` owes the answer no other thread can give it or delete the request: the states that
`refresh` finds keep it out. Once the request is gone nothing else matters.

## Main definitions

- `Section.late` — the sections that only follow when `refresh` has gone on
- `Life.ThreadOk`, `Life.StateOk`, `Life.InitOk`, `Life.Inv` — the invariant

## Main result

- `Life.Inv.thread` — a step of a thread that is not that of `do_initialize`
-/

namespace OnlDaemons.Crd
open OnlDaemons.Lib

def Section.late : Section → Bool
  | .refresh | .clearComponent => false
  | _ => true

/-- A section that begins nothing, and is only ever the next one. -/
def Section.inner : Section → Bool
  | .sendFailed | .deleteReq _ => true
  | _ => false

/-- The sections of a thread that has found the node in repair. -/
def Section.forgets : Section → Bool
  | .refresh | .clearComponent | .cleanupLinks _ | .bothCompsDone _ | .cleanupReqs false
  | .deleteReq false => true
  | _ => false

/-- The sections of the clean-up that send nothing. -/
def Section.cleansUp : Section → Bool
  | .refresh | .clearComponent | .cleanupLinks _ | .bothCompsDone _ | .cleanupReqs _ | .deleteReq _
  | .setRepair => true
  | _ => false

/-- The sections of `do_refresh`, with those that follow if it fails. -/
def Section.ofDoRefresh : Section → Bool
  | .connect | .sendRefresh _ | .getType | .waitForUpMsg | .dependent | .keebootConnect
  | .keebootSend | .keebootUpMsg | .setFree | .cleanupReqs true | .cleanupLinks false => true
  | _ => false

/-- The sections that count the ends of links. -/
def Section.countsLinks : Section → Bool
  | .cleanupLinks true | .bothCompsDone _ => true
  | _ => false

namespace Life

variable {T : Type}

def Late (s : Life T) (t : T) : Prop := ∃ i ∈ s.todo t, i.late = true

def NoLate (s : Life T) : Prop := ∀ t, ¬s.Late t

/-- No state has been set yet. -/
def Unset (s : Life T) : Prop := s.localState = .new ∨ s.localState = .done

/-- Nothing is owed any more to the request, or only to a session that was cleared. -/
def Settled (s : Life T) : Prop := s.cleared = true ∨ s.compreq = false ∧ s.answers = 1

/-- What a thread other than that of `do_initialize` may have to do. -/
structure ThreadOk (s : Life T) (l : List Section) : Prop where
  tail : ∀ i ∈ l.tail, i.inner = false
  late : (∃ i ∈ l, i.late = true) →
    s.localState = .refreshing ∨ s.localState = .repair ∨ s.localState = .notUsed
  sends : l.head? = some .sendFailed → s.answers = 0
  deletes : l.head? = some (.deleteReq true) → s.answers = 1
  forgets : .cleanupReqs false ∈ l ∨ .deleteReq false ∈ l → s.Settled
  repairs : .setRepair ∈ l → s.compreq = false
  inRepair : s.localState = .repair → s.compreq = true → ∀ i ∈ l, i.forgets = true

/-- What the states say of each other. -/
structure StateOk (s : Life T) : Prop where
  once : s.answers ≤ 1
  dropped : s.compreq = false → s.cleared = true ∨ s.answers = 1
  unset : s.localState = .new ∨ s.localState = .done → s.known = none
  unknown : s.known = none →
    s.localState = .new ∨ s.localState = .done ∨ s.localState = .notUsed
  done : s.localState = .done → s.Settled
  knownRepair : s.known = some .repair → s.localState = .repair ∨ s.localState = .notUsed
  repair : s.localState = .repair → s.known = some .repair ∨ s.compreq = false
  initializing : s.localState = .initializing →
    s.known = some .initializing ∨ s.known = some .active ∧ s.compreq = false
  begun : s.place.begun = true → s.localState = .new →
    s.place = .createFailed ∨ s.compreq = false ∧ s.answers = 1

/-- The request is there, and `refresh` only asks to be called again. -/
def Running (s : Life T) : Prop :=
  s.localState = .initializing ∧ s.known = some .initializing

/-- The calls that answer the request when the component fails, with what comes after. -/
def Unsent (call : List Section) : Prop :=
  (∃ rest, (rest = [] ∨ rest = [.cleanupLinks true]) ∧
    (call = .cleanupReqs true :: rest ∨ call = .sendFailed :: rest)) ∨
  call = [.cleanupLinks true, .cleanupReqs true] ∨
  ∃ link, call = [.bothCompsDone link, .cleanupLinks true, .cleanupReqs true]

/-- The answer is sent, and the request deleted next. -/
def Sent (call : List Section) : Prop := call.head? = some (.deleteReq true)

/-- The thread of `do_initialize` has the request to answer, while `P` holds. -/
def Owes (s : Life T) (P : Prop) : Prop :=
  s.compreq = true ∧ P ∧ (s.answers = 0 ∧ Unsent s.call ∨
    s.answers = 1 ∧ Sent s.call ∧ ∀ i ∈ s.call, i.cleansUp = true) ∨
  s.compreq = false ∧ s.answers = 1 ∧ ∀ i ∈ s.call, i.cleansUp = true

/-- Where the thread of `do_initialize` is. -/
def InitOk (s : Life T) : Prop :=
  match s.place with
  | .created => s.call = [] ∧ s.localState ≠ .notUsed ∧ s.localState ≠ .initializing
  | .start | .waiting _ =>
    s.call = [] ∧ s.localState ≠ .notUsed ∧ s.localState ≠ .initializing ∧
      (s.Unset → s.compreq = true ∧ s.answers = 0)
  | .createFailed => s.Owes (s.localState = .new)
  | .repairing => s.Owes (s.localState = .repair ∧ s.known = some .repair ∧ s.NoLate)
  | .failing => s.Owes s.Running
  | .dependentRefresh | .checkUnlocked | .setUnlocked => False
  | .keebootTest | .contact | .startExp | .configure | .respond =>
    s.call = [] ∧ s.compreq = true ∧ s.answers = 0 ∧ s.Running
  | .keebootRefresh => s.keebootingNow = true ∧
    (s.Running ∧ s.compreq = true ∧
      (s.answers = 0 ∧ (∀ i ∈ s.call, i.ofDoRefresh = true ∨ i = .sendFailed) ∧
          (∀ i ∈ s.call.tail, i.ofDoRefresh = true) ∨
        s.answers = 1 ∧ Sent s.call ∧ ∀ i ∈ s.call.tail, i.ofDoRefresh = true) ∨
    s.compreq = false ∧ s.answers = 1 ∧
      (s.Running ∧ s.call.head? = some .setRepair ∧ (∀ i ∈ s.call.tail, i.ofDoRefresh = true) ∨
        s.localState = .repair ∧ s.known = some .repair ∧ s.NoLate ∧
          ∀ i ∈ s.call, i.ofDoRefresh = true ∨ i = .setRepair))
  | .deleteReq => s.call = [] ∧ s.compreq = true ∧ s.answers = 1 ∧ s.Running
  | .setActive => s.call = [] ∧ s.compreq = false ∧ s.answers = 1 ∧ s.Running
  | .countLinks => s.compreq = false ∧ s.answers = 1 ∧ ∀ i ∈ s.call, i.cleansUp = true
  | .leaving =>
    s.cleared = true ∧ (∀ i ∈ s.call, i.forgets = true ∧ i ≠ .refresh) ∨
    s.compreq = false ∧ ∀ i ∈ s.call, i.cleansUp = true
  | .finished => s.call = [] ∧ (s.cleared = true ∨ s.answers = 1)

structure Inv (s : Life T) : Prop where
  held : s.held = false
  selfLocked : s.selfLocked = false
  crashed : s.crashed = false
  state : s.StateOk
  threads : ∀ t, s.ThreadOk (s.todo t)
  unique : s.compreq = true → ∀ t t', s.Late t → s.Late t' → t = t'
  sender : ∀ t t', (s.todo t).head? = some .sendFailed → (s.todo t').head? = some .sendFailed → t = t'
  sent : s.compreq = true → s.answers ≠ 0 →
    (Sent s.call ∨ s.place = .deleteReq) ∨ ∃ t, (s.todo t).head? = some (.deleteReq true)
  early : s.place.begun = false → s.cleared = false →
    (∀ t, s.todo t = []) ∧ s.localState = .new ∧ (s.compreq = true ∨ s.answers = 1)
  init : s.InitOk

/-- The thread of `do_initialize` relies on the state staying as it is. -/
def Busy (s : Life T) : Prop :=
  match s.place with
  | .createFailed | .repairing | .failing => s.compreq = true
  | .keebootTest | .keebootRefresh | .contact | .startExp | .configure | .respond | .deleteReq
  | .setActive => True
  | _ => False

section Frames

variable {s u : Life T} {t : T} {i : Section} {rest l : List Section}

/-- What a busy `do_initialize` relies on. -/
theorem InitOk.busy (h : s.InitOk) (hb : s.Busy) : s.Running ∨
    (s.localState = .new ∧ s.place = .createFailed ∧ s.compreq = true) ∨
    s.localState = .repair ∧ s.known = some .repair ∧ s.NoLate := by
  unfold InitOk at h
  unfold Busy at hb
  cases hp : s.place <;> rw [hp] at h hb <;> simp only at h hb
  case createFailed =>
    obtain ⟨hc, hl, -⟩ | ⟨hc, -⟩ := h
    · exact .inr (.inl ⟨hl, rfl, hc⟩)
    · rw [hb] at hc
      cases hc
  case repairing =>
    obtain ⟨-, hl, -⟩ | ⟨hc, -⟩ := h
    · exact .inr (.inr hl)
    · rw [hb] at hc
      cases hc
  case failing =>
    obtain ⟨-, hl, -⟩ | ⟨hc, -⟩ := h
    · exact .inl hl
    · rw [hb] at hc
      cases hc
  case keebootRefresh =>
    obtain ⟨-, ⟨hr, -⟩ | ⟨-, -, ⟨hr, -⟩ | ⟨hl, hk, hn, -⟩⟩⟩ := h
    · exact .inl hr
    · exact .inl hr
    · exact .inr (.inr ⟨hl, hk, hn⟩)
  case keebootTest => exact .inl h.2.2.2
  case contact => exact .inl h.2.2.2
  case startExp => exact .inl h.2.2.2
  case configure => exact .inl h.2.2.2
  case respond => exact .inl h.2.2.2
  case deleteReq => exact .inl h.2.2.2
  case setActive => exact .inl h.2.2.2

/-- Nothing relies on a `do_initialize` that is not busy, as long as no answer is taken back. -/
theorem InitOk.of_idle (h : s.InitOk) (hb : ¬s.Busy) (hplace : u.place = s.place)
    (hcall : u.call = s.call) (hcleared : u.cleared = s.cleared)
    (hreq : s.compreq = false → u.compreq = false) (hans : s.answers = 1 → u.answers = 1)
    (hlocal : u.localState = s.localState ∨ u.localState = .repair ∨ u.localState = .refreshing ∨
      u.localState = .done)
    (hunset : u.Unset → s.Unset ∧ u.compreq = s.compreq ∧ u.answers = s.answers) : u.InitOk := by
  unfold InitOk at h ⊢
  unfold Busy at hb
  rw [hplace, hcall, hcleared]
  cases hp : s.place <;> rw [hp] at h hb <;> simp only at h hb ⊢
  case created =>
    obtain hl | hl | hl | hl := hlocal <;> rw [hl]
    · exact h
    · exact ⟨h.1, by decide, by decide⟩
    · exact ⟨h.1, by decide, by decide⟩
    · exact ⟨h.1, by decide, by decide⟩
  case start | waiting =>
    have howed : u.Unset → u.compreq = true ∧ u.answers = 0 := by
      intro hu
      obtain ⟨hs, hc, ha⟩ := hunset hu
      rw [hc, ha]
      exact h.2.2.2 hs
    obtain hl | hl | hl | hl := hlocal
    · rw [hl]
      exact ⟨h.1, h.2.1, h.2.2.1, howed⟩
    · exact ⟨h.1, by rw [hl]; decide, by rw [hl]; decide, howed⟩
    · exact ⟨h.1, by rw [hl]; decide, by rw [hl]; decide, howed⟩
    · exact ⟨h.1, by rw [hl]; decide, by rw [hl]; decide, howed⟩
  case createFailed | repairing | failing =>
    obtain ⟨hc, -⟩ | ⟨hc, ha, hs⟩ := h
    · exact absurd hc hb
    · exact .inr ⟨hreq hc, hans ha, by rwa [hcall]⟩
  case countLinks => exact ⟨hreq h.1, hans h.2.1, h.2.2⟩
  case leaving =>
    obtain hl | ⟨hc, hs⟩ := h
    · exact .inl hl
    · exact .inr ⟨hreq hc, hs⟩
  case finished => exact ⟨h.1, h.2.imp_right hans⟩
  case keebootTest | keebootRefresh | contact | startExp | configure | respond | deleteReq
    | setActive => exact absurd trivial hb

theorem Inv.not_busy (h : s.Inv) (hl : s.Late t) : ¬s.Busy := by
  intro hb
  have hlocal := (h.threads t).late hl
  obtain ⟨hr, -⟩ | ⟨hr, -⟩ | ⟨-, -, hno⟩ := h.init.busy hb
  · rw [hr] at hlocal
    simp at hlocal
  · rw [hr] at hlocal
    simp at hlocal
  · exact hno t hl

theorem late_of_head (ht : s.todo t = i :: rest) (hi : i.late = true) : s.Late t :=
  ⟨i, by rw [ht]; exact List.mem_cons_self, hi⟩

theorem Settled.mono (h : s.Settled) (hcleared : s.cleared = true → u.cleared = true)
    (hreq : s.compreq = false → u.compreq = false) (hans : s.answers = 1 → u.answers = 1) :
    u.Settled :=
  h.imp hcleared fun hd => ⟨hreq hd.1, hans hd.2⟩

theorem ThreadOk.not_unset (h : s.ThreadOk (i :: rest)) (hi : i.late = true) : ¬s.Unset := by
  rintro (hl | hl)
  · have hlocal := h.late ⟨i, List.mem_cons_self, hi⟩
    rw [hl] at hlocal
    simp at hlocal
  · have hlocal := h.late ⟨i, List.mem_cons_self, hi⟩
    rw [hl] at hlocal
    simp at hlocal

/-- The sections that follow one that changes nothing. -/
theorem ThreadOk.next (h : s.ThreadOk (i :: rest)) (hinner : ∀ j ∈ l, j.inner = false)
    (hlate : ∀ j ∈ l, j.late = true → i.late = true) (hreq : .cleanupReqs false ∉ l)
    (hrep : .setRepair ∈ l → s.compreq = false)
    (hin : s.localState = .repair → s.compreq = true → ∀ j ∈ l, j.forgets = true) :
    s.ThreadOk (l ++ rest) := by
  have hall : ∀ j ∈ l ++ rest, j.inner = false := by
    intro j hj
    obtain hj | hj := List.mem_append.mp hj
    · exact hinner j hj
    · exact h.tail j hj
  have hhead : ∀ j, (l ++ rest).head? = some j → j.inner = false :=
    fun j hj => hall j (List.mem_of_mem_head? hj)
  refine ⟨fun j hj => hall j (List.mem_of_mem_tail hj), ?_, ?_, ?_, ?_, ?_, ?_⟩
  · rintro ⟨j, hj, hjl⟩
    obtain hj | hj := List.mem_append.mp hj
    · exact h.late ⟨i, List.mem_cons_self, hlate j hj hjl⟩
    · exact h.late ⟨j, List.mem_cons_of_mem _ hj, hjl⟩
  · intro hs
    cases hhead _ hs
  · intro hd
    cases hhead _ hd
  · rintro (hj | hj)
    · obtain hj | hj := List.mem_append.mp hj
      · exact absurd hj hreq
      · exact h.forgets (.inl (List.mem_cons_of_mem _ hj))
    · cases hall _ hj
  · intro hj
    obtain hj | hj := List.mem_append.mp hj
    · exact hrep hj
    · exact h.repairs (List.mem_cons_of_mem _ hj)
  · intro hl hc j hj
    obtain hj | hj := List.mem_append.mp hj
    · exact hin hl hc j hj
    · exact h.inRepair hl hc j (List.mem_cons_of_mem _ hj)

variable [DecidableEq T]

/-- Two states that differ in nothing that the invariant reads, but for what the threads have to do. -/
structure Same (s u : Life T) : Prop where
  known : u.known = s.known
  localState : u.localState = s.localState
  compreq : u.compreq = s.compreq
  answers : u.answers = s.answers
  held : u.held = s.held
  selfLocked : u.selfLocked = s.selfLocked
  crashed : u.crashed = s.crashed
  cleared : u.cleared = s.cleared
  place : u.place = s.place
  call : u.call = s.call
  keebootingNow : u.keebootingNow = s.keebootingNow

omit [DecidableEq T] in
theorem ThreadOk.congr (hs : Same s u) (h : s.ThreadOk l) : u.ThreadOk l := by
  refine ⟨h.tail, ?_, ?_, ?_, ?_, ?_, ?_⟩
  · rw [hs.localState]
    exact h.late
  · rw [hs.answers]
    exact h.sends
  · rw [hs.answers]
    exact h.deletes
  · rw [Settled, hs.cleared, hs.compreq, hs.answers]
    exact h.forgets
  · rw [hs.compreq]
    exact h.repairs
  · rw [hs.localState, hs.compreq]
    exact h.inRepair

omit [DecidableEq T] in
theorem StateOk.congr (hs : Same s u) (h : s.StateOk) : u.StateOk := by
  refine ⟨?_, ?_, ?_, ?_, ?_, ?_, ?_, ?_, ?_⟩ <;>
    simp only [Settled, hs.known, hs.localState, hs.compreq, hs.answers, hs.cleared, hs.place]
  exacts [h.once, h.dropped, h.unset, h.unknown, h.done, h.knownRepair, h.repair, h.initializing,
    h.begun]

omit [DecidableEq T] in
theorem InitOk.congr (hs : Same s u) (hno : s.NoLate → u.NoLate) (h : s.InitOk) : u.InitOk := by
  unfold InitOk Owes Running Unset at h ⊢
  simp only [hs.place, hs.known, hs.localState, hs.compreq, hs.answers, hs.cleared, hs.call,
    hs.keebootingNow]
  cases hp : s.place <;> rw [hp] at h <;> simp only at h ⊢
  case repairing =>
    obtain ⟨hc, ⟨hl, hk, hn⟩, ha⟩ | ha := h
    · exact .inl ⟨hc, ⟨hl, hk, hno hn⟩, ha⟩
    · exact .inr ha
  case keebootRefresh =>
    obtain ⟨hk, ha | ⟨hc, ha, hr | ⟨hl, hkn, hn, hall⟩⟩⟩ := h
    · exact ⟨hk, .inl ha⟩
    · exact ⟨hk, .inr ⟨hc, ha, .inl hr⟩⟩
    · exact ⟨hk, .inr ⟨hc, ha, .inr ⟨hl, hkn, hno hn, hall⟩⟩⟩
  all_goals exact h

/-- Only the thread `t` has something else to do. -/
theorem late_update {t' : T} (htodo : u.todo = Function.update s.todo t l)
    (hl : ∀ j ∈ l, j.late = true → s.Late t) (hlate : u.Late t') : s.Late t' := by
  obtain ⟨j, hj, hjl⟩ := hlate
  rw [htodo] at hj
  by_cases h : t' = t
  · rw [h, Function.update_self] at hj
    rw [h]
    exact hl j hj hjl
  · rw [Function.update_of_ne h] at hj
    exact ⟨j, hj, hjl⟩

/-- A thread goes on, and changes nothing that matters. -/
theorem Inv.pass (h : s.Inv) (ht : s.todo t = i :: rest) (hi : i ≠ .deleteReq true)
    (hs : Same s u) (htodo : u.todo = Function.update s.todo t l)
    (hok : s.ThreadOk l) (hlate : ∀ j ∈ l, j.late = true → s.Late t)
    (hsend : l.head? = some .sendFailed → ∀ t', (s.todo t').head? ≠ some .sendFailed) : u.Inv := by
  have hself : u.todo t = l := by rw [htodo, Function.update_self]
  have hother : ∀ t', t' ≠ t → u.todo t' = s.todo t' := by
    intro t' hne
    rw [htodo, Function.update_of_ne hne]
  refine ⟨hs.held ▸ h.held, hs.selfLocked ▸ h.selfLocked, hs.crashed ▸ h.crashed, h.state.congr hs,
    ?_, ?_, ?_, ?_, ?_, h.init.congr hs fun hn t' hl => hn t' (late_update htodo hlate hl)⟩
  · intro t'
    refine ThreadOk.congr hs ?_
    by_cases htt : t' = t
    · rw [htt, hself]
      exact hok
    · rw [hother t' htt]
      exact h.threads t'
  · intro hc a b ha hb
    exact h.unique (hs.compreq ▸ hc) a b (late_update htodo hlate ha) (late_update htodo hlate hb)
  · intro a b ha hb
    by_cases hat : a = t
    · by_contra hne
      rw [hat, hself] at ha
      rw [hother b (hat ▸ Ne.symm hne)] at hb
      exact hsend ha b hb
    · rw [hother a hat] at ha
      by_cases hbt : b = t
      · rw [hbt, hself] at hb
        exact absurd ha (hsend hb a)
      · rw [hother b hbt] at hb
        exact h.sender a b ha hb
  · intro hc ha
    rw [hs.call, hs.place]
    obtain hsent | ⟨t', ht'⟩ := h.sent (hs.compreq ▸ hc) (hs.answers ▸ ha)
    · exact .inl hsent
    · refine .inr ⟨t', ?_⟩
      have hne : t' ≠ t := by
        rintro rfl
        rw [ht] at ht'
        exact hi (Option.some.inj ht')
      rwa [hother t' hne]
  · intro hb hc
    have hnil := (h.early (hs.place ▸ hb) (hs.cleared ▸ hc)).1 t
    rw [ht] at hnil
    cases hnil

omit [DecidableEq T] in
/-- A thread changes what is known of the component while `do_initialize` does not rely on it. -/
theorem Inv.change (h : s.Inv) (ht : s.todo t = i :: rest) (hbusy : ¬s.Busy)
    (hflags : u.held = s.held ∧ u.selfLocked = s.selfLocked ∧ u.crashed = s.crashed)
    (hplace : u.place = s.place) (hcall : u.call = s.call) (hcleared : u.cleared = s.cleared)
    (hreq : s.compreq = false → u.compreq = false) (hans : s.answers = 1 → u.answers = 1)
    (hlocal : u.localState = s.localState ∨ u.localState = .repair ∨ u.localState = .refreshing ∨
      u.localState = .done)
    (hunset : u.Unset → s.Unset ∧ u.compreq = s.compreq ∧ u.answers = s.answers)
    (hstate : u.StateOk) (hthreads : ∀ t', u.ThreadOk (u.todo t'))
    (hunique : u.compreq = true → ∀ a b, u.Late a → u.Late b → a = b)
    (hsender : ∀ a b, (u.todo a).head? = some .sendFailed → (u.todo b).head? = some .sendFailed →
      a = b)
    (hsent : u.compreq = true → u.answers ≠ 0 →
      (Sent s.call ∨ s.place = .deleteReq) ∨ ∃ t', (u.todo t').head? = some (.deleteReq true)) :
    u.Inv := by
  refine ⟨hflags.1 ▸ h.held, hflags.2.1 ▸ h.selfLocked, hflags.2.2 ▸ h.crashed, hstate, hthreads,
    hunique, hsender, ?_, ?_, h.init.of_idle hbusy hplace hcall hcleared hreq hans hlocal hunset⟩
  · rw [hcall, hplace]
    exact hsent
  · intro hb hc
    have hnil := (h.early (hplace ▸ hb) (hcleared ▸ hc)).1 t
    rw [ht] at hnil
    cases hnil

theorem threadOk_update (htodo : u.todo = Function.update s.todo t l) (hself : u.ThreadOk l)
    (hother : ∀ t', t' ≠ t → u.ThreadOk (s.todo t')) : ∀ t', u.ThreadOk (u.todo t') := by
  intro t'
  rw [htodo]
  by_cases ht : t' = t
  · rw [ht, Function.update_self]
    exact hself
  · rw [Function.update_of_ne ht]
    exact hother t' ht

omit [DecidableEq T] in
/-- Nothing is owed to the session, as nothing is sent yet. -/
theorem cleared_of_settled (h : s.Settled) (hz : s.answers = 0) : s.cleared = true := by
  obtain h | ⟨-, ha⟩ := h
  · exact h
  · rw [hz] at ha
    cases ha

/-- The thread `t` is not about to send an answer. -/
theorem Inv.sender_update (h : s.Inv) (htodo : u.todo = Function.update s.todo t l)
    (hl : l.head? ≠ some .sendFailed) (a b : T) (ha : (u.todo a).head? = some .sendFailed)
    (hb : (u.todo b).head? = some .sendFailed) : a = b := by
  have hsame : ∀ c, (u.todo c).head? = some .sendFailed → (s.todo c).head? = some .sendFailed := by
    intro c hc
    rw [htodo] at hc
    by_cases hct : c = t
    · rw [hct, Function.update_self] at hc
      exact absurd hc hl
    · rwa [Function.update_of_ne hct] at hc
  exact h.sender a b (hsame a ha) (hsame b hb)

theorem Inv.thread_send (h : s.Inv) (ht : s.todo t = .sendFailed :: rest) :
    Inv { s with answers := s.answers + 1
                 todo := Function.update s.todo t (.deleteReq true :: rest) } := by
  have hlate : s.Late t := late_of_head ht rfl
  have hok := h.threads t
  rw [ht] at hok
  have hz : s.answers = 0 := hok.sends rfl
  have hset : s.Settled → s.cleared = true := fun hs => cleared_of_settled hs hz
  have hone : s.answers + 1 = 1 := by rw [hz]
  have hlater : ∀ j ∈ Section.deleteReq true :: rest, j.late = true → s.Late t := fun _ _ _ => hlate
  refine h.change ht (h.not_busy hlate) ⟨rfl, rfl, rfl⟩ rfl rfl rfl id (fun _ => hone) (.inl rfl)
    (fun hu => absurd hu (hok.not_unset rfl)) ?_ (threadOk_update rfl ?_ ?_) ?_ ?_ ?_
  · refine ⟨?_, fun _ => .inr hone, h.state.unset, h.state.unknown, fun hd => .inl (hset (h.state.done hd)),
      h.state.knownRepair, h.state.repair, h.state.initializing, ?_⟩
    · show s.answers + 1 ≤ 1
      omega
    · intro hb hn
      exact (h.state.begun hb hn).imp_right fun hd => ⟨hd.1, hone⟩
  · refine ⟨hok.tail, fun _ => hok.late ⟨_, List.mem_cons_self, rfl⟩, nofun, fun _ => hone, ?_, ?_, ?_⟩
    · rintro (hj | hj) <;> obtain - | ⟨-, hj⟩ := hj
      · exact .inl (hset (hok.forgets (.inl (List.mem_cons_of_mem _ hj))))
      · cases hok.tail _ hj
    · rintro (- | ⟨-, hj⟩)
      exact hok.repairs (List.mem_cons_of_mem _ hj)
    · intro hl hc
      cases hok.inRepair hl hc .sendFailed List.mem_cons_self
  · intro t' hne
    have hok' := h.threads t'
    refine ⟨hok'.tail, hok'.late, ?_, fun _ => hone, fun hj => .inl (hset (hok'.forgets hj)),
      hok'.repairs, hok'.inRepair⟩
    intro hs
    exact absurd (h.sender t' t hs (by rw [ht]; rfl)) hne
  · intro hc a b ha hb
    exact h.unique hc a b (late_update rfl hlater ha) (late_update rfl hlater hb)
  · exact h.sender_update rfl nofun
  · intro _ _
    exact .inr ⟨t, by show (Function.update s.todo t _ t).head? = _; rw [Function.update_self]; rfl⟩

/-- The request is deleted: nothing depends on it any more. -/
theorem Inv.thread_delete (h : s.Inv) {b : Bool} (ht : s.todo t = .deleteReq b :: rest) :
    Inv { s with compreq := false
                 todo := Function.update s.todo t ((if b then [.setRepair] else []) ++ rest) } := by
  have hlate : s.Late t := late_of_head ht rfl
  have hok := h.threads t
  rw [ht] at hok
  have hset : s.Settled → s.cleared = true ∨ false = false ∧ s.answers = 1 :=
    fun hs => hs.imp_right fun hd => ⟨rfl, hd.2⟩
  have hdone : s.cleared = true ∨ s.answers = 1 := by
    cases b with
    | true => exact .inr (hok.deletes rfl)
    | false => exact (hok.forgets (.inr List.mem_cons_self)).imp_right And.right
  have hmem : ∀ j ∈ (if b then [Section.setRepair] else []) ++ rest, j = .setRepair ∨ j ∈ rest := by
    intro j hj
    obtain hj | hj := List.mem_append.mp hj
    · split at hj
      · exact .inl (List.mem_singleton.mp hj)
      · cases hj
    · exact .inr hj
  have hall : ∀ j ∈ (if b then [Section.setRepair] else []) ++ rest, j.inner = false := by
    intro j hj
    obtain rfl | hj := hmem j hj
    · rfl
    · exact hok.tail j hj
  refine h.change ht (h.not_busy hlate) ⟨rfl, rfl, rfl⟩ rfl rfl rfl (fun _ => rfl) id (.inl rfl)
    (fun hu => absurd hu (hok.not_unset rfl)) ?_ (threadOk_update rfl ?_ ?_) nofun ?_ nofun
  · refine ⟨h.state.once, fun _ => hdone, h.state.unset, h.state.unknown,
      fun hd => hset (h.state.done hd), h.state.knownRepair, fun _ => .inr rfl, ?_, ?_⟩
    · intro hi
      exact (h.state.initializing hi).imp_right fun hd => ⟨hd.1, rfl⟩
    · intro hb hn
      exact (h.state.begun hb hn).imp_right fun hd => ⟨rfl, hd.2⟩
  · refine ⟨fun j hj => hall j (List.mem_of_mem_tail hj), fun _ => hok.late ⟨_, List.mem_cons_self, rfl⟩,
      fun hs => ?_, fun hd => ?_, ?_, fun _ => rfl, nofun⟩
    · cases hall _ (List.mem_of_mem_head? hs)
    · cases hall _ (List.mem_of_mem_head? hd)
    · rintro (hj | hj)
      · obtain hj | hj := hmem _ hj
        · cases hj
        · exact hset (hok.forgets (.inl (List.mem_cons_of_mem _ hj)))
      · cases hall _ hj
  · intro t' _
    have hok' := h.threads t'
    exact ⟨hok'.tail, hok'.late, hok'.sends, hok'.deletes, fun hj => hset (hok'.forgets hj),
      fun _ => rfl, nofun⟩
  · exact h.sender_update rfl fun hs => by cases hall _ (List.mem_of_mem_head? hs)

omit [DecidableEq T] in
theorem ThreadOk.head_of_tail (h : s.ThreadOk (i :: rest)) {j : Section} (hj : j ∈ rest.head?) :
    j.inner = false :=
  h.tail j (List.mem_of_mem_head? hj)

/-- `cleanup_reqs` has put the node into repair. -/
theorem Inv.thread_setRepair (h : s.Inv) (ht : s.todo t = .setRepair :: rest)
    (hl : l = [] ∨ l = [.refresh]) {n : Bool} :
    Inv { s with internalState := .repair, known := some .repair, needsRefresh := n
                 localState := .repair, todo := Function.update s.todo t (l ++ rest) } := by
  have hlate : s.Late t := late_of_head ht rfl
  have hok := h.threads t
  rw [ht] at hok
  have hreq : s.compreq = false := hok.repairs List.mem_cons_self
  have hno : s.compreq ≠ true := by
    rw [hreq]
    decide
  have hnext : s.ThreadOk (l ++ rest) := by
    refine hok.next ?_ (fun _ _ _ => rfl) ?_ (fun _ => hreq) (fun _ hc => absurd hc hno)
    · obtain rfl | rfl := hl <;> simp [Section.inner]
    · obtain rfl | rfl := hl <;> simp
  have hframe : ∀ l', s.ThreadOk l' → ThreadOk { s with
      internalState := .repair, known := some .repair, needsRefresh := n
      localState := .repair, todo := Function.update s.todo t (l ++ rest) } l' :=
    fun l' hl' => ⟨hl'.tail, fun _ => .inr (.inl rfl), hl'.sends, hl'.deletes, hl'.forgets,
      hl'.repairs, fun _ hc => absurd hc hno⟩
  refine h.change ht (h.not_busy hlate) ⟨rfl, rfl, rfl⟩ rfl rfl rfl id id (.inr (.inl rfl)) nofun ?_
    (threadOk_update rfl (hframe _ hnext) fun t' _ => hframe _ (h.threads t'))
    (fun hc => absurd hc hno) (h.sender_update rfl ?_) (fun hc => absurd hc hno)
  · exact ⟨h.state.once, h.state.dropped, nofun, nofun, nofun, fun _ => .inl rfl, fun _ => .inl rfl,
      nofun, nofun⟩
  · obtain rfl | rfl := hl
    · intro hs
      cases hok.head_of_tail hs
    · nofun

/-- `do_refresh` ends. -/
theorem Inv.thread_setFree (h : s.Inv) (ht : s.todo t = .setFree :: rest) {n : Bool} :
    Inv { s with internalState := .free, known := some .free, needsRefresh := n
                 todo := Function.update s.todo t rest } := by
  have hlate : s.Late t := late_of_head ht rfl
  have hok := h.threads t
  rw [ht] at hok
  have hlocal := hok.late ⟨_, List.mem_cons_self, rfl⟩
  have hrest : s.ThreadOk rest :=
    hok.next (l := []) nofun nofun List.not_mem_nil nofun fun _ _ => nofun
  have hframe : ∀ l', s.ThreadOk l' → ThreadOk { s with
      internalState := .free, known := some .free, needsRefresh := n
      todo := Function.update s.todo t rest } l' :=
    fun l' hl' => ⟨hl'.tail, hl'.late, hl'.sends, hl'.deletes, hl'.forgets, hl'.repairs, hl'.inRepair⟩
  have hlater : ∀ j ∈ rest, j.late = true → s.Late t := fun _ _ _ => hlate
  refine h.change ht (h.not_busy hlate) ⟨rfl, rfl, rfl⟩ rfl rfl rfl id id (.inl rfl)
    (fun hu => ⟨hu, rfl, rfl⟩) ?_ (threadOk_update rfl (hframe _ hrest) fun t' _ => hframe _ (h.threads t')) ?_
    (h.sender_update rfl fun hs => by cases hok.head_of_tail hs) ?_
  · refine ⟨h.state.once, h.state.dropped, ?_, nofun, h.state.done, nofun, ?_, ?_, h.state.begun⟩
    · intro hn
      obtain hl | hl | hl := hlocal <;> rw [show s.localState = _ from hl] at hn <;> simp at hn
    · intro hl
      cases hc : s.compreq with
      | false => exact .inr rfl
      | true => cases hok.inRepair hl hc .setFree List.mem_cons_self
    · intro hi
      obtain hl | hl | hl := hlocal <;> rw [show s.localState = _ from hl] at hi <;> cases hi
  · intro hc a b ha hb
    exact h.unique hc a b (late_update rfl hlater ha) (late_update rfl hlater hb)
  · intro hc ha
    obtain hs | ⟨t', ht'⟩ := h.sent hc ha
    · exact .inl hs
    · refine .inr ⟨t', ?_⟩
      have hne : t' ≠ t := by
        rintro rfl
        rw [ht] at ht'
        cases ht'
      show (Function.update s.todo t rest t').head? = _
      rwa [Function.update_of_ne hne]

/-! ### The section of `refresh` -/

/-- The state when `refresh` has set it. -/
def refreshed (s : Life T) (todo : T → List Section) : Life T :=
  { s with
    localState := .refreshing
    internalState := .refreshing
    known := some .refreshing
    needsRefresh := false
    todo := todo }

/-- The thread of `do_refresh` is there, or could not be made. -/
def Starts (s : Life T) (todo : T → List Section) (l : List Section) : Prop :=
  todo = s.todo ∧ l = [.cleanupReqs true, .cleanupLinks false, .clearComponent] ∨
  ∃ t', s.todo t' = [] ∧ l = [] ∧ todo = Function.update s.todo t' [.connect, .clearComponent]

/-- `refresh` leaves the component as it is, finds the node in repair, finds that the component was never
started, or begins. -/
theorem refresh_cases {told : Told T} (hr : s.refresh told = some (u, l)) :
    (∃ n, u = { s with needsRefresh := n } ∧ (l = [] ∨ l = [.clearComponent])) ∨
    (s.getState told.state = .repair ∧ s.localState ≠ .notUsed ∧ s.localState ≠ .repair ∧
      u = { s with localState := .repair, known := some .repair } ∧
      l = [.cleanupLinks false, .cleanupReqs false, .clearComponent]) ∨
    (s.localState = .new ∧ u = { s with localState := .done } ∧ l = [.clearComponent]) ∨
    (s.getState told.state ≠ .repair ∧ s.getState told.state ≠ .initializing ∧
      s.localState ≠ .refreshing ∧ s.localState ≠ .notUsed ∧
      ∃ todo, u = s.refreshed todo ∧ s.Starts todo l) := by
  unfold refresh at hr
  simp only at hr
  split at hr
  · cases hr
    exact .inl ⟨s.needsRefresh, rfl, .inl rfl⟩
  next hused =>
  split at hr
  · next hcur =>
    split at hr <;> cases hr
    · next hl => exact .inr (.inl ⟨hcur, hused, hl, rfl, rfl⟩)
    · exact .inl ⟨s.needsRefresh, rfl, .inr rfl⟩
  next hrepair =>
  split at hr
  · next hnew =>
    cases hr
    exact .inr (.inr (.inl ⟨hnew.1, rfl, rfl⟩))
  split at hr
  · cases hr
    exact .inl ⟨true, rfl, .inl rfl⟩
  next hinit =>
  split at hr
  · cases hr
    exact .inl ⟨false, rfl, .inl rfl⟩
  next hrefr =>
  rw [not_or] at hrefr
  refine .inr (.inr (.inr ⟨hrepair, hinit, hrefr.2, hused, ?_⟩))
  split at hr
  · cases hr
    exact ⟨s.todo, rfl, .inl ⟨rfl, rfl⟩⟩
  · next t' _ =>
    split at hr <;> cases hr
    next hidle => exact ⟨_, rfl, .inr ⟨t', hidle, rfl, rfl⟩⟩

omit [DecidableEq T] in
theorem Inv.noLate_of_unset (h : s.Inv) (hl : s.Unset) :
    s.NoLate := by
  intro t hlate
  obtain h' | h' := hl
  · have := (h.threads t).late hlate
    rw [h'] at this
    simp at this
  · have := (h.threads t).late hlate
    rw [h'] at this
    simp at this

omit [DecidableEq T] in
/-- Only before the component has set a state can the node be found in repair for the first time. -/
theorem Inv.unset_of_repair (h : s.Inv) {cur : NodeState} (hcur : ∀ x ∈ s.known, cur = x)
    (hrepair : cur = .repair) (hused : s.localState ≠ .notUsed) (hl : s.localState ≠ .repair) :
    s.Unset := by
  cases hk : s.known with
  | none => exact (h.state.unknown hk).imp_right fun hd => hd.resolve_right hused
  | some x =>
    have hx : x = .repair := (hcur x hk).symm.trans hrepair
    rw [hx] at hk
    exact absurd (h.state.knownRepair hk) (by simp [hl, hused])

omit [DecidableEq T] in
/-- If a refresh begins, it is the first one, or the request is gone. -/
theorem Inv.may_refresh (h : s.Inv) {cur : NodeState} (hcur : ∀ x ∈ s.known, cur = x)
    (hrepair : cur ≠ .repair) (hinit : cur ≠ .initializing) (hl : s.localState ≠ .refreshing)
    (hused : s.localState ≠ .notUsed) :
    s.localState = .new ∨ s.localState = .done ∨ s.compreq = false := by
  cases hlocal : s.localState with
  | new => exact .inl rfl
  | done => exact .inr (.inl rfl)
  | notUsed => exact absurd hlocal hused
  | refreshing => exact absurd hlocal hl
  | repair =>
    obtain hk | hc := h.state.repair hlocal
    · exact absurd (hcur _ hk) hrepair
    · exact .inr (.inr hc)
  | initializing =>
    obtain hk | ⟨-, hc⟩ := h.state.initializing hlocal
    · exact absurd (hcur _ hk) hinit
    · exact .inr (.inr hc)

theorem inner_of_early {j : Section} (hj : j.late = false) : j.inner = false := by
  cases j <;> first | rfl | cases hj

theorem forgets_of_early {j : Section} (hj : j.late = false) : j.forgets = true := by
  cases j <;> first | rfl | cases hj

omit [DecidableEq T] in
theorem NoLate.todo (hno : s.NoLate) (t : T) : ∀ j ∈ s.todo t, j.late = false := by
  intro j hj
  cases hjl : j.late with
  | false => rfl
  | true => exact absurd ⟨j, hj, hjl⟩ (hno t)

omit [DecidableEq T] in
theorem NoLate.tail (hno : s.NoLate) (ht : s.todo t = i :: rest) : ∀ j ∈ rest, j.late = false := by
  intro j hj
  exact hno.todo t j (by rw [ht]; exact List.mem_cons_of_mem _ hj)

omit [DecidableEq T] in
/-- A thread that has nothing late to do has nothing to do that matters. -/
theorem threadOk_of_early (hl : ∀ j ∈ l, j.late = false) : u.ThreadOk l := by
  have hno : ∀ j ∈ l, j.late = true → False := by
    intro j hj hjl
    rw [hl j hj] at hjl
    cases hjl
  have hinner : ∀ j ∈ l, j.inner = false := fun j hj => inner_of_early (hl j hj)
  refine ⟨fun j hj => hinner j (List.mem_of_mem_tail hj), fun ⟨j, hj, hjl⟩ => (hno j hj hjl).elim, ?_,
    ?_, ?_, fun hj => (hno _ hj rfl).elim, ?_⟩
  · intro hs
    cases hinner _ (List.mem_of_mem_head? hs)
  · intro hd
    cases hinner _ (List.mem_of_mem_head? hd)
  · rintro (hj | hj)
    · exact (hno _ hj rfl).elim
    · exact (hno _ hj rfl).elim
  · intro _ _ j hj
    exact forgets_of_early (hl j hj)

omit [DecidableEq T] in
/-- A component that was never started is refreshed for a session that was cleared. -/
theorem Inv.settled_of_new (h : s.Inv) (ht : s.todo t = i :: rest)
    (hfailed : s.place = .createFailed → s.compreq = false) (hl : s.localState = .new) :
    s.Settled := by
  cases hb : s.place.begun with
  | false =>
    cases hc : s.cleared with
    | true => exact .inl hc
    | false =>
      have hnil := (h.early hb hc).1 t
      rw [ht] at hnil
      cases hnil
  | true =>
    obtain hp | hd := h.state.begun hb hl
    · have hreq := hfailed hp
      have hinit := h.init
      unfold InitOk at hinit
      rw [hp] at hinit
      obtain ⟨hc, -⟩ | ⟨-, ha, -⟩ := hinit
      · rw [hreq] at hc
        cases hc
      · exact .inr ⟨hreq, ha⟩
    · exact .inr hd

omit [DecidableEq T] in
theorem Inv.not_busy_of_unset (h : s.Inv) (hfailed : s.place = .createFailed → s.compreq = false)
    (hl : s.Unset) : ¬s.Busy := by
  intro hb
  obtain ⟨hr, -⟩ | ⟨-, hp, hc⟩ | ⟨hr, -⟩ := h.init.busy hb
  · rw [Unset, hr] at hl
    simp at hl
  · rw [hfailed hp] at hc
    cases hc
  · rw [Unset, hr] at hl
    simp at hl

omit [DecidableEq T] in
theorem Inv.not_busy_of_cur (h : s.Inv) (hfailed : s.place = .createFailed → s.compreq = false)
    {cur : NodeState} (hcur : ∀ x ∈ s.known, cur = x) (hrepair : cur ≠ .repair)
    (hinit : cur ≠ .initializing) : ¬s.Busy := by
  intro hb
  obtain ⟨-, hk⟩ | ⟨-, hp, hc⟩ | ⟨-, hk, -⟩ := h.init.busy hb
  · exact hinit (hcur _ hk)
  · rw [hfailed hp] at hc
    cases hc
  · exact hrepair (hcur _ hk)

omit [DecidableEq T] in
/-- What the threads have to do while a refresh goes on. -/
theorem ThreadOk.refreshed (hl : s.ThreadOk l) {todo : T → List Section} :
    (s.refreshed todo).ThreadOk l :=
  ⟨hl.tail, fun _ => .inl rfl, hl.sends, hl.deletes, hl.forgets, hl.repairs, nofun⟩

omit [DecidableEq T] in
theorem StateOk.refreshed (h : s.StateOk) {todo : T → List Section} : (s.refreshed todo).StateOk :=
  ⟨h.once, h.dropped, nofun, nofun, nofun, nofun, nofun, nofun, nofun⟩

omit [DecidableEq T] in
/-- The thread of `do_refresh`. -/
theorem threadOk_doRefresh {todo : T → List Section} :
    (s.refreshed todo).ThreadOk [.connect, .clearComponent] := by
  refine ⟨?_, fun _ => .inl rfl, nofun, nofun, ?_, ?_, nofun⟩
  · simp [Section.inner]
  · simp
  · simp

omit [DecidableEq T] in
@[simp] theorem refreshed_todo {todo : T → List Section} : (s.refreshed todo).todo = todo := rfl

omit [DecidableEq T] in
theorem Inv.sent_early (h : s.Inv) (hfirst : s.compreq = true → s.NoLate) (hc : s.compreq = true)
    (ha : s.answers ≠ 0) : Sent s.call ∨ s.place = .deleteReq := by
  obtain hs | ⟨t', ht'⟩ := h.sent hc ha
  · exact hs
  · exact absurd ⟨_, List.mem_of_mem_head? ht', rfl⟩ (hfirst hc t')

/-- The thread `t` has set the state, and can not make a thread for `do_refresh`. -/
theorem Inv.thread_fails (h : s.Inv) (ht : s.todo t = .refresh :: rest) (hbusy : ¬s.Busy)
    (hfirst : s.compreq = true → s.NoLate) :
    (s.refreshed (Function.update s.todo t
      ([.cleanupReqs true, .cleanupLinks false, .clearComponent] ++ rest))).Inv := by
  have hok := h.threads t
  rw [ht] at hok
  refine h.change ht hbusy ⟨rfl, rfl, rfl⟩ rfl rfl rfl id id (.inr (.inr (.inl rfl))) nofun
    h.state.refreshed (threadOk_update rfl ?_ fun a _ => (h.threads a).refreshed) ?_
    (h.sender_update rfl nofun) fun hc ha => .inl (h.sent_early hfirst hc ha)
  · refine ⟨?_, fun _ => .inl rfl, nofun, nofun, ?_, ?_, nofun⟩
    · rintro j (- | ⟨-, - | ⟨-, hj⟩⟩)
      · rfl
      · rfl
      · exact hok.tail j hj
    · rintro (hj | hj)
      · exact hok.forgets (.inl (by simpa using hj))
      · exact hok.forgets (.inr (by simpa using hj))
    · intro hj
      exact hok.repairs (by simpa using hj)
  · have hlater : s.compreq = true → ∀ a, (s.refreshed (Function.update s.todo t
        ([.cleanupReqs true, .cleanupLinks false, .clearComponent] ++ rest))).Late a → a = t := by
      rintro hc a ⟨j, hj, hjl⟩
      by_contra hne
      refine hfirst hc a ⟨j, ?_, hjl⟩
      rwa [refreshed_todo, Function.update_of_ne hne] at hj
    exact fun hc a b ha hb => (hlater hc a ha).trans (hlater hc b hb).symm

omit [DecidableEq T] in
theorem update_update [DecidableEq T] (f : T → List Section) (t t' : T) (l l' : List Section) (a : T) :
    Function.update (Function.update f t' l') t l a = l ∧ a = t ∨
    Function.update (Function.update f t' l') t l a = l' ∧ a = t' ∨
    Function.update (Function.update f t' l') t l a = f a := by
  by_cases hat : a = t
  · rw [hat, Function.update_self]
    exact .inl ⟨rfl, rfl⟩
  · rw [Function.update_of_ne hat]
    by_cases hat' : a = t'
    · rw [hat', Function.update_self]
      exact .inr (.inl ⟨rfl, rfl⟩)
    · rw [Function.update_of_ne hat']
      exact .inr (.inr rfl)

/-- The thread `t` has set the state, and made the thread `t'`. -/
theorem Inv.thread_starts (h : s.Inv) (ht : s.todo t = .refresh :: rest) (hbusy : ¬s.Busy)
    (hfirst : s.compreq = true → s.NoLate) {t' : T} :
    (s.refreshed (Function.update (Function.update s.todo t' [.connect, .clearComponent]) t
      rest)).Inv := by
  have hok := h.threads t
  rw [ht] at hok
  have hrest : s.ThreadOk rest :=
    hok.next (l := []) nofun nofun List.not_mem_nil nofun fun _ _ => nofun
  have hcases := fun a => update_update s.todo t t' rest [.connect, .clearComponent] a
  refine h.change ht hbusy ⟨rfl, rfl, rfl⟩ rfl rfl rfl id id (.inr (.inr (.inl rfl))) nofun
    h.state.refreshed ?_ ?_ ?_ fun hc ha => .inl (h.sent_early hfirst hc ha)
  · intro a
    rw [refreshed_todo]
    obtain ⟨ha, -⟩ | ⟨ha, -⟩ | ha := hcases a <;> rw [ha]
    · exact hrest.refreshed
    · exact threadOk_doRefresh
    · exact (h.threads a).refreshed
  · intro hc
    have hlater : ∀ a, (s.refreshed (Function.update (Function.update s.todo t'
        [.connect, .clearComponent]) t rest)).Late a → a = t' := by
      rintro a ⟨j, hj, hjl⟩
      rw [refreshed_todo] at hj
      obtain ⟨ha, -⟩ | ⟨-, hat⟩ | ha := hcases a
      · rw [ha] at hj
        exact absurd ⟨j, by rw [ht]; exact List.mem_cons_of_mem _ hj, hjl⟩ (hfirst hc t)
      · exact hat
      · rw [ha] at hj
        exact absurd ⟨j, hj, hjl⟩ (hfirst hc a)
    exact fun a b ha hb => (hlater a ha).trans (hlater b hb).symm
  · have hsame : ∀ a, (Function.update (Function.update s.todo t' [.connect, .clearComponent]) t
        rest a).head? = some .sendFailed → (s.todo a).head? = some .sendFailed := by
      intro a hs
      obtain ⟨ha, -⟩ | ⟨ha, -⟩ | ha := hcases a <;> rw [ha] at hs
      · cases hok.head_of_tail hs
      · cases hs
      · exact hs
    exact fun a b ha hb => h.sender a b (hsame a ha) (hsame b hb)

/-- The thread `t` finds the node in repair, and deletes the request. -/
theorem Inv.thread_repair (h : s.Inv) (ht : s.todo t = .refresh :: rest) (hbusy : ¬s.Busy)
    (hno : s.NoLate) (hset : s.Settled) :
    Inv { s with localState := .repair, known := some .repair
                 todo := Function.update s.todo t
                  ([.cleanupLinks false, .cleanupReqs false, .clearComponent] ++ rest) } := by
  have hrest := hno.tail ht
  have hforget : ∀ j ∈ rest, j.forgets = true := fun j hj => forgets_of_early (hrest j hj)
  refine h.change ht hbusy ⟨rfl, rfl, rfl⟩ rfl rfl rfl id id (.inr (.inl rfl)) nofun ?_
    (threadOk_update rfl ?_ fun a _ => threadOk_of_early (hno.todo a)) ?_
    (h.sender_update rfl nofun) fun hc ha => .inl (h.sent_early (fun _ => hno) hc ha)
  · exact ⟨h.state.once, h.state.dropped, nofun, nofun, nofun, fun _ => .inl rfl, fun _ => .inl rfl,
      nofun, nofun⟩
  · refine ⟨?_, fun _ => .inr (.inl rfl), nofun, nofun, fun _ => hset, ?_, ?_⟩
    · rintro j (- | ⟨-, - | ⟨-, hj⟩⟩)
      · rfl
      · rfl
      · exact inner_of_early (hrest j hj)
    · intro hj
      cases hforget _ (by simpa using hj)
    · rintro - - j (- | ⟨-, - | ⟨-, - | ⟨-, hj⟩⟩⟩)
      · rfl
      · rfl
      · rfl
      · exact hforget j hj
  · have hlater : ∀ a, Late { s with
        localState := .repair, known := some .repair
        todo := Function.update s.todo t
          ([.cleanupLinks false, .cleanupReqs false, .clearComponent] ++ rest) } a → a = t := by
      rintro a ⟨j, hj, hjl⟩
      by_contra hne
      refine hno a ⟨j, ?_, hjl⟩
      simpa only [Function.update_of_ne hne] using hj
    exact fun _ a b ha hb => (hlater a ha).trans (hlater b hb).symm

/-- The thread `t` finds that the component was not started. -/
theorem Inv.thread_done (h : s.Inv) (ht : s.todo t = .refresh :: rest) (hbusy : ¬s.Busy)
    (hnew : s.localState = .new) (hset : s.Settled) :
    Inv { s with localState := .done
                 todo := Function.update s.todo t ([.clearComponent] ++ rest) } := by
  have hno := h.noLate_of_unset (.inl hnew)
  have hknown := h.state.unset (.inl hnew)
  have hall : ∀ a, ∀ j ∈ Function.update s.todo t ([.clearComponent] ++ rest) a, j.late = false := by
    intro a j hj
    by_cases hat : a = t
    · rw [hat, Function.update_self] at hj
      obtain - | ⟨-, hj⟩ := hj
      · rfl
      · exact hno.tail ht j hj
    · rw [Function.update_of_ne hat] at hj
      exact hno.todo a j hj
  have hnone : ∀ a, ¬∃ j ∈ Function.update s.todo t ([.clearComponent] ++ rest) a, j.late = true := by
    rintro a ⟨j, hj, hjl⟩
    rw [hall a j hj] at hjl
    cases hjl
  refine h.change ht hbusy ⟨rfl, rfl, rfl⟩ rfl rfl rfl id id (.inr (.inr (.inr rfl)))
    (fun _ => ⟨.inl hnew, rfl, rfl⟩) ?_ (fun a => threadOk_of_early (hall a)) (fun _ a _ ha => absurd ha (hnone a))
    (h.sender_update rfl nofun) fun hc ha => .inl (h.sent_early (fun _ => hno) hc ha)
  refine ⟨h.state.once, h.state.dropped, fun _ => hknown, fun _ => .inr (.inl rfl), fun _ => hset, ?_,
    nofun, nofun, nofun⟩
  intro hk
  rw [show s.known = some .repair from hk] at hknown
  cases hknown

/-- The section of `refresh`, by a thread that is not that of `do_initialize`. -/
theorem Inv.thread_refresh (h : s.Inv) (ht : s.todo t = .refresh :: rest) {told : Told T}
    (hcur : ∀ x ∈ s.known, s.getState told.state = x)
    (hfailed : s.place = .createFailed → s.compreq = false) (hr : s.refresh told = some (u, l)) :
    Inv { u with todo := Function.update u.todo t (l ++ rest) } := by
  have hok := h.threads t
  rw [ht] at hok
  obtain ⟨n, rfl, hl⟩ | ⟨hrep, hused, hlocal, rfl, rfl⟩ | ⟨hnew, rfl, rfl⟩ |
    ⟨hrep, hinit, hrefr, hused, todo, rfl, htodo⟩ := refresh_cases hr
  · refine h.pass (l := l ++ rest) ht nofun ⟨rfl, rfl, rfl, rfl, rfl, rfl, rfl, rfl, rfl, rfl, rfl⟩ rfl
      ?_ ?_ ?_
    · refine hok.next ?_ ?_ ?_ ?_ fun _ _ => ?_ <;> obtain rfl | rfl := hl <;>
        simp [Section.inner, Section.late, Section.forgets]
    · intro j hj hjl
      obtain hj | hj := List.mem_append.mp hj
      · obtain rfl | rfl := hl
        · cases hj
        · rw [List.mem_singleton.mp hj] at hjl
          cases hjl
      · exact ⟨j, by rw [ht]; exact List.mem_cons_of_mem _ hj, hjl⟩
    · intro hs
      obtain rfl | rfl := hl
      · cases hok.head_of_tail hs
      · cases hs
  · have hunset := h.unset_of_repair hcur hrep hused hlocal
    refine h.thread_repair ht (h.not_busy_of_unset hfailed hunset) (h.noLate_of_unset hunset) ?_
    obtain hnew | hdone := hunset
    · exact h.settled_of_new ht hfailed hnew
    · exact h.state.done hdone
  · exact h.thread_done ht (h.not_busy_of_unset hfailed (.inl hnew)) hnew
      (h.settled_of_new ht hfailed hnew)
  · have hbusy := h.not_busy_of_cur hfailed hcur hrep hinit
    have hfirst : s.compreq = true → s.NoLate := by
      intro hc
      obtain hnew | hdone | hreq := h.may_refresh hcur hrep hinit hrefr hused
      · exact h.noLate_of_unset (.inl hnew)
      · exact h.noLate_of_unset (.inr hdone)
      · rw [hreq] at hc
        cases hc
    obtain ⟨rfl, rfl⟩ | ⟨t', -, rfl, rfl⟩ := htodo
    · exact h.thread_fails ht hbusy hfirst
    · exact h.thread_starts ht hbusy hfirst

/-! ### A step of a thread -/

/-- A thread goes on with sections that are no more than it had. -/
theorem Inv.pass_next (h : s.Inv) (ht : s.todo t = i :: rest) (hi : i.inner = false)
    (hs : Same s u) (htodo : u.todo = Function.update s.todo t (l ++ rest))
    (hinner : ∀ j ∈ l, j.inner = false) (hlate : ∀ j ∈ l, j.late = true → i.late = true)
    (hreq : .cleanupReqs false ∉ l) (hrep : .setRepair ∈ l → s.compreq = false)
    (hin : i.forgets = true → ∀ j ∈ l, j.forgets = true) : u.Inv := by
  have hok := h.threads t
  rw [ht] at hok
  refine h.pass ht ?_ hs htodo (hok.next hinner hlate hreq hrep ?_) ?_ ?_
  · rintro rfl
    cases hi
  · intro hl hc
    exact hin (hok.inRepair hl hc i List.mem_cons_self)
  · intro j hj hjl
    obtain hj | hj := List.mem_append.mp hj
    · exact ⟨i, by rw [ht]; exact List.mem_cons_self, hlate j hj hjl⟩
    · exact ⟨j, by rw [ht]; exact List.mem_cons_of_mem _ hj, hjl⟩
  · intro hs
    cases l with
    | nil => cases hok.head_of_tail hs
    | cons j l =>
      cases hs
      cases hinner _ List.mem_cons_self

/-- The sections of `do_refresh` go on with others, or with the clean-up. -/
theorem Inv.pass_doRefresh (h : s.Inv) (ht : s.todo t = i :: rest) (hi : i.ofDoRefresh = true)
    (hne : i.forgets = false) (hl : ∀ j ∈ l, j.ofDoRefresh = true) :
    Inv { s with todo := Function.update s.todo t (l ++ rest) } := by
  have hinner : ∀ j : Section, j.ofDoRefresh = true → j.inner = false := by
    intro j hj
    cases j <;> first | rfl | cases hj
  have hlate : i.late = true := by
    cases i <;> first | rfl | cases hi
  refine h.pass_next ht (hinner i hi) ⟨rfl, rfl, rfl, rfl, rfl, rfl, rfl, rfl, rfl, rfl, rfl⟩ rfl
    (fun j hj => hinner j (hl j hj)) (fun _ _ _ => hlate) ?_ ?_ ?_
  · intro hj
    cases hl _ hj
  · intro hj
    cases hl _ hj
  · intro hf
    rw [hne] at hf
    cases hf

/-- `cleanup_reqs(true)` finds the request. -/
theorem Inv.thread_checks (h : s.Inv) (ht : s.todo t = .cleanupReqs true :: rest)
    (hc : s.compreq = true) :
    Inv { s with todo := Function.update s.todo t (.sendFailed :: rest) } := by
  have hlate : s.Late t := late_of_head ht rfl
  have hok := h.threads t
  rw [ht] at hok
  have hbusy := h.not_busy hlate
  -- nobody else is about to answer
  have hinit : ¬Sent s.call ∧ s.place ≠ .deleteReq := by
    have hi := h.init
    unfold InitOk at hi
    unfold Busy at hbusy
    cases hp : s.place <;> rw [hp] at hi hbusy <;> simp only at hi hbusy
    case created | start | waiting | finished => exact ⟨by rw [hi.1]; nofun, nofun⟩
    case createFailed | repairing | failing => exact absurd hc hbusy
    case countLinks => exact absurd hc (by rw [hi.1]; decide)
    case leaving =>
      obtain ⟨-, hall⟩ | ⟨hf, -⟩ := hi
      · refine ⟨fun hs => ?_, nofun⟩
        cases (hall _ (List.mem_of_mem_head? hs)).1
      · rw [hf] at hc
        cases hc
    all_goals exact absurd trivial hbusy
  have honly : ∀ t' j, (s.todo t').head? = some j → j.late = true → j = .cleanupReqs true := by
    intro t' j hj hjl
    have htt := h.unique hc t' t ⟨j, List.mem_of_mem_head? hj, hjl⟩ hlate
    rw [htt, ht] at hj
    exact (Option.some.inj hj).symm
  have hz : s.answers = 0 := by
    by_contra ha
    obtain (hs | hs) | ⟨t', ht'⟩ := h.sent hc ha
    · exact hinit.1 hs
    · exact hinit.2 hs
    · cases honly t' _ ht' rfl
  refine h.pass ht nofun ⟨rfl, rfl, rfl, rfl, rfl, rfl, rfl, rfl, rfl, rfl, rfl⟩ rfl ?_
    (fun _ _ _ => hlate) fun _ t' hs => by cases honly t' _ hs rfl
  refine ⟨hok.tail, fun _ => hok.late ⟨_, List.mem_cons_self, rfl⟩, fun _ => hz, nofun, ?_, ?_, ?_⟩
  · rintro (hj | hj)
    · exact hok.forgets (.inl (List.mem_cons_of_mem _ (by simpa using hj)))
    · exact hok.forgets (.inr (List.mem_cons_of_mem _ (by simpa using hj)))
  · rintro (- | ⟨-, hj⟩)
    exact hok.repairs (List.mem_cons_of_mem _ hj)
  · intro hl _
    cases hok.inRepair hl hc _ List.mem_cons_self

/-- `cleanup_reqs(false)` finds the request. -/
theorem Inv.thread_forgets (h : s.Inv) (ht : s.todo t = .cleanupReqs false :: rest) :
    Inv { s with todo := Function.update s.todo t (.deleteReq false :: rest) } := by
  have hlate : s.Late t := late_of_head ht rfl
  have hok := h.threads t
  rw [ht] at hok
  have hset := hok.forgets (.inl List.mem_cons_self)
  refine h.pass ht nofun ⟨rfl, rfl, rfl, rfl, rfl, rfl, rfl, rfl, rfl, rfl, rfl⟩ rfl ?_
    (fun _ _ _ => hlate) nofun
  refine ⟨hok.tail, fun _ => hok.late ⟨_, List.mem_cons_self, rfl⟩, nofun, nofun, fun _ => hset, ?_, ?_⟩
  · rintro (- | ⟨-, hj⟩)
    exact hok.repairs (List.mem_cons_of_mem _ hj)
  · rintro hl hc j (- | ⟨-, hj⟩)
    · rfl
    · exact hok.inRepair hl hc j (List.mem_cons_of_mem _ hj)

/-- A step of a thread that is not that of `do_initialize`. -/
theorem Inv.thread (h : s.Inv) (info : CompInfo) {told : Told T} (ht : s.todo t = i :: rest)
    (hcur : i = .refresh → ∀ x ∈ s.known, s.getState told.state = x)
    (hfailed : i = .refresh → s.place = .createFailed → s.compreq = false)
    (hexec : s.exec info false told i = some (u, l)) :
    Inv { u with todo := Function.update u.todo t (l ++ rest) } := by
  have hlocked : ∀ {r : Life T × List Section}, locked false s r = some (u, l) → r = (u, l) := by
    intro r hr
    rw [locked, h.held] at hr
    exact Option.some.inj hr
  have hsame : ∀ {links : List ℕ} {counted : ℕ → ℕ} {todo : T → List Section},
      Same s { s with links := links, counted := counted, todo := todo } :=
    ⟨rfl, rfl, rfl, rfl, rfl, rfl, rfl, rfl, rfl, rfl, rfl⟩
  cases i with
  | refresh =>
    simp only [exec] at hexec
    obtain ⟨r, hr, hl⟩ := Option.bind_eq_some_iff.mp hexec
    rw [hlocked hl] at hr
    exact h.thread_refresh ht (hcur rfl) (hfailed rfl) hr
  | cleanupReqs failed =>
    simp only [exec] at hexec
    split at hexec <;> cases hexec
    · next hc =>
      cases failed with
      | true => exact h.thread_checks ht hc
      | false => exact h.thread_forgets ht
    · next hc =>
      have hreq : s.compreq = false := by simpa using hc
      refine h.pass_next ht rfl hsame rfl ?_ (fun _ _ _ => rfl) ?_ (fun _ => hreq) ?_
      · cases failed <;> simp [Section.inner]
      · cases failed <;> simp
      · cases failed <;> simp [Section.forgets]
  | sendFailed =>
    cases hexec
    exact h.thread_send ht
  | deleteReq failed =>
    cases hexec
    exact h.thread_delete ht
  | setRepair =>
    cases hlocked hexec
    exact h.thread_setRepair ht (by split <;> simp)
  | cleanupLinks doInit =>
    cases doInit with
    | true =>
      simp only [exec] at hexec
      split at hexec <;> cases hexec
      · exact h.pass_next ht rfl hsame rfl nofun nofun List.not_mem_nil nofun fun _ => nofun
      · refine h.pass_next ht rfl hsame rfl ?_ (fun _ _ _ => rfl) ?_ ?_ fun _ => ?_ <;>
          simp [Section.inner, Section.forgets]
    | false =>
      cases hexec
      exact h.pass_next ht rfl hsame rfl nofun nofun List.not_mem_nil nofun fun _ => nofun
  | bothCompsDone link =>
    cases hexec
    exact h.pass_next ht rfl hsame rfl nofun nofun List.not_mem_nil nofun fun _ => nofun
  | clearComponent =>
    simp only [exec] at hexec
    split at hexec
    · cases hexec
      exact h.pass_next ht rfl hsame rfl nofun nofun List.not_mem_nil nofun fun _ => nofun
    · cases hlocked hexec
      exact h.pass_next ht rfl hsame rfl nofun nofun List.not_mem_nil nofun fun _ => nofun
  | connect =>
    simp only [exec] at hexec
    split at hexec
    · split at hexec <;> cases hexec
      · exact h.pass_doRefresh ht rfl rfl (by simp [Section.ofDoRefresh])
      · refine h.pass_doRefresh ht rfl rfl ?_
        split <;> simp [nodeFailed, Section.ofDoRefresh]
    · cases hexec
      exact h.pass_doRefresh ht rfl rfl (by simp [Section.ofDoRefresh])
  | sendRefresh depFailed =>
    cases hexec
    refine h.pass_doRefresh ht rfl rfl ?_
    split <;> simp [nodeFailed, Section.ofDoRefresh]
  | getType =>
    simp only [exec] at hexec
    split at hexec
    · cases hexec
      exact h.pass_doRefresh ht rfl rfl (by simp [Section.ofDoRefresh])
    · cases hlocked hexec
      exact h.pass_doRefresh ht rfl rfl (by simp [Section.ofDoRefresh])
  | waitForUpMsg =>
    cases hexec
    refine h.pass_doRefresh ht rfl rfl ?_
    split <;> simp [nodeFailed, Section.ofDoRefresh]
  | dependent =>
    cases hexec
    refine h.pass_doRefresh ht rfl rfl ?_
    split <;> simp [Section.ofDoRefresh]
  | keebootConnect =>
    simp only [exec] at hexec
    split at hexec <;> cases hexec
    · refine h.pass_doRefresh ht rfl rfl ?_
      split <;> simp [nodeFailed, Section.ofDoRefresh]
    · exact h.pass_doRefresh ht rfl rfl (by simp [Section.ofDoRefresh])
  | keebootSend =>
    cases hexec
    refine h.pass_doRefresh ht rfl rfl ?_
    split <;> simp [nodeFailed, Section.ofDoRefresh]
  | keebootUpMsg =>
    cases hexec
    refine h.pass_doRefresh ht rfl rfl ?_
    split <;> simp [nodeFailed, Section.ofDoRefresh]
  | setFree =>
    simp only [exec] at hexec
    split at hexec
    · cases hexec
      exact h.pass_doRefresh (l := []) ht rfl rfl nofun
    · cases hlocked hexec
      exact h.thread_setFree ht

end Frames

end Life

end OnlDaemons.Crd

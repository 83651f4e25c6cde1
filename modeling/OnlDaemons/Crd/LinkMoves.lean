import OnlDaemons.Crd.SessionLinks

/-!
# What a step does to the links of a session

A link is unstarted, busy in its own thread, waiting for the session to complete it, or done. Each
step moves one link on, or drops or refreshes it.

## Main definitions

- `LinkSession.Inv` — where the links stand, and how far the session is with completing them
- `LinkSession.Orderly` — the steps after which every link can still be answered
- `LinkSession.Move` — what a step can do to the links

## Main result

- `step_move` — every step is a move
-/

namespace OnlDaemons.Crd

/-! ### The stages of a link -/

namespace CrdLink

structure Unstarted (l : CrdLink) : Prop where
  state : l.state = .new ∨ l.state = .refreshing
  linkreq : l.linkreq = true
  answers : l.answers = []
  thread : l.thread = .none

/-- In the thread of `do_initialize`. -/
structure Busy (l : CrdLink) : Prop where
  state : l.state = .initializing
  linkreq : l.linkreq = true
  answers : l.answers = []
  thread : l.thread ≠ .none

/-- For the session to complete it. -/
structure Waits (l : CrdLink) : Prop where
  state : l.state = .initializing
  linkreq : l.linkreq = true
  answers : l.answers = []
  thread : l.thread = .none

structure Done (l : CrdLink) : Prop where
  state : l.state ≠ .new ∧ l.state ≠ .initializing
  linkreq : l.linkreq = false
  answers : l.answers.length = 1
  thread : l.thread = .none

/-- The stage is the same, and so is what the components see. -/
structure Same (l l' : CrdLink) : Prop where
  unstarted : l.Unstarted → l'.Unstarted
  busy : l.Busy → l'.Busy
  waits : l.Waits → l'.Waits
  done : l.Done → l'.Done
  state : l'.state = .new ↔ l.state = .new
  linkreq : l'.linkreq = l.linkreq
  numCompsDone : l'.numCompsDone = l.numCompsDone

theorem Same.rfl {l : CrdLink} : l.Same l := ⟨id,id,id,id,.rfl,.refl _,.refl _⟩

variable {l : CrdLink}

theorem same_addPorts {testing added : Bool} {newVlan : ℕ} (h : l.Busy) :
    l.Same (l.addPorts testing newVlan added) := by
  have hbusy : (l.addPorts testing newVlan added).Busy := by
    unfold addPorts
    split
    · exact ⟨h.state,h.linkreq,h.answers,nofun⟩
    · dsimp only
      split <;> exact ⟨h.state,h.linkreq,h.answers,nofun⟩
  have hnum : (l.addPorts testing newVlan added).numCompsDone = l.numCompsDone := by
    unfold addPorts
    split
    · rfl
    · dsimp only
      split <;> rfl
  refine ⟨fun hu => absurd hu.thread h.thread,fun _ => hbusy,fun hw => absurd hw.thread h.thread,
    fun hd => absurd hd.thread h.thread,?_,hbusy.linkreq.trans h.linkreq.symm,hnum⟩
  rw [h.state,hbusy.state]

theorem same_readRefresh (h : l.Busy) : l.Same l.readRefresh := by
  have hbusy : l.readRefresh.Busy := by
    refine ⟨h.state,h.linkreq,h.answers,?_⟩
    unfold readRefresh
    dsimp only
    split <;> exact nofun
  exact ⟨fun hu => absurd hu.thread h.thread,fun _ => hbusy,fun hw => absurd hw.thread h.thread,
    fun hd => absurd hd.thread h.thread,.rfl,rfl,rfl⟩

theorem refresh_initializing (h : l.state = .initializing) :
    l.refresh = { l with needsRefresh := true } := by
  simp [refresh,h]

theorem refresh_done (h : l.Done) : l.refresh.Done ∧ l.refresh.numCompsDone = l.numCompsDone := by
  obtain ⟨hnew,hinit⟩ := h.state
  unfold refresh
  simp only [hnew,hinit,false_and,if_false]
  split
  · exact ⟨h,rfl⟩
  split
  · exact ⟨⟨by simp,h.linkreq,h.answers,h.thread⟩,rfl⟩
  · exact ⟨h,rfl⟩

/-- A link that is refreshed before its components are ready will not be started. -/
theorem refresh_unstarted (h : l.Unstarted) : l.refresh.Unstarted ∧
    l.refresh.state = .refreshing ∧ l.refresh.numCompsDone = l.numCompsDone := by
  have hshape : l.refresh = { l with state := .refreshing } := by
    unfold refresh
    rcases h.state with hs | hs
    · by_cases hv : l.vlanid = 0 <;> simp [hs,hv]
    · simp [hs]
  rw [hshape]
  exact ⟨⟨.inr rfl,h.linkreq,h.answers,h.thread⟩,rfl,rfl⟩

theorem same_refresh (hstage : l.Unstarted ∨ l.Busy ∨ l.Waits ∨ l.Done) (hnew : l.state ≠ .new) :
    l.Same l.refresh := by
  rcases hstage with h | h | h | h
  · obtain ⟨hu,hs,hn⟩ := refresh_unstarted h
    refine ⟨fun _ => hu,fun hb => absurd h.thread hb.thread,fun hw => ?_,fun hd => ?_,?_,
      hu.linkreq.trans h.linkreq.symm,hn⟩
    · rcases h.state with hs | hs
      · exact absurd hs hnew
      · rw [hw.state] at hs
        cases hs
    · have := hd.linkreq.symm.trans h.linkreq
      cases this
    · rw [hs]
      exact ⟨nofun,fun hc => absurd hc hnew⟩
  · rw [refresh_initializing h.state]
    exact ⟨fun hu => absurd hu.thread h.thread,fun hb => ⟨hb.state,hb.linkreq,hb.answers,hb.thread⟩,
      fun hw => absurd hw.thread h.thread,fun hd => absurd hd.thread h.thread,.rfl,rfl,rfl⟩
  · rw [refresh_initializing h.state]
    exact ⟨fun hu => ⟨hu.state,hu.linkreq,hu.answers,hu.thread⟩,fun hb => absurd h.thread hb.thread,
      fun hw => ⟨hw.state,hw.linkreq,hw.answers,hw.thread⟩,
      fun hd => absurd h.state hd.state.2,.rfl,rfl,rfl⟩
  · obtain ⟨hd,hn⟩ := refresh_done h
    refine ⟨fun hu => ?_,fun hb => absurd h.thread hb.thread,fun hw => absurd hw.state h.state.2,
      fun _ => hd,⟨fun hc => absurd hc hd.state.1,fun hc => absurd hc hnew⟩,
      hd.linkreq.trans h.linkreq.symm,hn⟩
    have := hu.linkreq.symm.trans h.linkreq
    cases this

/-- A request that is still there is answered, once. -/
theorem done_completeInitialization (hans : l.answers = [])
    (hthread : l.thread = .none) (status : NccpStatus) :
    (l.completeInitialization status).Done ∧
      (l.completeInitialization status).numCompsDone = l.numCompsDone := by
  unfold completeInitialization
  dsimp only
  generalize (if status ≠ .fine ∨ l.vlanStatus ≠ .fine then NccpStatus.failed else .fine) = st
  have hdone : Done { l.respond st with
      vlanStatus := st
      state := if st = NccpStatus.fine then .active else .failed } := by
    refine ⟨?_,rfl,by simp [respond,hans],hthread⟩
    dsimp only
    split <;> simp
  split
  · exact refresh_done hdone
  · exact ⟨hdone,rfl⟩

theorem refresh_thread (thread : LinkThread) :
    { l.refresh with thread := thread } = { l with thread := thread }.refresh := by
  unfold refresh
  dsimp only
  split
  · rfl
  split
  · rfl
  split
  · rfl
  split <;> rfl

/-- A link completes itself, and then its thread ends. -/
theorem completeInitialization_thread (status : NccpStatus) (thread : LinkThread) :
    { l.completeInitialization status with thread := thread } =
      { l with thread := thread }.completeInitialization status := by
  unfold completeInitialization
  dsimp only [respond]
  split
  · exact refresh_thread thread
  · rfl

/-- A component comes to a link that does not start. -/
theorem compDone_of_not {created : Bool} (h : l.state = .new → l.numCompsDone + 1 ≠ 2) :
    l.compDone created = { l with numCompsDone := l.numCompsDone + 1 } := by
  unfold compDone
  dsimp only
  split
  · rename_i htwo
    have hnew : l.state ≠ .new := fun hs => h hs htwo
    simp [initLink,hnew]
  · rfl

/-- The second component starts the link. -/
theorem compDone_busy (h : l.Unstarted) (hnew : l.state = .new) (hone : l.numCompsDone + 1 = 2) :
    (l.compDone true).Busy ∧ (l.compDone true).numCompsDone = 2 := by
  have hshape : l.compDone true = { l with
      numCompsDone := 2
      state := .initializing
      thread := .addPorts } := by
    simp [compDone,hone,initLink,hnew]
  rw [hshape]
  exact ⟨⟨rfl,h.linkreq,h.answers,nofun⟩,rfl⟩

/-- The thread cannot be created. -/
theorem compDone_done (h : l.Unstarted) (hnew : l.state = .new) (hone : l.numCompsDone + 1 = 2) :
    (l.compDone false).Done ∧ (l.compDone false).numCompsDone = 2 := by
  have hshape : l.compDone false = { l with
      numCompsDone := 2
      state := .failed
      answers := [.failed]
      linkreq := false } := by
    simp [compDone,hone,initLink,hnew,cleanupReqs,h.linkreq,respond,h.answers]
  rw [hshape]
  exact ⟨⟨⟨nofun,nofun⟩,rfl,rfl,h.thread⟩,rfl⟩

end CrdLink

/-! ### What a step can do -/

namespace LinkSession

variable {L C : Type} [DecidableEq L] {testing : Bool} {s t : LinkSession L C}

/-- The visits of components that the link has to come. -/
def todo (s : LinkSession L C) (l : L) : ℕ := s.pending.countP (·.2 = l)

/-- Where a link stands in its session. -/
def Stage (s : LinkSession L C) (l : L) : Prop :=
  ((s.link l).Unstarted ∨ (s.link l).Busy) ∧ l ∈ s.unreported ∨
    (s.link l).Waits ∧ l ∉ s.unreported ∨ (s.link l).Done

/-- How far the session is with the completion of its links. -/
def Completed (s : LinkSession L C) : Prop :=
  match s.completion with
  | .none => s.vlansCreated = false ∧ s.starts = 0 ∧ (s.links ≠ [] → s.unreported ≠ []) ∧
      ∀ l ∈ s.links, (s.link l).Done → l ∈ s.unreported
  | .start => s.vlansCreated = true ∧ s.starts = 0 ∧ s.unreported = [] ∧
      ∀ l ∈ s.links, (s.link l).Waits
  | .links _ rest => s.vlansCreated = true ∧ s.starts = 1 ∧ s.unreported = [] ∧ rest.Nodup ∧
      ∀ l ∈ s.links, if l ∈ rest then (s.link l).Waits else (s.link l).Done

structure Inv (s : LinkSession L C) : Prop where
  nodup : s.links.Nodup
  pending : ∀ p ∈ s.pending, p.2 ∈ s.links
  unreported : ∀ l ∈ s.unreported, l ∈ s.links
  clearing : ∀ l ∈ s.clearing, l ∈ s.links
  rest : ∀ status rest, s.completion = .links status rest → ∀ l ∈ rest, l ∈ s.links
  count : ∀ l ∈ s.links, (s.link l).numCompsDone + s.todo l ≤ 2
  new : ∀ l ∈ s.links, (s.link l).state = .new → (s.link l).numCompsDone < 2
  started : ∀ l ∈ s.links, (s.link l).Unstarted ∨ (s.link l).numCompsDone = 2
  outside : ∀ l ∉ s.links, (s.link l).thread = .none
  stage : ∀ l ∈ s.links, s.Stage l
  completed : s.Completed

/-- What a step leaves alone unless it is about it. -/
structure Frame (s t : LinkSession L C) : Prop where
  links : t.links = s.links
  unreported : t.unreported = s.unreported
  vlansCreated : t.vlansCreated = s.vlansCreated
  completion : t.completion = s.completion
  starts : t.starts = s.starts
  clearing : ∀ l ∈ t.clearing, l ∈ s.clearing ∨ l ∈ s.links

/-- One visit of the link by a component is over. -/
structure Visited (s t : LinkSession L C) (l : L) : Prop where
  pending : ∀ p ∈ t.pending, p ∈ s.pending
  todo : ∀ m, s.todo m = t.todo m + if m = l then 1 else 0
  other : ∀ m, m ≠ l → t.link m = s.link m

/-- The steps after which every link can still be answered: every component goes through all
its links, no link is refreshed before it starts, and a link does not end by itself when another
waits for the session, nor is left waiting for one that ended by itself. -/
def Orderly [DecidableEq C] (s : LinkSession L C) : LinkAct L C → Prop
  | .initializeComp ignored => ignored = true → ∀ k ∈ s.toStart.head?, ∀ p ∈ s.pending, p.1 ≠ k
  | .dropLinks k => ∀ p ∈ s.pending, p.1 ≠ k
  | .takeLink k created => created = false → ∀ p ∈ s.pending.find? (·.1 = k),
      (s.link p.2).state = .new → (s.link p.2).numCompsDone = 1 →
        ∀ l ∈ s.links, l ∉ s.unreported → (s.link l).linkreq = false
  | .complete _ => ∀ l ∈ s.links, l ∉ s.unreported → (s.link l).linkreq = false
  | .report _ => ∀ l ∈ s.unreported, (s.link l).linkreq = true
  | .refreshNext => ∀ l ∈ s.clearing.head?, (s.link l).state ≠ .new
  | _ => True

/-- What a step can do to the links, and whether it is orderly. -/
inductive Move (s t : LinkSession L C) : Prop → Prop
  | still (hf : Frame s t) (hp : t.pending = s.pending) (hl : ∀ l ∈ s.links, (s.link l).Same (t.link l))
    (ho : ∀ l ∉ s.links, t.link l = s.link l) : Move s t True
  | spoil (hf : Frame s t) (hp : t.pending = s.pending) (l : L) (hm : l ∈ s.links)
    (hu : (s.link l).Unstarted) (ht : (t.link l).Unstarted) (hr : (t.link l).state = .refreshing)
    (hn : (t.link l).numCompsDone = (s.link l).numCompsDone)
    (ho : ∀ m, m ≠ l → t.link m = s.link m) : Move s t False
  | drop (hf : Frame s t) (hl : t.link = s.link) (hp : t.pending.Sublist s.pending)
    (l : L) (hlost : t.todo l < s.todo l) : Move s t False
  | arrive (hf : Frame s t) (l : L) (hv : Visited s t l)
    (hn : (s.link l).state = .new → (s.link l).numCompsDone + 1 ≠ 2)
    (ht : t.link l = { s.link l with numCompsDone := (s.link l).numCompsDone + 1 }) : Move s t True
  | begin (hf : Frame s t) (l : L) (hv : Visited s t l) (hu : (s.link l).Unstarted)
    (hnew : (s.link l).state = .new) (hn : (s.link l).numCompsDone + 1 = 2)
    (ht : (t.link l).Busy) (ht' : (t.link l).numCompsDone = 2) : Move s t True
  | fail (hf : Frame s t) (l : L) (hv : Visited s t l) (hu : (s.link l).Unstarted)
    (hnew : (s.link l).state = .new) (hn : (s.link l).numCompsDone + 1 = 2)
    (ht : (t.link l).Done) (ht' : (t.link l).numCompsDone = 2) :
    Move s t (∀ m ∈ s.links, m ∉ s.unreported → (s.link m).linkreq = false)
  | alone (hf : Frame s t) (hp : t.pending = s.pending) (l : L) (hb : (s.link l).Busy)
    (hd : (t.link l).Done) (hn : (t.link l).numCompsDone = (s.link l).numCompsDone)
    (ho : ∀ m, m ≠ l → t.link m = s.link m) :
    Move s t (∀ m ∈ s.links, m ∉ s.unreported → (s.link m).linkreq = false)
  | report (l : L) (hb : (s.link l).Busy) (hw : (t.link l).Waits)
    (hn : (t.link l).numCompsDone = (s.link l).numCompsDone)
    (ho : ∀ m, m ≠ l → t.link m = s.link m) (hp : t.pending = s.pending)
    (hlinks : t.links = s.links) (hclear : t.clearing = s.clearing) (hstarts : t.starts = s.starts)
    (hun : t.unreported = s.unreported.filter (· ≠ l))
    (hc : if t.unreported = [] ∧ s.vlansCreated = false then
      t.completion = .start ∧ t.vlansCreated = true
      else t.completion = s.completion ∧ t.vlansCreated = s.vlansCreated) :
    Move s t (∀ m ∈ s.unreported, (s.link m).linkreq = true)
  | start (status : NccpStatus) (hs : s.completion = .start)
    (ht : t = { s with
      completion := .links status s.links
      starts := s.starts + 1 }) : Move s t True
  | finish (status : NccpStatus) (l : L) (rest : List L) (hs : s.completion = .links status (l :: rest))
    (hd : (s.link l).Waits → (t.link l).Done)
    (hn : (s.link l).Waits → (t.link l).numCompsDone = (s.link l).numCompsDone)
    (ht : t = { s with
      completion := .links status rest
      link := t.link }) (ho : ∀ m, m ≠ l → t.link m = s.link m) : Move s t True

theorem todo_erase [DecidableEq C] {p : C × L} (h : p ∈ s.pending) (m : L) :
    s.todo m = (s.pending.erase p).countP (·.2 = m) + if m = p.2 then 1 else 0 := by
  rw [todo,(List.perm_cons_erase h).countP_eq,List.countP_cons]
  by_cases hm : m = p.2
  · simp [hm]
  · simp [hm,Ne.symm hm]

theorem frame_setLink {l : L} {f : CrdLink → CrdLink} : Frame s (s.setLink l f) :=
  ⟨rfl,rfl,rfl,rfl,rfl,fun _ => .inl⟩

@[simp] theorem setLink_self (s : LinkSession L C) (l : L) (f : CrdLink → CrdLink) :
    (s.setLink l f).link l = f (s.link l) := Function.update_self ..

theorem setLink_other {l m : L} {f : CrdLink → CrdLink} (h : m ≠ l) :
    (s.setLink l f).link m = s.link m := Function.update_of_ne h ..

/-- A link moves within its stage. -/
theorem Move.setLink {l : L} {f : CrdLink → CrdLink} (hf : Frame s t) (hp : t.pending = s.pending)
    (hl : t.link = (s.setLink l f).link) (hm : l ∈ s.links) (hsame : (s.link l).Same (f (s.link l))) :
    Move s t True := by
  refine .still hf hp (fun m _ => ?_) fun m hm' => ?_
  · rw [hl]
    by_cases hml : m = l
    · subst hml
      rwa [setLink_self]
    · rw [setLink_other hml]
      exact .rfl
  · rw [hl,setLink_other fun he => hm' (by rw [he]; exact hm)]

theorem Inv.mem_of_thread (h : s.Inv) {l : L} (hl : (s.link l).thread ≠ .none) : l ∈ s.links := by
  by_contra hm
  exact hl (h.outside l hm)

theorem Inv.busy (h : s.Inv) {l : L} (hl : (s.link l).thread ≠ .none) : (s.link l).Busy := by
  rcases h.stage l (h.mem_of_thread hl) with ⟨hu | hb,_⟩ | ⟨hw,_⟩ | hd
  · exact absurd hu.thread hl
  · exact hb
  · exact absurd hw.thread hl
  · exact absurd hd.thread hl

theorem Inv.unstarted (h : s.Inv) {l : L} (hm : l ∈ s.links) (hl : (s.link l).state = .new) :
    (s.link l).Unstarted := by
  rcases h.stage l hm with ⟨hu | hb,_⟩ | ⟨hw,_⟩ | hd
  · exact hu
  · cases hl.symm.trans hb.state
  · cases hl.symm.trans hw.state
  · exact absurd hl hd.state.1

theorem Inv.stages (h : s.Inv) {l : L} (hm : l ∈ s.links) :
    (s.link l).Unstarted ∨ (s.link l).Busy ∨ (s.link l).Waits ∨ (s.link l).Done := by
  rcases h.stage l hm with ⟨hu | hb,_⟩ | ⟨hw,_⟩ | hd
  · exact .inl hu
  · exact .inr (.inl hb)
  · exact .inr (.inr (.inl hw))
  · exact .inr (.inr (.inr hd))

variable [DecidableEq C]

/-- Some entries of a component are taken off. -/
theorem move_filter {k : C} (hf : Frame s t) (hl : t.link = s.link)
    (hp : t.pending = s.pending.filter (·.1 ≠ k)) :
    ∃ ok, Move s t ok ∧ ((∀ p ∈ s.pending, p.1 ≠ k) ↔ ok) := by
  by_cases hno : ∀ p ∈ s.pending, p.1 ≠ k
  · refine ⟨True,.still hf ?_ (fun l _ => hl ▸ .rfl) (fun l _ => hl ▸ rfl),iff_true_intro hno⟩
    rw [hp,List.filter_eq_self]
    exact fun p hpm => by simpa using hno p hpm
  · refine ⟨False,?_,iff_false_intro hno⟩
    obtain ⟨p,hpm,hpk⟩ : ∃ p ∈ s.pending, p.1 = k := by
      by_contra h
      exact hno fun p hpm hpk => h ⟨p,hpm,hpk⟩
    refine .drop hf hl (hp ▸ List.filter_sublist) p.2 ?_
    have hsplit := List.countP_eq_countP_filter_add s.pending (·.2 = p.2) (·.1 ≠ k)
    have hpos : 0 < (s.pending.filter (fun q => ¬(q.1 ≠ k))).countP (·.2 = p.2) :=
      List.countP_pos_iff.mpr ⟨p,by simp [hpm,hpk],by simp⟩
    rw [todo,todo,hp]
    simp only [decide_not] at hsplit hpos ⊢
    omega

theorem takeLink_move {k : C} {created : Bool} (h : s.Inv)
    (hs : s.step testing (.takeLink k created) = some t) :
    ∃ ok, Move s t ok ∧ (s.Orderly (.takeLink k created) ↔ ok) := by
  simp only [step] at hs
  split at hs
  rotate_left
  · cases hs
  split at hs
  · cases hs
  rename_i p hfind
  cases hs
  have hp : p ∈ s.pending := List.mem_of_find?_eq_some hfind
  have hm : p.2 ∈ s.links := h.pending p hp
  have hself : (setLink { s with pending := s.pending.erase p } p.2 (·.compDone created)).link p.2 =
      (s.link p.2).compDone created := setLink_self ..
  have hvisit : Visited s (setLink { s with pending := s.pending.erase p } p.2
      (·.compDone created)) p.2 :=
    ⟨fun q => List.mem_of_mem_erase,todo_erase hp,fun m hne => setLink_other hne⟩
  have hf : Frame s (setLink { s with pending := s.pending.erase p } p.2 (·.compDone created)) :=
    ⟨rfl,rfl,rfl,rfl,rfl,fun _ => .inl⟩
  by_cases hstart : (s.link p.2).state = .new ∧ (s.link p.2).numCompsDone + 1 = 2
  · obtain ⟨hnew,hone⟩ := hstart
    have hu := h.unstarted hm hnew
    cases created with
    | true =>
      obtain ⟨hb,htwo⟩ := CrdLink.compDone_busy hu hnew hone
      exact ⟨True,.begin hf p.2 hvisit hu hnew hone (hself ▸ hb) (hself ▸ htwo),iff_true_intro nofun⟩
    | false =>
      obtain ⟨hd,htwo⟩ := CrdLink.compDone_done hu hnew hone
      refine ⟨_,.fail hf p.2 hvisit hu hnew hone (hself ▸ hd) (hself ▸ htwo),?_⟩
      simp only [Orderly,hfind,Option.mem_some_iff,forall_eq',hnew,true_implies]
      exact ⟨fun hall => hall (by omega),fun hall _ => hall⟩
  · have hnot : (s.link p.2).state = .new → (s.link p.2).numCompsDone + 1 ≠ 2 :=
      fun hnew hone => hstart ⟨hnew,hone⟩
    refine ⟨True,.arrive hf p.2 hvisit hnot (hself.trans (CrdLink.compDone_of_not hnot)),?_⟩
    simp only [Orderly,hfind,Option.mem_some_iff,forall_eq',iff_true]
    exact fun _ hnew hone => absurd (by omega) (hnot hnew)

theorem report_move {l : L} (h : s.Inv) (hs : s.step testing (.report l) = some t) :
    Move s t (∀ m ∈ s.unreported, (s.link m).linkreq = true) := by
  simp only [step] at hs
  split at hs
  rotate_left
  · cases hs
  rename_i hthread
  cases hs
  have hb := h.busy (l := l) (by rw [hthread]; nofun)
  have hlink : (s.linkVlanportsAdded l).link = s.link := by
    simp only [linkVlanportsAdded]
    split <;> rfl
  have hself : ((s.linkVlanportsAdded l).setLink l ({ · with thread := .none })).link l =
      { s.link l with thread := .none } := by
    rw [setLink_self,hlink]
  refine .report l hb ?_ (by rw [hself]) (fun m hne => ?_) ?_ ?_ ?_ ?_ ?_ ?_
  · rw [hself]
    exact ⟨hb.state,hb.linkreq,hb.answers,rfl⟩
  · rw [setLink_other hne,hlink]
  all_goals simp only [setLink,linkVlanportsAdded]; split <;> simp_all

/-- A step moves the links, in an orderly way or not. -/
theorem step_move {a : LinkAct L C} (h : s.Inv) (hs : s.step testing a = some t) :
    ∃ ok, Move s t ok ∧ (s.Orderly a ↔ ok) := by
  cases a with
  | initializeComp ignored =>
    simp only [step] at hs
    split at hs
    · cases hs
    rename_i k rest hstart
    cases ignored with
    | true =>
      cases hs
      have hmove : ∃ ok, Move s { s with
          toStart := rest
          pending := s.pending.filter (·.1 ≠ k) } ok ∧ ((∀ p ∈ s.pending, p.1 ≠ k) ↔ ok) :=
        move_filter ⟨rfl,rfl,rfl,rfl,rfl,fun _ => .inl⟩ rfl rfl
      obtain ⟨ok,hmove,hok⟩ := hmove
      refine ⟨ok,hmove,?_⟩
      simpa [Orderly,hstart] using hok
    | false =>
      cases hs
      exact ⟨True,.still ⟨rfl,rfl,rfl,rfl,rfl,fun _ => .inl⟩ rfl (fun _ _ => .rfl) fun _ _ => rfl,
        iff_true_intro nofun⟩
  | takeLink k created => exact takeLink_move h hs
  | dropLinks k =>
    cases hs
    exact move_filter (k := k) ⟨rfl,rfl,rfl,rfl,rfl,fun _ => .inl⟩ rfl rfl
  | addPorts l newVlan added =>
    simp only [step] at hs
    split at hs
    · rename_i hthread
      cases hs
      have hb := h.busy (l := l) (by rw [hthread]; nofun)
      exact ⟨True,.setLink frame_setLink rfl rfl (h.mem_of_thread hb.thread)
        (CrdLink.same_addPorts hb),iff_true_intro trivial⟩
    · cases hs
  | readRefresh l =>
    simp only [step] at hs
    split at hs
    · rename_i hthread
      cases hs
      have hb := h.busy (l := l) (by rw [hthread]; nofun)
      exact ⟨True,.setLink frame_setLink rfl rfl (h.mem_of_thread hb.thread)
        (CrdLink.same_readRefresh hb),iff_true_intro trivial⟩
    · cases hs
  | complete l =>
    simp only [step] at hs
    split at hs
    · rename_i hthread
      cases hs
      have hb := h.busy (l := l) (by rw [hthread]; nofun)
      obtain ⟨hd,hn⟩ := CrdLink.done_completeInitialization
        (show CrdLink.answers { s.link l with thread := .none } = [] from hb.answers) rfl
        (s.link l).vlanStatus
      refine ⟨_,.alone frame_setLink rfl l hb ?_ ?_ fun m hne => setLink_other hne,.rfl⟩
      · rwa [setLink_self,CrdLink.completeInitialization_thread]
      · rw [setLink_self,CrdLink.completeInitialization_thread]
        exact hn
    · cases hs
  | report l => exact ⟨_,report_move h hs,.rfl⟩
  | startVlans success =>
    simp only [step] at hs
    split at hs
    · cases hs
      exact ⟨True,.start _ ‹_› rfl,iff_true_intro trivial⟩
    · cases hs
  | completeNext =>
    simp only [step] at hs
    split at hs
    · rename_i status l rest hcomp
      cases hs
      refine ⟨True,.finish status l rest hcomp ?_ ?_ rfl fun m hne => setLink_other hne,
        iff_true_intro trivial⟩
      · intro hw
        rw [setLink_self]
        exact (CrdLink.done_completeInitialization hw.answers hw.thread status).1
      · intro hw
        rw [setLink_self]
        exact (CrdLink.done_completeInitialization hw.answers hw.thread status).2
    · cases hs
  | clear =>
    simp only [step] at hs
    split at hs
    · cases hs
      exact ⟨True,.still ⟨rfl,rfl,rfl,rfl,rfl,fun _ => .inr⟩ rfl (fun _ _ => .rfl) fun _ _ => rfl,
        iff_true_intro trivial⟩
    · cases hs
  | refreshNext =>
    simp only [step] at hs
    split at hs
    · cases hs
    rename_i l rest hclear
    cases hs
    have hm : l ∈ s.links := h.clearing l (by simp [hclear])
    have hf : Frame s (setLink { s with clearing := rest } l (·.refresh)) :=
      ⟨rfl,rfl,rfl,rfl,rfl,fun m hm => .inl (by rw [hclear]; exact List.mem_cons_of_mem _ hm)⟩
    by_cases hnew : (s.link l).state = .new
    · obtain ⟨hu,hr,hn⟩ := CrdLink.refresh_unstarted (h.unstarted hm hnew)
      refine ⟨False,.spoil hf rfl l hm (h.unstarted hm hnew) ?_ ?_ ?_ fun m hne => setLink_other hne,?_⟩
      · rwa [setLink_self]
      · rwa [setLink_self]
      · rwa [setLink_self]
      · simp [Orderly,hclear,hnew]
    · exact ⟨True,.setLink hf rfl rfl hm (CrdLink.same_refresh (h.stages hm) hnew),
        iff_true_intro (by simpa [Orderly,hclear] using hnew)⟩

end LinkSession

end OnlDaemons.Crd

import OnlDaemons.Crd.LifeCycle

/-!
# The thread of `do_initialize`, and the runs of a component

## Main definitions

- `Life.Cleaning` — the places where the request has been dealt with
- `Life.LinksOk` — the ends of links

## Main result

- `Life.good_of_orderly` — over runs
-/

namespace OnlDaemons.Crd
open OnlDaemons.Lib

namespace Life

variable {T : Type} {s u : Life T} {t : T} {i : Section} {rest l : List Section}

theorem Inv.init_change (h : s.Inv)
    (hflags : u.held = s.held ∧ u.selfLocked = s.selfLocked ∧ u.crashed = s.crashed)
    (htodo : u.todo = s.todo) (hstate : u.StateOk) (hthreads : ∀ t, u.ThreadOk (s.todo t))
    (hreq : u.compreq = true → s.compreq = true)
    (hsent : u.compreq = true → u.answers ≠ 0 →
      (Sent u.call ∨ u.place = .deleteReq) ∨ ∃ t, (s.todo t).head? = some (.deleteReq true))
    (hearly : u.place.begun = false → u.cleared = false →
      (∀ t, s.todo t = []) ∧ u.localState = .new ∧ (u.compreq = true ∨ u.answers = 1))
    (hinit : u.InitOk) : u.Inv := by
  refine ⟨hflags.1 ▸ h.held, hflags.2.1 ▸ h.selfLocked, hflags.2.2 ▸ h.crashed, hstate,
    fun t => htodo ▸ hthreads t, fun hc a b ha hb => ?_, ?_, ?_, ?_, hinit⟩
  · rw [Late, htodo] at ha hb
    exact h.unique (hreq hc) a b ha hb
  · rw [htodo]
    exact h.sender
  · rw [htodo]
    exact hsent
  · rw [htodo]
    exact hearly

/-- Two states that differ only in where `do_initialize` is, and in what the invariant does not read. -/
structure SameState (s u : Life T) : Prop where
  known : u.known = s.known
  localState : u.localState = s.localState
  compreq : u.compreq = s.compreq
  answers : u.answers = s.answers
  held : u.held = s.held
  selfLocked : u.selfLocked = s.selfLocked
  crashed : u.crashed = s.crashed
  cleared : u.cleared = s.cleared
  todo : u.todo = s.todo

/-- `do_initialize` goes on, and changes nothing else. -/
theorem Inv.init_pass (h : s.Inv) (hs : SameState s u)
    (hsent : ¬Sent s.call ∧ s.place ≠ .deleteReq)
    (hbegun : u.place.begun = false → s.place.begun = false)
    (hnew : u.place.begun = true → s.localState = .new →
      u.place = .createFailed ∨ s.compreq = false ∧ s.answers = 1)
    (hinit : u.InitOk) : u.Inv := by
  have hset : s.Settled → u.Settled := by
    rw [Settled, Settled, hs.cleared, hs.compreq, hs.answers]
    exact id
  refine h.init_change ⟨hs.held, hs.selfLocked, hs.crashed⟩ hs.todo ?_ ?_ (fun hc => hs.compreq ▸ hc) ?_ ?_
    hinit
  · refine ⟨hs.answers ▸ h.state.once, ?_, ?_, ?_, ?_, ?_, ?_, ?_, ?_⟩ <;>
      simp only [hs.known, hs.localState, hs.compreq, hs.answers, hs.cleared]
    exacts [h.state.dropped, h.state.unset, h.state.unknown, fun hd => hset (h.state.done hd),
      h.state.knownRepair, h.state.repair, h.state.initializing, hnew]
  · intro t
    have hok := h.threads t
    refine ⟨hok.tail, ?_, ?_, ?_, fun hj => hset (hok.forgets hj), ?_, ?_⟩
    · rw [hs.localState]
      exact hok.late
    · rw [hs.answers]
      exact hok.sends
    · rw [hs.answers]
      exact hok.deletes
    · rw [hs.compreq]
      exact hok.repairs
    · rw [hs.localState, hs.compreq]
      exact hok.inRepair
  · intro hc ha
    obtain (hc | hc) | ht := h.sent (hs.compreq ▸ hc) (hs.answers ▸ ha)
    · exact absurd hc hsent.1
    · exact absurd hc hsent.2
    · exact .inr ht
  · intro hb hc
    rw [hs.localState, hs.compreq, hs.answers]
    exact h.early (hbegun hb) (hs.cleared ▸ hc)

/-- While `do_initialize` is busy no thread refreshes the component. -/
theorem Inv.noLate_of_busy (h : s.Inv) (hb : s.Busy) : s.NoLate :=
  fun _ hl => h.not_busy hl hb

/-- `do_initialize` answers. -/
theorem Inv.init_send (h : s.Inv) (hb : s.Busy) (hc : s.compreq = true) (hz : s.answers = 0)
    {p : InitPlace} {c : List Section} (hsent : Sent c ∨ p = .deleteReq)
    (hbegun : s.place.begun = true) (hp : p.begun = true)
    (hplace : s.place = .createFailed → p = .createFailed)
    (hinit : InitOk { s with answers := s.answers + 1, place := p, call := c }) :
    Inv { s with answers := s.answers + 1, place := p, call := c } := by
  have hno := h.noLate_of_busy hb
  have hone : s.answers + 1 = 1 := by rw [hz]
  refine h.init_change ⟨rfl, rfl, rfl⟩ rfl ?_ (fun t => threadOk_of_early (hno.todo t)) id
    (fun _ _ => .inl hsent) ?_ hinit
  · refine ⟨?_, fun _ => .inr hone, h.state.unset, h.state.unknown, ?_, h.state.knownRepair,
      h.state.repair, h.state.initializing, ?_⟩
    · show s.answers + 1 ≤ 1
      omega
    · intro hd
      exact (h.state.done hd).imp_right fun hs => by rw [hs.1] at hc; cases hc
    · intro _ hn
      obtain hp | ⟨hf, -⟩ := h.state.begun hbegun hn
      · exact .inl (hplace hp)
      · rw [hf] at hc
        cases hc
  · intro hpb
    rw [show p.begun = false from hpb] at hp
    cases hp

/-- `do_initialize` deletes the request. -/
theorem Inv.init_delete (h : s.Inv) (hdone : s.cleared = true ∨ s.answers = 1) {p : InitPlace}
    {c : List Section} (hbegun : s.place.begun = true) (hp : p.begun = true)
    (hplace : s.place = .createFailed → p = .createFailed)
    (hinit : InitOk { s with compreq := false, place := p, call := c }) :
    Inv { s with compreq := false, place := p, call := c } := by
  have hset : s.Settled → s.cleared = true ∨ false = false ∧ s.answers = 1 :=
    fun hs => hs.imp_right fun hd => ⟨rfl, hd.2⟩
  refine h.init_change ⟨rfl, rfl, rfl⟩ rfl ?_ ?_ nofun nofun ?_ hinit
  · refine ⟨h.state.once, fun _ => hdone, h.state.unset, h.state.unknown,
      fun hd => hset (h.state.done hd), h.state.knownRepair, fun _ => .inr rfl, ?_, ?_⟩
    · intro hi
      exact (h.state.initializing hi).imp_right fun hd => ⟨hd.1, rfl⟩
    · intro _ hn
      obtain hpl | ⟨-, ha⟩ := h.state.begun hbegun hn
      · exact .inl (hplace hpl)
      · exact .inr ⟨rfl, ha⟩
  · intro t
    have hok := h.threads t
    exact ⟨hok.tail, hok.late, hok.sends, hok.deletes, fun hj => hset (hok.forgets hj), fun _ => rfl,
      nofun⟩
  · intro hpb
    rw [show p.begun = false from hpb] at hp
    cases hp

/-- The places where the request has been dealt with. -/
def Cleaning (s : Life T) : Prop :=
  match s.place with
  | .createFailed | .repairing | .failing | .countLinks => s.answers = 1
  | .leaving => True
  | _ => False

theorem InitOk.of_cleaning (hc : s.compreq = false) (hcl : s.Cleaning)
    (hcall : ∀ j ∈ s.call, j.cleansUp = true) : s.InitOk := by
  unfold Cleaning at hcl
  unfold InitOk
  split at hcl
  · next hp =>
    rw [hp]
    exact .inr ⟨hc, hcl, hcall⟩
  · next hp =>
    rw [hp]
    exact .inr ⟨hc, hcl, hcall⟩
  · next hp =>
    rw [hp]
    exact .inr ⟨hc, hcl, hcall⟩
  · next hp =>
    rw [hp]
    exact ⟨hc, hcl, hcall⟩
  · next hp =>
    rw [hp]
    exact .inr ⟨hc, hcall⟩
  · cases hcl

theorem Cleaning.begun (h : s.Cleaning) : s.place.begun = true ∧ s.place ≠ .deleteReq := by
  unfold Cleaning at h
  split at h
  · next hp => exact ⟨by rw [hp]; rfl, by rw [hp]; decide⟩
  · next hp => exact ⟨by rw [hp]; rfl, by rw [hp]; decide⟩
  · next hp => exact ⟨by rw [hp]; rfl, by rw [hp]; decide⟩
  · next hp => exact ⟨by rw [hp]; rfl, by rw [hp]; decide⟩
  · next hp => exact ⟨by rw [hp]; rfl, by rw [hp]; decide⟩
  · cases h

/-- The states change after the request was dealt with. -/
theorem Inv.cleanup_change (h : s.Inv) (hc : s.compreq = false) (hcl : s.Cleaning)
    (hflags : u.held = s.held ∧ u.selfLocked = s.selfLocked ∧ u.crashed = s.crashed)
    (hreq : u.compreq = s.compreq) (hans : u.answers = s.answers) (hplace : u.place = s.place)
    (hcall : ∀ j ∈ u.call, j.cleansUp = true)
    (hstate : u.StateOk) (hthreads : ∀ t, u.ThreadOk (u.todo t))
    (hsender : ∀ a b, (u.todo a).head? = some .sendFailed → (u.todo b).head? = some .sendFailed →
      a = b) : u.Inv := by
  have hc' : u.compreq ≠ true := by
    rw [hreq, hc]
    decide
  refine ⟨hflags.1 ▸ h.held, hflags.2.1 ▸ h.selfLocked, hflags.2.2 ▸ h.crashed, hstate, hthreads,
    fun hu => absurd hu hc', hsender, fun hu => absurd hu hc', ?_,
    .of_cleaning (hreq.trans hc) ?_ hcall⟩
  · intro hb
    rw [hplace, hcl.begun.1] at hb
    cases hb
  · unfold Cleaning at hcl ⊢
    rw [hplace, hans]
    exact hcl

theorem cleansUp_append (hall : ∀ j ∈ i :: rest, j.cleansUp = true)
    (hl : ∀ j ∈ l, j.cleansUp = true) : ∀ j ∈ l ++ rest, j.cleansUp = true := by
  intro j hj
  obtain hj | hj := List.mem_append.mp hj
  · exact hl j hj
  · exact hall j (List.mem_cons_of_mem _ hj)

variable [DecidableEq T]

omit [DecidableEq T] in
/-- In repair, for the component and in the database. -/
theorem StateOk.of_repair (honce : s.answers ≤ 1) (hdropped : s.compreq = false → s.cleared = true ∨ s.answers = 1)
    (hlocal : s.localState = .repair) (hknown : s.known = some .repair) : s.StateOk where
  once := honce
  dropped := hdropped
  unset h := by
    rw [hlocal] at h
    obtain h | h := h <;> cases h
  unknown h := by
    rw [hknown] at h
    cases h
  done h := by
    rw [hlocal] at h
    cases h
  knownRepair _ := .inl hlocal
  repair _ := .inl hknown
  initializing h := by
    rw [hlocal] at h
    cases h
  begun _ h := by
    rw [hlocal] at h
    cases h

/-- The section of `refresh`, called by `do_initialize` when the request has been dealt with. -/
theorem Inv.init_refresh (h : s.Inv) (hc : s.compreq = false) (hcl : s.Cleaning)
    (hcall : s.call = .refresh :: rest) (hall : ∀ j ∈ s.call, j.cleansUp = true) {told : Told T}
    (hcur : ∀ x ∈ s.known, s.getState told.state = x) (hr : s.refresh told = some (u, l)) :
    Inv { u with call := l ++ rest } := by
  rw [hcall] at hall
  have hclean : ∀ l' : List Section, (∀ j ∈ l', j.cleansUp = true) →
      ∀ j ∈ l' ++ rest, j.cleansUp = true := fun l' => cleansUp_append hall
  have hsent : ¬Sent s.call := by
    rw [hcall]
    nofun
  have hset : s.Settled := (h.state.dropped hc).imp_right fun ha => ⟨hc, ha⟩
  obtain ⟨n, rfl, hl⟩ | ⟨hrep, hused, hlocal, rfl, rfl⟩ | ⟨hnew, rfl, rfl⟩ |
    ⟨-, -, -, -, todo, rfl, htodo⟩ := refresh_cases hr
  · refine h.init_pass ⟨rfl, rfl, rfl, rfl, rfl, rfl, rfl, rfl, rfl⟩ ⟨hsent, hcl.begun.2⟩ id
      h.state.begun (.of_cleaning hc hcl (hclean l ?_))
    obtain rfl | rfl := hl <;> simp [Section.cleansUp]
  · have hno := h.noLate_of_unset (h.unset_of_repair hcur hrep hused hlocal)
    refine h.cleanup_change hc hcl ⟨rfl, rfl, rfl⟩ rfl rfl rfl (hclean _ (by simp [Section.cleansUp]))
      ?_ (fun t => threadOk_of_early (hno.todo t)) h.sender
    exact .of_repair h.state.once h.state.dropped rfl rfl
  · have hno := h.noLate_of_unset (.inl hnew)
    have hknown := h.state.unset (.inl hnew)
    refine h.cleanup_change hc hcl ⟨rfl, rfl, rfl⟩ rfl rfl rfl (hclean _ (by simp [Section.cleansUp]))
      ?_ (fun t => threadOk_of_early (hno.todo t)) h.sender
    refine ⟨h.state.once, h.state.dropped, fun _ => hknown, fun _ => .inr (.inl rfl), fun _ => hset,
      ?_, nofun, nofun, nofun⟩
    intro hk
    rw [show s.known = some .repair from hk] at hknown
    cases hknown
  · have hframe : ∀ l', s.ThreadOk l' →
        ThreadOk { s.refreshed todo with call := l ++ rest } l' :=
      fun l' hl' => ⟨hl'.tail, fun _ => .inl rfl, hl'.sends, hl'.deletes, hl'.forgets, hl'.repairs, nofun⟩
    have hstate : StateOk { s.refreshed todo with call := l ++ rest } :=
      ⟨h.state.once, h.state.dropped, nofun, nofun, nofun, nofun, nofun, nofun, nofun⟩
    obtain ⟨rfl, rfl⟩ | ⟨t', -, rfl, rfl⟩ := htodo
    · exact h.cleanup_change hc hcl ⟨rfl, rfl, rfl⟩ rfl rfl rfl
        (hclean _ (by simp [Section.cleansUp])) hstate (fun t => hframe _ (h.threads t)) h.sender
    · refine h.cleanup_change hc hcl ⟨rfl, rfl, rfl⟩ rfl rfl rfl (hclean [] nofun) hstate
        (threadOk_update rfl ?_ fun t _ => hframe _ (h.threads t)) (h.sender_update rfl nofun)
      refine ⟨?_, fun _ => .inl rfl, nofun, nofun, ?_, ?_, nofun⟩ <;> simp [Section.inner]

/-- A section of the clean-up, called by `do_initialize` when the request has been dealt with. -/
theorem Inv.init_cleanup (h : s.Inv) (info : CompInfo) (hc : s.compreq = false) (hcl : s.Cleaning)
    (hcall : s.call = i :: rest) (hall : ∀ j ∈ s.call, j.cleansUp = true) {told : Told T}
    (hcur : i = .refresh → ∀ x ∈ s.known, s.getState told.state = x)
    (hexec : s.exec info true told i = some (u, l)) : Inv { u with call := l ++ rest } := by
  have hlocked : ∀ {r : Life T × List Section}, locked true s r = some (u, l) → r = (u, l) := by
    intro r hr
    rw [locked, h.held] at hr
    exact Option.some.inj hr
  have hall' := hall
  rw [hcall] at hall'
  -- sections that change nothing else
  have hpass : i ≠ .deleteReq true → ∀ (links : List ℕ) (counted : ℕ → ℕ) (l' : List Section),
      (∀ j ∈ l', j.cleansUp = true) →
      Inv { s with links := links, counted := counted, call := l' ++ rest } := by
    intro hi links counted l' hl'
    refine h.init_pass ⟨rfl, rfl, rfl, rfl, rfl, rfl, rfl, rfl, rfl⟩ ⟨?_, hcl.begun.2⟩ id h.state.begun
      (.of_cleaning hc hcl (cleansUp_append hall' hl'))
    rw [Sent, hcall]
    exact fun hs => hi (Option.some.inj hs)
  cases i with
  | refresh =>
    simp only [exec] at hexec
    obtain ⟨r, hr, hl⟩ := Option.bind_eq_some_iff.mp hexec
    rw [hlocked hl] at hr
    exact h.init_refresh hc hcl hcall hall (hcur rfl) hr
  | cleanupReqs failed =>
    simp only [exec, hc] at hexec
    cases hexec
    exact hpass (by rintro ⟨⟩) _ _ _ (by cases failed <;> simp [Section.cleansUp])
  | deleteReq failed =>
    cases hexec
    refine h.init_delete (h.state.dropped hc) hcl.begun.1 hcl.begun.1 id
      (.of_cleaning rfl hcl (cleansUp_append hall' ?_))
    cases failed <;> simp [Section.cleansUp]
  | setRepair =>
    cases hlocked hexec
    refine h.cleanup_change hc hcl ⟨rfl, rfl, rfl⟩ rfl rfl rfl (cleansUp_append hall' ?_) ?_ ?_ h.sender
    · split <;> simp [Section.cleansUp]
    · exact .of_repair h.state.once h.state.dropped rfl rfl
    · intro t
      have hok := h.threads t
      exact ⟨hok.tail, fun _ => .inr (.inl rfl), hok.sends, hok.deletes, hok.forgets, hok.repairs,
        fun _ hu => by rw [show s.compreq = true from hu] at hc; cases hc⟩
  | cleanupLinks doInit =>
    cases doInit with
    | true =>
      simp only [exec] at hexec
      split at hexec <;> cases hexec
      · exact hpass (by rintro ⟨⟩) _ _ _ (by intros; contradiction)
      · exact hpass (by rintro ⟨⟩) _ _ _ (by simp [Section.cleansUp])
    | false =>
      cases hexec
      exact hpass (by rintro ⟨⟩) _ _ _ (by intros; contradiction)
  | bothCompsDone link =>
    cases hexec
    exact hpass (by rintro ⟨⟩) _ _ _ (by intros; contradiction)
  | clearComponent =>
    simp only [exec] at hexec
    split at hexec
    · cases hexec
      exact hpass (by rintro ⟨⟩) _ _ _ (by intros; contradiction)
    · cases hlocked hexec
      exact hpass (by rintro ⟨⟩) _ _ _ (by intros; contradiction)
  | sendFailed | connect | sendRefresh _ | getType | waitForUpMsg | dependent | keebootConnect
    | keebootSend | keebootUpMsg | setFree =>
    cases hall' _ List.mem_cons_self

/-! ### The calls of `do_initialize` that answer for a component that fails -/

/-- What is relied on while the answer is owed. -/
def Relied (s : Life T) : Prop :=
  match s.place with
  | .createFailed => s.localState = .new
  | .repairing => s.localState = .repair ∧ s.known = some .repair ∧ s.NoLate
  | .failing => s.Running
  | _ => False

omit [DecidableEq T] in
theorem initOk_owes (hp : s.place = .createFailed ∨ s.place = .repairing ∨ s.place = .failing) :
    s.InitOk ↔ s.Owes s.Relied := by
  unfold InitOk Relied
  obtain hp | hp | hp := hp <;> rw [hp]

omit [DecidableEq T] in
theorem InitOk.of_owes (hp : s.place = .createFailed ∨ s.place = .repairing ∨ s.place = .failing)
    (h : s.Owes s.Relied) : s.InitOk :=
  (initOk_owes hp).mpr h

omit [DecidableEq T] in
theorem Relied.place (h : s.Relied) :
    s.place = .createFailed ∨ s.place = .repairing ∨ s.place = .failing := by
  unfold Relied at h
  split at h
  · next hp => exact .inl hp
  · next hp => exact .inr (.inl hp)
  · next hp => exact .inr (.inr hp)
  · cases h

omit [DecidableEq T] in
theorem Relied.busy (h : s.Relied) (hc : s.compreq = true) : s.Busy := by
  unfold Busy
  obtain hp | hp | hp := h.place <;> rw [hp] <;> exact hc

omit [DecidableEq T] in
theorem Relied.begun (h : s.Relied) : s.place.begun = true ∧ s.place ≠ .deleteReq := by
  obtain hp | hp | hp := h.place <;> rw [hp] <;> exact ⟨rfl, by decide⟩

omit [DecidableEq T] in
/-- The answer is still to be sent. -/
theorem Inv.owes_pass (h : s.Inv) (hrel : s.Relied) (hc : s.compreq = true) (hz : s.answers = 0)
    (hcall : ¬Sent s.call) {links : List ℕ} {counted : ℕ → ℕ} (hl : Unsent l) :
    Inv { s with links := links, counted := counted, call := l } :=
  h.init_pass ⟨rfl, rfl, rfl, rfl, rfl, rfl, rfl, rfl, rfl⟩ ⟨hcall, hrel.begun.2⟩ id h.state.begun
    (.of_owes hrel.place (.inl ⟨hc, hrel, .inl ⟨hz, hl⟩⟩))

/-- A step of `cleanup_reqs` and `cleanup_links`, called by `do_initialize` for a component that fails
before it is answered for. -/
theorem Inv.init_owes (h : s.Inv) (info : CompInfo) (hc : s.compreq = true) (hrel : s.Relied)
    (hcall : s.call = i :: rest) {told : Told T} (hexec : s.exec info true told i = some (u, l)) :
    Inv { u with call := l ++ rest } := by
  have hplace := hrel.place
  have hbusy := hrel.busy hc
  obtain ⟨-, -, hcase⟩ | ⟨hf, -⟩ := (initOk_owes hplace).mp h.init
  · rw [hcall] at hcase
    obtain ⟨hz, ⟨later, hlater, hs | hs⟩ | hs | ⟨link, hs⟩⟩ | ⟨ha, hsent, hall⟩ := hcase
    · obtain ⟨rfl, rfl⟩ := List.cons.inj hs
      simp only [exec, hc] at hexec
      cases hexec
      exact h.owes_pass hrel hc hz (by rw [hcall]; rintro ⟨⟩) (.inl ⟨_, hlater, .inr rfl⟩)
    · obtain ⟨rfl, rfl⟩ := List.cons.inj hs
      cases hexec
      refine h.init_send hbusy hc hz (.inl rfl) hrel.begun.1 hrel.begun.1 id ?_
      refine .of_owes hplace (.inl ⟨hc, hrel, .inr ⟨congrArg (· + 1) hz, rfl, ?_⟩⟩)
      obtain rfl | rfl := hlater <;> simp [Section.cleansUp]
    · obtain ⟨rfl, rfl⟩ := List.cons.inj hs
      simp only [exec] at hexec
      split at hexec <;> cases hexec
      · exact h.owes_pass hrel hc hz (by rw [hcall]; rintro ⟨⟩) (.inl ⟨[], .inl rfl, .inl rfl⟩)
      · exact h.owes_pass hrel hc hz (by rw [hcall]; rintro ⟨⟩) (.inr (.inr ⟨_, rfl⟩))
    · obtain ⟨rfl, rfl⟩ := List.cons.inj hs
      cases hexec
      exact h.owes_pass hrel hc hz (by rw [hcall]; rintro ⟨⟩) (.inr (.inl rfl))
    · cases Option.some.inj hsent
      cases hexec
      refine h.init_delete (.inr ha) hrel.begun.1 hrel.begun.1 id ?_
      refine .of_owes hplace (.inr ⟨rfl, ha, cleansUp_append hall ?_⟩)
      simp [Section.cleansUp]
  · rw [hc] at hf
    cases hf

/-! ### The keeboot -/

/-- A section of `do_refresh`, called by `do_initialize`, does nothing to the component but drop its
links. -/
theorem exec_doRefresh {info : CompInfo} {told : Told T} (hheld : s.held = false)
    (hkee : s.keebootingNow = true) (hi : i.ofDoRefresh = true) (hne : i ≠ .cleanupReqs true)
    (hexec : s.exec info true told i = some (u, l)) :
    (∃ links, u = { s with links := links }) ∧ ∀ j ∈ l, j.ofDoRefresh = true := by
  have hlocked : ∀ {r : Life T × List Section}, locked true s r = some (u, l) → r = (u, l) := by
    intro r hr
    rw [locked, hheld] at hr
    exact Option.some.inj hr
  cases i with
  | cleanupReqs failed =>
    cases failed with
    | true => exact absurd rfl hne
    | false => cases hi
  | cleanupLinks doInit =>
    cases doInit with
    | true => cases hi
    | false =>
      cases hexec
      exact ⟨⟨_, rfl⟩, (by intros; contradiction)⟩
  | connect =>
    simp only [exec] at hexec
    split at hexec
    · split at hexec <;> cases hexec
      · exact ⟨⟨s.links, rfl⟩, by simp [Section.ofDoRefresh]⟩
      · refine ⟨⟨s.links, rfl⟩, ?_⟩
        split <;> simp [nodeFailed, Section.ofDoRefresh]
    · cases hexec
      exact ⟨⟨s.links, rfl⟩, by simp [Section.ofDoRefresh]⟩
  | getType =>
    simp only [exec] at hexec
    split at hexec
    · cases hexec
      exact ⟨⟨s.links, rfl⟩, by simp [Section.ofDoRefresh]⟩
    · cases hlocked hexec
      exact ⟨⟨s.links, rfl⟩, by simp [Section.ofDoRefresh]⟩
  | keebootConnect =>
    simp only [exec] at hexec
    split at hexec <;> cases hexec
    · refine ⟨⟨s.links, rfl⟩, ?_⟩
      split <;> simp [nodeFailed, Section.ofDoRefresh]
    · exact ⟨⟨s.links, rfl⟩, by simp [Section.ofDoRefresh]⟩
  | setFree =>
    simp only [exec, hkee] at hexec
    cases hexec
    exact ⟨⟨s.links, rfl⟩, (by intros; contradiction)⟩
  | sendRefresh _ | waitForUpMsg | dependent | keebootSend | keebootUpMsg =>
    cases hexec
    refine ⟨⟨s.links, rfl⟩, ?_⟩
    split <;> simp [nodeFailed, Section.ofDoRefresh]
  | refresh | sendFailed | deleteReq _ | setRepair | bothCompsDone _ | clearComponent => cases hi

omit [DecidableEq T] in
theorem InitOk.of_keeboot (hp : u.place = .keebootRefresh) (hkee : u.keebootingNow = true)
    (h : (u.Running ∧ u.compreq = true ∧
      (u.answers = 0 ∧ (∀ i ∈ u.call, i.ofDoRefresh = true ∨ i = .sendFailed) ∧
          (∀ i ∈ u.call.tail, i.ofDoRefresh = true) ∨
        u.answers = 1 ∧ Sent u.call ∧ ∀ i ∈ u.call.tail, i.ofDoRefresh = true) ∨
      u.compreq = false ∧ u.answers = 1 ∧
        (u.Running ∧ u.call.head? = some .setRepair ∧ (∀ i ∈ u.call.tail, i.ofDoRefresh = true) ∨
          u.localState = .repair ∧ u.known = some .repair ∧ u.NoLate ∧
            ∀ i ∈ u.call, i.ofDoRefresh = true ∨ i = .setRepair))) : u.InitOk := by
  unfold InitOk
  rw [hp]
  exact ⟨hkee, h⟩

/-- A step of `do_refresh`, called by `do_initialize` for the keeboot. -/
theorem Inv.init_keeboot (h : s.Inv) (info : CompInfo) (hp : s.place = .keebootRefresh)
    (hcall : s.call = i :: rest) {told : Told T} (hexec : s.exec info true told i = some (u, l)) :
    Inv { u with call := l ++ rest } := by
  have hinit := h.init
  unfold InitOk at hinit
  rw [hp] at hinit
  obtain ⟨hkee, hcase⟩ := hinit
  have hbusy : s.Busy := by
    unfold Busy
    rw [hp]
    trivial
  have hnot : s.place ≠ .deleteReq := by
    rw [hp]
    decide
  have hbegun : s.place.begun = true := by
    rw [hp]
    rfl
  have hfailed : s.place = .createFailed → s.place = .createFailed := id
  have happend : (∀ j ∈ rest, j.ofDoRefresh = true) → (∀ j ∈ l, j.ofDoRefresh = true) →
      ∀ j ∈ l ++ rest, j.ofDoRefresh = true :=
    fun hr hl j hj => (List.mem_append.mp hj).elim (hl j) (hr j)
  rw [hcall] at hcase
  obtain ⟨hrun, hc, ⟨hz, hhead, htail⟩ | ⟨ha, hsent, htail⟩⟩ |
    ⟨hc, ha, ⟨hrun, hhead, htail⟩ | ⟨hl, hk, hno, hall⟩⟩ := hcase
  · obtain hi | rfl := hhead i List.mem_cons_self
    · have hsent : ¬Sent s.call := by
        rw [hcall]
        intro hs
        rw [Option.some.inj hs] at hi
        cases hi
      by_cases hne : i = .cleanupReqs true
      · -- `cleanup_reqs` finds the request
        subst hne
        simp only [exec, hc] at hexec
        cases hexec
        refine h.init_pass ⟨rfl, rfl, rfl, rfl, rfl, rfl, rfl, rfl, rfl⟩ ⟨hsent, hnot⟩ id h.state.begun
          (.of_keeboot hp hkee (.inl ⟨hrun, hc, .inl ⟨hz, ?_, htail⟩⟩))
        rintro j (- | ⟨-, hj⟩)
        · exact .inr rfl
        · exact .inl (htail j hj)
      · obtain ⟨⟨links, rfl⟩, hnext⟩ := exec_doRefresh h.held hkee hi hne hexec
        have hall := happend htail hnext
        exact h.init_pass ⟨rfl, rfl, rfl, rfl, rfl, rfl, rfl, rfl, rfl⟩ ⟨hsent, hnot⟩ id h.state.begun
          (.of_keeboot hp hkee (.inl ⟨hrun, hc, .inl ⟨hz, fun j hj => .inl (hall j hj),
            fun j hj => hall j (List.mem_of_mem_tail hj)⟩⟩))
    · cases hexec
      exact h.init_send hbusy hc hz (.inl rfl) hbegun hbegun hfailed
        (.of_keeboot hp hkee (.inl ⟨hrun, hc, .inr ⟨congrArg (· + 1) hz, rfl, htail⟩⟩))
  · cases Option.some.inj hsent
    cases hexec
    exact h.init_delete (.inr ha) hbegun hbegun hfailed
      (.of_keeboot hp hkee (.inr ⟨rfl, ha, .inl ⟨hrun, rfl, htail⟩⟩))
  · -- the node is put into repair, and `keebooting_now` keeps `refresh` away
    cases Option.some.inj hhead
    simp only [exec, locked, h.held, hkee, Bool.not_true, Bool.and_false, Bool.false_and] at hexec
    cases hexec
    have hno := h.noLate_of_busy hbusy
    refine h.init_change ⟨rfl, rfl, rfl⟩ rfl ?_ (fun t => threadOk_of_early (hno.todo t)) id
      (fun hc' => ?_) (fun hb => ?_) (.of_keeboot hp hkee (.inr ⟨hc, ha, .inr ⟨rfl, rfl, hno,
        fun j hj => .inl (htail j hj)⟩⟩))
    · exact .of_repair h.state.once h.state.dropped rfl rfl
    · rw [show s.compreq = true from hc'] at hc
      cases hc
    · rw [show s.place.begun = false from hb] at hbegun
      cases hbegun
  · have hsent : ¬Sent s.call := by
      rw [hcall]
      intro hs
      obtain hi | hi := hall i List.mem_cons_self
      · rw [Option.some.inj hs] at hi
        cases hi
      · rw [Option.some.inj hs] at hi
        cases hi
    have htail : ∀ j ∈ rest, j.ofDoRefresh = true ∨ j = .setRepair :=
      fun j hj => hall j (List.mem_cons_of_mem _ hj)
    obtain hi | rfl := hall i List.mem_cons_self
    · by_cases hne : i = .cleanupReqs true
      · subst hne
        simp only [exec, hc] at hexec
        cases hexec
        refine h.init_pass ⟨rfl, rfl, rfl, rfl, rfl, rfl, rfl, rfl, rfl⟩ ⟨hsent, hnot⟩ id h.state.begun
          (.of_keeboot hp hkee (.inr ⟨hc, ha, .inr ⟨hl, hk, hno, ?_⟩⟩))
        rintro j (- | ⟨-, hj⟩)
        · exact .inr rfl
        · exact htail j hj
      · obtain ⟨⟨links, rfl⟩, hnext⟩ := exec_doRefresh h.held hkee hi hne hexec
        refine h.init_pass ⟨rfl, rfl, rfl, rfl, rfl, rfl, rfl, rfl, rfl⟩ ⟨hsent, hnot⟩ id h.state.begun
          (.of_keeboot hp hkee (.inr ⟨hc, ha, .inr ⟨hl, hk, hno, ?_⟩⟩))
        intro j hj
        obtain hj | hj := List.mem_append.mp hj
        · exact .inl (hnext j hj)
        · exact htail j hj
    · simp only [exec, locked, h.held, hkee, Bool.not_true, Bool.and_false, Bool.false_and] at hexec
      cases hexec
      refine h.init_change ⟨rfl, rfl, rfl⟩ rfl ?_ (fun t => threadOk_of_early (hno.todo t)) id
        (fun hc' => ?_) (fun hb => ?_) (.of_keeboot hp hkee (.inr ⟨hc, ha, .inr ⟨rfl, rfl, hno, htail⟩⟩))
      · exact .of_repair h.state.once h.state.dropped rfl rfl
      · rw [show s.compreq = true from hc'] at hc
        cases hc
      · rw [show s.place.begun = false from hb] at hbegun
        cases hbegun

/-- A step of the functions that `do_initialize` calls when the session was cleared before. -/
theorem Inv.init_leaving (h : s.Inv) (info : CompInfo) (hp : s.place = .leaving)
    (hcleared : s.cleared = true) (hcall : s.call = i :: rest)
    (hall : ∀ j ∈ i :: rest, j.forgets = true ∧ j ≠ .refresh) {told : Told T}
    (hexec : s.exec info true told i = some (u, l)) : Inv { u with call := l ++ rest } := by
  have hlocked : ∀ {r : Life T × List Section}, locked true s r = some (u, l) → r = (u, l) := by
    intro r hr
    rw [locked, h.held] at hr
    exact Option.some.inj hr
  have hleaving : ∀ {v : Life T} {l' : List Section}, v.place = .leaving → v.cleared = true →
      v.call = l' ++ rest → (∀ j ∈ l', j.forgets = true ∧ j ≠ .refresh) → v.InitOk := by
    intro v l' hvp hvc hvcall hl'
    unfold InitOk
    rw [hvp]
    refine .inl ⟨hvc, fun j hj => ?_⟩
    rw [hvcall] at hj
    obtain hj | hj := List.mem_append.mp hj
    · exact hl' j hj
    · exact hall j (List.mem_cons_of_mem _ hj)
  have hbegun : s.place.begun = true ∧ s.place ≠ .deleteReq := by
    rw [hp]
    exact ⟨rfl, by decide⟩
  -- sections that change nothing else
  have hpass : ∀ (links : List ℕ) (counted : ℕ → ℕ) (l' : List Section),
      (∀ j ∈ l', j.forgets = true ∧ j ≠ .refresh) →
      Inv { s with links := links, counted := counted, call := l' ++ rest } := by
    intro links counted l' hl'
    refine h.init_pass ⟨rfl, rfl, rfl, rfl, rfl, rfl, rfl, rfl, rfl⟩ ⟨fun hs => ?_, hbegun.2⟩ id
      h.state.begun (hleaving hp hcleared rfl hl')
    rw [hcall] at hs
    have hi := (hall i List.mem_cons_self).1
    rw [Option.some.inj hs] at hi
    cases hi
  have hi := hall i List.mem_cons_self
  cases i with
  | refresh => exact absurd rfl hi.2
  | cleanupReqs failed =>
    cases failed with
    | true => cases hi.1
    | false =>
      simp only [exec] at hexec
      split at hexec <;> cases hexec
      · exact hpass _ _ _ (by simp [Section.forgets])
      · exact hpass _ _ _ (by intros; contradiction)
  | deleteReq failed =>
    cases failed with
    | true => cases hi.1
    | false =>
      cases hexec
      exact h.init_delete (.inl hcleared) hbegun.1 hbegun.1 id (hleaving hp hcleared rfl (by intros; contradiction))
  | cleanupLinks doInit =>
    cases doInit with
    | true =>
      simp only [exec] at hexec
      split at hexec <;> cases hexec
      · exact hpass _ _ _ (by intros; contradiction)
      · exact hpass _ _ _ (by simp [Section.forgets])
    | false =>
      cases hexec
      exact hpass _ _ _ (by intros; contradiction)
  | bothCompsDone link =>
    cases hexec
    exact hpass _ _ _ (by intros; contradiction)
  | clearComponent =>
    simp only [exec] at hexec
    split at hexec
    · cases hexec
      exact hpass _ _ _ (by intros; contradiction)
    · cases hlocked hexec
      exact hpass _ _ _ (by intros; contradiction)
  | sendFailed | setRepair | connect | sendRefresh _ | getType | waitForUpMsg | dependent
    | keebootConnect | keebootSend | keebootUpMsg | setFree => cases hi.1

/-- A step of a function that `do_initialize` has called. -/
theorem Inv.init_call (h : s.Inv) (info : CompInfo) (hcall : s.call = i :: rest) {told : Told T}
    (hcur : i = .refresh → ∀ x ∈ s.known, s.getState told.state = x)
    (hexec : s.exec info true told i = some (u, l)) : Inv { u with call := l ++ rest } := by
  have howes : s.place = .createFailed ∨ s.place = .repairing ∨ s.place = .failing →
      Inv { u with call := l ++ rest } := by
    intro hp
    obtain ⟨hc, hrel, -⟩ | ⟨hc, ha, hall⟩ := (initOk_owes hp).mp h.init
    · exact h.init_owes info hc hrel hcall hexec
    · refine h.init_cleanup info hc ?_ hcall hall hcur hexec
      unfold Cleaning
      obtain hp | hp | hp := hp <;> rw [hp] <;> exact ha
  have hinit := h.init
  unfold InitOk at hinit
  cases hp : s.place <;> rw [hp] at hinit <;> simp only at hinit
  case createFailed => exact howes (.inl hp)
  case repairing => exact howes (.inr (.inl hp))
  case failing => exact howes (.inr (.inr hp))
  case keebootRefresh => exact h.init_keeboot info hp hcall hexec
  case countLinks =>
    obtain ⟨hc, ha, hall⟩ := hinit
    refine h.init_cleanup info hc ?_ hcall hall hcur hexec
    unfold Cleaning
    rw [hp]
    exact ha
  case leaving =>
    obtain ⟨hcleared, hall⟩ | ⟨hc, hall⟩ := hinit
    · rw [hcall] at hall
      exact h.init_leaving info hp hcleared hcall hall hexec
    · refine h.init_cleanup info hc ?_ hcall hall hcur hexec
      unfold Cleaning
      rw [hp]
      trivial
  case created | start | waiting | keebootTest | contact | startExp | configure | respond | deleteReq
    | setActive | finished =>
    rw [hcall] at hinit
    cases hinit.1

/-! ### `do_initialize` itself -/

omit [DecidableEq T] in
/-- What `do_initialize` goes on with, and what it relies on there. -/
theorem InitOk.of_running (hrun : u.Running) (hc : u.compreq = true) (hz : u.answers = 0)
    (hp : (u.place = .keebootTest ∨ u.place = .contact ∨ u.place = .startExp ∨ u.place = .configure ∨
        u.place = .respond) ∧ u.call = [] ∨
      u.place = .keebootRefresh ∧ u.keebootingNow = true ∧ u.call = [.connect] ∨
      u.place = .failing ∧ u.call = [.cleanupReqs true, .cleanupLinks true]) : u.InitOk := by
  unfold InitOk
  obtain ⟨hp | hp | hp | hp | hp, hcall⟩ | ⟨hp, hkee, hcall⟩ | ⟨hp, hcall⟩ := hp <;> rw [hp, hcall]
  · exact ⟨rfl, hc, hz, hrun⟩
  · exact ⟨rfl, hc, hz, hrun⟩
  · exact ⟨rfl, hc, hz, hrun⟩
  · exact ⟨rfl, hc, hz, hrun⟩
  · exact ⟨rfl, hc, hz, hrun⟩
  · exact ⟨hkee, .inl ⟨hrun, hc, .inl ⟨hz, by simp [Section.ofDoRefresh], nofun⟩⟩⟩
  · refine .inl ⟨hc, hrun, .inl ⟨hz, ?_⟩⟩
    rw [hcall]
    exact .inl ⟨_, .inr rfl, .inl rfl⟩

omit [DecidableEq T] in
/-- `do_initialize` goes on while the request waits for it. -/
theorem Inv.init_running (h : s.Inv) (hcall : s.call = []) (hrun : s.Running)
    (hnot : s.place ≠ .deleteReq) {p : InitPlace} (hbegun : p.begun = true) {keebooting : Bool}
    {c : List Section}
    (hinit : InitOk { s with keebootingNow := keebooting, place := p, call := c }) :
    Inv { s with keebootingNow := keebooting, place := p, call := c } := by
  refine h.init_pass ⟨rfl, rfl, rfl, rfl, rfl, rfl, rfl, rfl, rfl⟩ ⟨?_, hnot⟩ (fun hb => ?_)
    (fun _ hn => ?_) hinit
  · rw [hcall]
    nofun
  · rw [show p.begun = false from hb] at hbegun
    cases hbegun
  · rw [hrun.1] at hn
    cases hn

omit [DecidableEq T] in
/-- The first section of `do_initialize` under the lock. -/
theorem Inv.init_begin (h : s.Inv) (info : CompInfo) (hcall : s.call = [])
    (hlocal : s.localState ≠ .notUsed ∧ s.localState ≠ .initializing)
    (hunset : s.Unset → s.compreq = true ∧ s.answers = 0) (hbegun : s.place.begun = false)
    (hnot : s.place ≠ .deleteReq) {dependent : NodeState} {told : Told T}
    (hcur : ∀ x ∈ s.known, s.getState told.state = x)
    (hdep : s.waits (s.getState told.state) = false → s.getState told.state ≠ .repair →
      afterWait info dependent told ≠ .refreshing ∧ afterWait info dependent told ≠ .repair) :
    (s.begin info dependent told).Inv := by
  have hsent : ¬Sent s.call := by
    rw [hcall]
    rintro ⟨⟩
  -- a component that was refreshed before belongs to a session that was cleared
  have hcleared : s.localState ≠ .new → s.cleared = true := by
    intro hl
    by_contra hc
    exact hl (h.early hbegun (by simpa using hc)).2.1
  have hleaving : ∀ {c : List Section}, s.localState ≠ .new →
      (∀ i ∈ c, i.forgets = true ∧ i ≠ .refresh) → Inv { s with place := .leaving, call := c } := by
    intro c hl hall
    exact h.init_pass ⟨rfl, rfl, rfl, rfl, rfl, rfl, rfl, rfl, rfl⟩ ⟨hsent, hnot⟩ (by intros; contradiction)
      (fun _ hn => absurd hn hl) (.inl ⟨hcleared hl, hall⟩)
  unfold begin
  simp only
  split
  · refine h.init_pass ⟨rfl, rfl, rfl, rfl, rfl, rfl, rfl, rfl, rfl⟩ ⟨hsent, hnot⟩ (fun _ => hbegun)
      (by intros; contradiction) ⟨hcall, hlocal.1, hlocal.2, hunset⟩
  next hwaits =>
  split
  · next hrepair =>
    split
    · next hl =>
      have hun := h.unset_of_repair hcur hrepair hlocal.1 hl
      have hno := h.noLate_of_unset hun
      obtain ⟨hc, hz⟩ := hunset hun
      refine h.init_change ⟨rfl, rfl, rfl⟩ rfl ?_ (fun t => threadOk_of_early (hno.todo t)) id
        (fun _ ha => absurd hz ha) (by intros; contradiction)
        (.inl ⟨hc, ⟨rfl, rfl, hno⟩, .inl ⟨hz, .inr (.inl rfl)⟩⟩)
      exact .of_repair h.state.once h.state.dropped rfl rfl
    · next hl =>
      refine hleaving ?_ (by simp [Section.forgets])
      rw [not_not.mp hl]
      decide
  next hrepair =>
  have hdep := hdep (by simpa using hwaits) hrepair
  split
  · next hd => exact absurd hd (by simp [hdep.1, hdep.2])
  split
  · next hl => exact hleaving hl (by simp [Section.forgets])
  · next hl =>
    have hun : s.Unset := .inl (not_not.mp hl)
    have hno := h.noLate_of_unset hun
    obtain ⟨hc, hz⟩ := hunset hun
    refine h.init_change ⟨rfl, rfl, rfl⟩ rfl ?_ (fun t => threadOk_of_early (hno.todo t)) id
      (fun _ ha => absurd hz ha) (by intros; contradiction)
      (.of_running ⟨rfl, rfl⟩ hc hz (.inl ⟨.inl rfl, hcall⟩))
    exact ⟨h.state.once, h.state.dropped, (by rintro (h | h) <;> cases h), (by intros; contradiction),
      (by intros; contradiction), (by intro h; cases h), (by intros; contradiction), fun _ => .inl rfl,
      (by intros; contradiction)⟩

omit [DecidableEq T] in
/-- A step of `do_initialize` that is not one of a function it has called. -/
theorem Inv.init_advance (h : s.Inv) (info : CompInfo) (hcall : s.call = []) {told : Told T}
    (hcur : s.Reads (.init told) → ∀ x ∈ s.known, s.getState told.state = x)
    (hdep : ∀ x ∈ s.dependentAt info told, x ≠ .refreshing ∧ x ≠ .repair)
    (ha : s.advance info told = some u) : u.Inv := by
  have hsent : ¬Sent s.call := by
    rw [hcall]
    nofun
  have hinit := h.init
  unfold InitOk at hinit
  unfold advance at ha
  have hdepend : ∀ {x}, s.dependentAt info told =
      (if s.call ≠ [] ∨ s.waits (s.getState told.state) = true ∨ s.getState told.state = .repair then none
        else some x) →
      s.waits (s.getState told.state) = false → s.getState told.state ≠ .repair →
      x ≠ .refreshing ∧ x ≠ .repair := by
    intro x hx hw hr
    refine hdep x ?_
    rw [hx, if_neg (by simp [hcall, hw, hr])]
    rfl
  -- the end of `do_initialize`
  have hends : s.cleared = true ∨ s.answers = 1 → s.place.begun = true → s.place ≠ .deleteReq →
      (s.place = .createFailed → s.compreq = false ∧ s.answers = 1) →
      Inv { s with place := .finished } := by
    intro hdone hb hnot hfailed
    refine h.init_pass ⟨rfl, rfl, rfl, rfl, rfl, rfl, rfl, rfl, rfl⟩ ⟨hsent, hnot⟩ nofun
      (fun _ hn => .inr ?_) ⟨hcall, hdone⟩
    obtain hp | hd := h.state.begun hb hn
    · exact hfailed hp
    · exact hd
  have howed : ∀ {P : Prop}, s.Owes P → s.compreq = false ∧ s.answers = 1 := by
    rintro P (⟨-, -, ⟨-, hun⟩ | ⟨-, hs, -⟩⟩ | ⟨hc, ha, -⟩)
    · rw [hcall] at hun
      obtain ⟨_, -, hun | hun⟩ | hun | ⟨_, hun⟩ := hun <;> cases hun
    · exact absurd hs hsent
    · exact ⟨hc, ha⟩
  cases hp : s.place <;> rw [hp] at hinit ha <;> simp only at hinit ha
  case created | finished => cases ha
  case start =>
    cases ha
    refine h.init_begin info hcall ⟨hinit.2.1, hinit.2.2.1⟩ hinit.2.2.2 (by rw [hp]; rfl)
      (by rw [hp]; decide) (hcur ?_) (hdepend ?_)
    · rw [Reads, hcall, hp]
    · rw [dependentAt, hp]
  case waiting dependent =>
    cases ha
    refine h.init_begin info hcall ⟨hinit.2.1, hinit.2.2.1⟩ hinit.2.2.2 (by rw [hp]; rfl)
      (by rw [hp]; nofun) (hcur ?_) (hdepend ?_)
    · rw [Reads, hcall, hp]
    · rw [dependentAt, hp]
  case keebootTest =>
    obtain ⟨-, hc, hz, hrun⟩ := hinit
    have hnot : s.place ≠ .deleteReq := by
      rw [hp]
      decide
    split at ha <;> cases ha
    · exact h.init_running hcall hrun hnot rfl (.of_running hrun hc hz (.inr (.inl ⟨rfl, rfl, rfl⟩)))
    · exact h.init_running hcall hrun hnot rfl
        (.of_running hrun hc hz (.inl ⟨.inr (.inl rfl), hcall⟩))
  case keebootRefresh =>
    have hread := hcur (by rw [Reads, hcall, hp])
    have hnot : s.place ≠ .deleteReq := by
      rw [hp]
      decide
    rw [hcall] at hinit
    obtain ⟨-, ⟨hrun, hc, ⟨hz, -⟩ | ⟨-, hs, -⟩⟩ | ⟨hc, hone, ⟨-, hs, -⟩ | ⟨hl, hk, -⟩⟩⟩ := hinit
    · split at ha
      · next hrep =>
        have hread : s.getState told.state = .initializing := hread _ hrun.2
        rw [show s.getState told.state = .repair from hrep] at hread
        cases hread
      · cases ha
        exact h.init_running hcall hrun hnot rfl
          (.of_running hrun hc hz (.inl ⟨.inr (.inl rfl), hcall⟩))
    · cases hs
    · cases hs
    · split at ha
      · cases ha
        refine h.init_pass ⟨rfl, rfl, rfl, rfl, rfl, rfl, rfl, rfl, rfl⟩ ⟨hsent, hnot⟩ nofun
          (fun _ hn => ?_) (.inr ⟨hc, by simp [clearAndLeave, Section.cleansUp]⟩)
        rw [hl] at hn
        cases hn
      · next hrep => exact absurd (hread _ hk) hrep
  case contact =>
    obtain ⟨-, hc, hz, hrun⟩ := hinit
    have hnot : s.place ≠ .deleteReq := by
      rw [hp]
      decide
    split at ha
    · split at ha <;> cases ha
      · exact h.init_running hcall hrun hnot rfl
          (.of_running hrun hc hz (.inl ⟨.inr (.inr (.inl rfl)), hcall⟩))
      · exact h.init_running hcall hrun hnot rfl (.of_running hrun hc hz (.inr (.inr ⟨rfl, rfl⟩)))
    · cases ha
      exact h.init_running hcall hrun hnot rfl
        (.of_running hrun hc hz (.inl ⟨.inr (.inr (.inr (.inr rfl))), hcall⟩))
  case startExp =>
    obtain ⟨-, hc, hz, hrun⟩ := hinit
    have hnot : s.place ≠ .deleteReq := by
      rw [hp]
      decide
    split at ha <;> cases ha
    · exact h.init_running hcall hrun hnot rfl
        (.of_running hrun hc hz (.inl ⟨.inr (.inr (.inr (.inl rfl))), hcall⟩))
    · exact h.init_running hcall hrun hnot rfl (.of_running hrun hc hz (.inr (.inr ⟨rfl, rfl⟩)))
  case configure =>
    obtain ⟨-, hc, hz, hrun⟩ := hinit
    cases ha
    exact h.init_running hcall hrun (by rw [hp]; decide) rfl
      (.of_running hrun hc hz (.inl ⟨.inr (.inr (.inr (.inr rfl))), hcall⟩))
  case respond =>
    obtain ⟨-, hc, hz, hrun⟩ := hinit
    rw [if_pos hc] at ha
    cases ha
    refine h.init_send (c := s.call) (by unfold Busy; rw [hp]; trivial) hc hz (.inr rfl) (by rw [hp]; rfl)
      rfl (by rw [hp]; nofun) ?_
    exact ⟨hcall, hc, congrArg (· + 1) hz, hrun⟩
  case deleteReq =>
    obtain ⟨-, hc, hone, hrun⟩ := hinit
    cases ha
    exact h.init_delete (c := s.call) (.inr hone) (by rw [hp]; rfl) rfl (by rw [hp]; nofun)
      ⟨hcall, rfl, hone, hrun⟩
  case setActive =>
    obtain ⟨-, hc, hone, hrun⟩ := hinit
    have hno : s.NoLate := h.noLate_of_busy (by unfold Busy; rw [hp]; trivial)
    rw [h.held, if_neg Bool.false_ne_true] at ha
    cases ha
    refine h.init_change ⟨rfl, rfl, rfl⟩ rfl ?_ (fun t => threadOk_of_early (hno.todo t)) id
      (fun hc' => ?_) nofun ⟨hc, hone, by simp [Section.cleansUp]⟩
    · refine ⟨h.state.once, h.state.dropped, fun hl => ?_, nofun, h.state.done, nofun, fun _ => .inr hc,
        fun _ => .inr ⟨rfl, hc⟩, fun _ _ => .inr ⟨hc, hone⟩⟩
      have hl' : s.localState = .new ∨ s.localState = .done := hl
      rw [hrun.1] at hl'
      simp at hl'
    · rw [show s.compreq = true from hc'] at hc
      cases hc
  case countLinks =>
    obtain ⟨hc, hone, -⟩ := hinit
    cases ha
    refine h.init_pass ⟨rfl, rfl, rfl, rfl, rfl, rfl, rfl, rfl, rfl⟩ ⟨hsent, by rw [hp]; decide⟩ nofun
      (fun _ _ => .inr ⟨hc, hone⟩) (.inr ⟨hc, ?_⟩)
    split <;> simp [Section.cleansUp]
  case createFailed | repairing | failing =>
    cases ha
    obtain ⟨hc, hone⟩ := howed hinit
    exact hends (.inr hone) (by rw [hp]; rfl) (by rw [hp]; decide) fun _ => ⟨hc, hone⟩
  case leaving =>
    cases ha
    refine hends ?_ (by rw [hp]; rfl) (by rw [hp]; decide) (by rw [hp]; nofun)
    obtain ⟨hcleared, -⟩ | ⟨hc, -⟩ := hinit
    · exact .inl hcleared
    · exact h.state.dropped hc

/-! ### Steps and runs -/

omit [DecidableEq T] in
/-- The request is unanswered before the first refresh. -/
theorem Inv.unanswered (h : s.Inv) (hun : s.Unset) (hcall : s.call = []) (hnot : s.place ≠ .deleteReq)
    (hc : s.compreq = true) : s.answers = 0 := by
  by_contra ha
  obtain (hs | hp) | ⟨t, ht⟩ := h.sent hc ha
  · rw [hcall] at hs
    cases hs
  · exact hnot hp
  · exact h.noLate_of_unset hun t ⟨_, List.mem_of_mem_head? ht, rfl⟩

/-- `session::commit` calls `initialize`. -/
theorem Inv.call_initialize (h : s.Inv) (info : CompInfo) {told : Told T}
    (hnew : s.compreq = true → told.ok = false → s.localState = .new)
    (hstep : s.step info (.callInitialize told) = some u) : u.Inv := by
  have hinit := h.init
  unfold InitOk at hinit
  simp only [step] at hstep
  cases hp : s.place <;> rw [hp] at hinit hstep <;> simp only at hinit hstep
  case created =>
    obtain ⟨hcall, hused, hbegun⟩ := hinit
    have hsent : ¬Sent s.call ∧ s.place ≠ .deleteReq := by
      rw [hcall, hp]
      exact ⟨nofun, by decide⟩
    split at hstep
    · next hc =>
      split at hstep <;> cases hstep
      · exact h.init_pass ⟨rfl, rfl, rfl, rfl, rfl, rfl, rfl, rfl, rfl⟩ hsent (fun _ => by rw [hp]; rfl)
          nofun ⟨hcall, hused, hbegun, fun hun => ⟨hc, h.unanswered hun hcall hsent.2 hc⟩⟩
      · next hok =>
        have hl := hnew hc (by simpa using hok)
        refine h.init_pass ⟨rfl, rfl, rfl, rfl, rfl, rfl, rfl, rfl, rfl⟩ hsent nofun
          (fun _ _ => .inl rfl) (.inl ⟨hc, hl, .inl ⟨h.unanswered (.inl hl) hcall hsent.2 hc, ?_⟩⟩)
        exact .inl ⟨_, .inr rfl, .inl rfl⟩
    · next hc =>
      cases hstep
      have hreq : s.compreq = false := by simpa using hc
      refine h.init_change ⟨rfl, rfl, rfl⟩ rfl ?_ (fun t => ?_) id
        (fun hc' => absurd hc' hc) nofun (.inr ⟨hreq, by simp [Section.cleansUp]⟩)
      · exact ⟨h.state.once, h.state.dropped, nofun, fun _ => .inr (.inr rfl), nofun,
          fun _ => .inr rfl, nofun, nofun, nofun⟩
      · have hok := h.threads t
        exact ⟨hok.tail, fun _ => .inr (.inr rfl), hok.sends, hok.deletes, hok.forgets, hok.repairs,
          nofun⟩
  all_goals cases hstep

/-- The session is cleared. -/
theorem Inv.clear (h : s.Inv) (info : CompInfo) (hstep : s.step info (.clear t) = some u) : u.Inv := by
  simp only [step] at hstep
  split at hstep <;> cases hstep
  next hidle =>
  have hcleared : s.cleared = true → (s.cleared || !s.place.begun) = true := by
    intro hc
    rw [hc]
    rfl
  have hset : s.Settled → (s.cleared || !s.place.begun) = true ∨ s.compreq = false ∧ s.answers = 1 :=
    Or.imp_left hcleared
  have hlate : ∀ {a : T}, Late { s with
      todo := Function.update s.todo t [.refresh], cleared := s.cleared || !s.place.begun } a →
      s.Late a := late_update rfl (by simp [Section.late])
  have hthread : ∀ {l' : List Section}, s.ThreadOk l' → ThreadOk { s with
      todo := Function.update s.todo t [.refresh], cleared := s.cleared || !s.place.begun } l' :=
    fun h' => ⟨h'.tail, h'.late, h'.sends, h'.deletes, fun hj => hset (h'.forgets hj), h'.repairs,
      h'.inRepair⟩
  refine ⟨h.held, h.selfLocked, h.crashed, ?_, ?_, ?_, h.sender_update rfl (by rintro ⟨⟩), ?_, ?_, ?_⟩
  · exact ⟨h.state.once, fun hc => (h.state.dropped hc).imp_left hcleared, h.state.unset,
      h.state.unknown, fun hd => hset (h.state.done hd), h.state.knownRepair, h.state.repair,
      h.state.initializing, h.state.begun⟩
  · refine threadOk_update rfl (threadOk_of_early ?_) fun a _ => hthread (h.threads a)
    simp [Section.late]
  · exact fun hc a b ha hb => h.unique hc a b (hlate ha) (hlate hb)
  · intro hc ha
    obtain hs | ⟨a, hsend⟩ := h.sent hc ha
    · exact .inl hs
    · refine .inr ⟨a, ?_⟩
      have hne : a ≠ t := by
        rintro rfl
        rw [hidle] at hsend
        cases hsend
      show (Function.update s.todo t [.refresh] a).head? = _
      rwa [Function.update_of_ne hne]
  · intro hb hc
    rw [show s.place.begun = false from hb, Bool.not_false, Bool.or_true] at hc
    cases hc
  · have hinit := h.init
    have hno : s.NoLate → NoLate { s with
        todo := Function.update s.todo t [.refresh], cleared := s.cleared || !s.place.begun } :=
      fun hno a ha => hno a (hlate ha)
    by_cases hb : s.place.begun = true
    · refine InitOk.congr (s := s) ⟨rfl, rfl, rfl, rfl, rfl, rfl, rfl, ?_, rfl, rfl, rfl⟩ hno hinit
      show (s.cleared || !s.place.begun) = s.cleared
      rw [hb, Bool.not_true, Bool.or_false]
    · rw [Bool.not_eq_true] at hb
      unfold InitOk at hinit ⊢
      cases hp : s.place <;> rw [hp] at hinit hb <;> simp only at hinit ⊢
      case created | start | waiting => exact hinit
      all_goals cases hb

theorem Inv.step (h : s.Inv) (info : CompInfo) {a : LifeAct T} (ha : s.Orderly info a)
    (hstep : s.step info a = some u) : u.Inv := by
  obtain ⟨hcur, ha⟩ := ha
  cases a with
  | callInitialize told => exact h.call_initialize info ha hstep
  | clear t => exact h.clear info hstep
  | init told =>
    simp only [Life.step, h.selfLocked, h.crashed] at hstep
    split at hstep
    · next hf => cases hf
    · split at hstep
      · next hcall => exact h.init_advance info hcall hcur ha hstep
      · next i rest hcall =>
        split at hstep <;> cases hstep
        next hexec =>
        refine h.init_call info hcall (fun hi => hcur ?_) hexec
        simp [Reads, hcall, hi]
  | thread t told =>
    simp only [Life.step] at hstep
    split at hstep
    · cases hstep
    · next i rest ht =>
      split at hstep <;> cases hstep
      next hexec =>
      refine h.thread info ht (fun hi => hcur ?_) (fun hi hp => ha ?_ hp) hexec
      · simp [Reads, ht, hi]
      · rw [ht, hi]
        rfl

/-! ### The ends of links -/

/-- Each end is in the list, about to be counted, or counted. -/
structure LinksOk (s : Life T) : Prop where
  nodup : s.links.Nodup
  fresh : ∀ link ∈ s.links, s.counted link = 0
  once : ∀ link, s.counted link ≤ 1
  next : ∀ link, .bothCompsDone link ∈ s.call → link ∉ s.links ∧ s.counted link = 0
  tail : ∀ link, .bothCompsDone link ∉ s.call.tail
  threads : ∀ t, ∀ i ∈ s.todo t, i.countsLinks = false

omit [DecidableEq T] in
theorem LinksOk.congr (h : s.LinksOk) (hlinks : u.links = s.links ∨ u.links = [])
    (hcounted : u.counted = s.counted)
    (hcall : ∀ link, .bothCompsDone link ∈ u.call → .bothCompsDone link ∈ s.call)
    (htail : ∀ link, .bothCompsDone link ∉ u.call.tail)
    (hthreads : ∀ t, ∀ i ∈ u.todo t, i.countsLinks = false) : u.LinksOk := by
  have hsub : ∀ link ∈ u.links, link ∈ s.links := by
    intro link hl
    obtain hu | hu := hlinks <;> rw [hu] at hl
    · exact hl
    · cases hl
  refine ⟨?_, ?_, ?_, ?_, htail, hthreads⟩
  · obtain hu | hu := hlinks <;> rw [hu]
    · exact h.nodup
    · exact List.nodup_nil
  · intro link hl
    rw [hcounted]
    exact h.fresh link (hsub link hl)
  · rw [hcounted]
    exact h.once
  · intro link hl
    rw [hcounted]
    exact ⟨fun hl' => (h.next link (hcall link hl)).1 (hsub link hl'), (h.next link (hcall link hl)).2⟩

/-- A section that counts no end of a link. -/
theorem exec_links {info : CompInfo} {mine : Bool} {told : Told T} (hi : i.countsLinks = false)
    (hexec : s.exec info mine told i = some (u, l)) :
    (u.links = s.links ∨ u.links = []) ∧ u.counted = s.counted ∧ u.call = s.call ∧
      (∀ j ∈ l, j.countsLinks = false) ∧
      (u.todo = s.todo ∨ ∃ t, u.todo = Function.update s.todo t [.connect, .clearComponent]) := by
  have hlocked : ∀ {r : Life T × List Section}, locked mine s r = some (u, l) →
      r = (u, l) ∨ u = { s with selfLocked := true } ∧ l = [] := by
    intro r hr
    unfold locked at hr
    split at hr
    · split at hr
      · cases hr
        exact .inr ⟨rfl, rfl⟩
      · cases hr
    · cases hr
      exact .inl rfl
  have hsame : (s.links = s.links ∨ s.links = []) ∧ s.counted = s.counted ∧ s.call = s.call :=
    ⟨.inl rfl, rfl, rfl⟩
  cases i with
  | refresh =>
    simp only [exec] at hexec
    obtain ⟨r, hr, hlock⟩ := Option.bind_eq_some_iff.mp hexec
    obtain rfl | ⟨rfl, rfl⟩ := hlocked hlock
    · clear hexec hlock
      obtain ⟨n, rfl, hl⟩ | ⟨-, -, -, rfl, rfl⟩ | ⟨-, rfl, rfl⟩ | ⟨-, -, -, -, todo, rfl, htodo⟩ :=
        refresh_cases hr
      · refine ⟨.inl rfl, rfl, rfl, ?_, .inl rfl⟩
        obtain rfl | rfl := hl <;> simp [Section.countsLinks]
      · exact ⟨.inl rfl, rfl, rfl, by simp [Section.countsLinks], .inl rfl⟩
      · exact ⟨.inl rfl, rfl, rfl, by simp [Section.countsLinks], .inl rfl⟩
      · obtain ⟨rfl, rfl⟩ | ⟨t', -, rfl, rfl⟩ := htodo
        · exact ⟨.inl rfl, rfl, rfl, by simp [Section.countsLinks], .inl rfl⟩
        · exact ⟨.inl rfl, rfl, rfl, (by intros; contradiction), .inr ⟨t', rfl⟩⟩
    · exact ⟨.inl rfl, rfl, rfl, (by intros; contradiction), .inl rfl⟩
  | cleanupLinks doInit =>
    cases doInit with
    | true => cases hi
    | false =>
      cases hexec
      exact ⟨.inr rfl, rfl, rfl, (by intros; contradiction), .inl rfl⟩
  | bothCompsDone link => cases hi
  | cleanupReqs failed =>
    simp only [exec] at hexec
    split at hexec <;> cases hexec
    · refine ⟨.inl rfl, rfl, rfl, ?_, .inl rfl⟩
      split <;> simp [Section.countsLinks]
    · refine ⟨.inl rfl, rfl, rfl, ?_, .inl rfl⟩
      split <;> simp [Section.countsLinks]
  | setRepair =>
    obtain hr | ⟨rfl, rfl⟩ := hlocked hexec
    · cases hr
      refine ⟨.inl rfl, rfl, rfl, ?_, .inl rfl⟩
      split <;> simp [Section.countsLinks]
    · exact ⟨.inl rfl, rfl, rfl, (by intros; contradiction), .inl rfl⟩
  | clearComponent =>
    simp only [exec] at hexec
    split at hexec
    · cases hexec
      exact ⟨.inl rfl, rfl, rfl, (by intros; contradiction), .inl rfl⟩
    · obtain hr | ⟨rfl, rfl⟩ := hlocked hexec
      · cases hr
        exact ⟨.inl rfl, rfl, rfl, (by intros; contradiction), .inl rfl⟩
      · exact ⟨.inl rfl, rfl, rfl, (by intros; contradiction), .inl rfl⟩
  | getType =>
    simp only [exec] at hexec
    split at hexec
    · cases hexec
      exact ⟨.inl rfl, rfl, rfl, by simp [Section.countsLinks], .inl rfl⟩
    · obtain hr | ⟨rfl, rfl⟩ := hlocked hexec
      · cases hr
        exact ⟨.inl rfl, rfl, rfl, by simp [Section.countsLinks], .inl rfl⟩
      · exact ⟨.inl rfl, rfl, rfl, (by intros; contradiction), .inl rfl⟩
  | setFree =>
    simp only [exec] at hexec
    split at hexec
    · cases hexec
      exact ⟨.inl rfl, rfl, rfl, (by intros; contradiction), .inl rfl⟩
    · obtain hr | ⟨rfl, rfl⟩ := hlocked hexec
      · cases hr
        exact ⟨.inl rfl, rfl, rfl, (by intros; contradiction), .inl rfl⟩
      · exact ⟨.inl rfl, rfl, rfl, (by intros; contradiction), .inl rfl⟩
  | connect =>
    simp only [exec] at hexec
    split at hexec
    · split at hexec <;> cases hexec
      · exact ⟨.inl rfl, rfl, rfl, by simp [Section.countsLinks], .inl rfl⟩
      · refine ⟨.inl rfl, rfl, rfl, ?_, .inl rfl⟩
        split <;> simp [nodeFailed, Section.countsLinks]
    · cases hexec
      exact ⟨.inl rfl, rfl, rfl, by simp [Section.countsLinks], .inl rfl⟩
  | keebootConnect =>
    simp only [exec] at hexec
    split at hexec <;> cases hexec
    · refine ⟨.inl rfl, rfl, rfl, ?_, .inl rfl⟩
      split <;> simp [nodeFailed, Section.countsLinks]
    · exact ⟨.inl rfl, rfl, rfl, by simp [Section.countsLinks], .inl rfl⟩
  | sendFailed | deleteReq _ | sendRefresh _ | waitForUpMsg | dependent | keebootSend
    | keebootUpMsg =>
    cases hexec
    refine ⟨.inl rfl, rfl, rfl, ?_, .inl rfl⟩
    first
    | exact fun j hj => by rw [List.mem_singleton.mp hj]; rfl
    | split <;> simp [nodeFailed, Section.countsLinks]

/-- A section of a function that `do_initialize` has called. -/
theorem LinksOk.init_call (h : s.LinksOk) (info : CompInfo) (hcall : s.call = i :: rest)
    {told : Told T} (hexec : s.exec info true told i = some (u, l)) :
    LinksOk { u with call := l ++ rest } := by
  have hrest : ∀ link, Section.bothCompsDone link ∉ rest := by
    intro link
    have htail := h.tail link
    rwa [hcall] at htail
  cases hi : i.countsLinks with
  | false =>
    obtain ⟨hlinks, hcounted, -, hl, htodo⟩ := exec_links hi hexec
    have hnot : ∀ link, Section.bothCompsDone link ∉ l ++ rest := by
      intro link hmem
      obtain hmem | hmem := List.mem_append.mp hmem
      · cases hl _ hmem
      · exact hrest link hmem
    refine h.congr hlinks hcounted (fun link hmem => absurd hmem (hnot link))
      (fun link hmem => hnot link (List.mem_of_mem_tail hmem)) fun t j hj => ?_
    obtain ht | ⟨t', ht⟩ := htodo
    · rw [show u.todo = s.todo from ht] at hj
      exact h.threads t j hj
    · rw [show u.todo = _ from ht] at hj
      by_cases htt : t = t'
      · rw [htt, Function.update_self] at hj
        obtain - | ⟨-, - | ⟨-, hj⟩⟩ := hj
        · rfl
        · rfl
        · cases hj
      · rw [Function.update_of_ne htt] at hj
        exact h.threads t j hj
  | true =>
    cases i with
    | cleanupLinks doInit =>
      cases doInit with
      | false => cases hi
      | true =>
        simp only [exec] at hexec
        split at hexec
        · cases hexec
          exact h.congr (.inl rfl) rfl (fun link hmem => absurd hmem (hrest link))
            (fun link hmem => hrest link (List.mem_of_mem_tail hmem)) h.threads
        · next link links hlinks =>
          cases hexec
          have hnodup := h.nodup
          have hfresh := h.fresh
          rw [hlinks] at hnodup hfresh
          refine ⟨hnodup.of_cons, fun x hx => hfresh x (List.mem_cons_of_mem _ hx), h.once, ?_, ?_,
            h.threads⟩
          · rintro x (- | ⟨-, - | ⟨-, hx⟩⟩)
            · exact ⟨(List.nodup_cons.mp hnodup).1, hfresh link List.mem_cons_self⟩
            · exact absurd hx (hrest x)
          · rintro x (- | ⟨-, hx⟩)
            exact hrest x hx
    | bothCompsDone link =>
      cases hexec
      obtain ⟨hnot, hz⟩ := h.next link (by rw [hcall]; exact List.mem_cons_self)
      refine ⟨h.nodup, fun x hx => ?_, fun x => ?_, fun x hx => absurd hx (hrest x),
        fun x hx => hrest x (List.mem_of_mem_tail hx), h.threads⟩
      · have hne : x ≠ link := fun hxl => hnot (hxl ▸ hx)
        show Function.update s.counted link (s.counted link + 1) x = 0
        rw [Function.update_of_ne hne]
        exact h.fresh x hx
      · show Function.update s.counted link (s.counted link + 1) x ≤ 1
        by_cases hxl : x = link
        · rw [hxl, Function.update_self, hz]
        · rw [Function.update_of_ne hxl]
          exact h.once x
    | _ => cases hi

omit [DecidableEq T] in
/-- What `do_initialize` itself does to the links, and calls. -/
theorem advance_links {info : CompInfo} {told : Told T} (hcall : s.call = [])
    (ha : s.advance info told = some u) :
    u.links = s.links ∧ u.counted = s.counted ∧ u.todo = s.todo ∧
      ∀ link, .bothCompsDone link ∉ u.call := by
  have hbegin : ∀ dependent, (s.begin info dependent told).links = s.links ∧
      (s.begin info dependent told).counted = s.counted ∧
      (s.begin info dependent told).todo = s.todo ∧
      ∀ link, .bothCompsDone link ∉ (s.begin info dependent told).call := by
    intro dependent
    unfold begin
    simp only
    split
    · exact ⟨rfl, rfl, rfl, by simp [hcall]⟩
    split
    · split <;> exact ⟨rfl, rfl, rfl, by simp [clearAndLeave]⟩
    split
    · exact ⟨rfl, rfl, rfl, by simp⟩
    · split <;> exact ⟨rfl, rfl, rfl, by simp [leave, setInitializing, setState, hcall]⟩
  unfold advance at ha
  cases hp : s.place <;> rw [hp] at ha <;> simp only at ha
  case start | waiting =>
    cases ha
    exact hbegin _
  case created | finished => cases ha
  case dependentRefresh | checkUnlocked | keebootTest | keebootRefresh | startExp | respond
    | setActive =>
    split at ha <;> cases ha <;>
      exact ⟨rfl, rfl, rfl, by simp [clearAndLeave, leave, fail, hcall]⟩
  case contact =>
    split at ha
    · split at ha <;> cases ha <;> exact ⟨rfl, rfl, rfl, by simp [fail, hcall]⟩
    · cases ha
      exact ⟨rfl, rfl, rfl, by simp [hcall]⟩
  case countLinks =>
    cases ha
    refine ⟨rfl, rfl, rfl, fun link => ?_⟩
    split <;> simp
  case setUnlocked | configure | deleteReq | createFailed | repairing | failing | leaving =>
    cases ha
    exact ⟨rfl, rfl, rfl, by simp [setInitializing, setState, hcall]⟩

theorem LinksOk.step (h : s.LinksOk) (info : CompInfo) {a : LifeAct T}
    (hstep : s.step info a = some u) : u.LinksOk := by
  cases a with
  | callInitialize told =>
    simp only [Life.step] at hstep
    split at hstep
    · split at hstep
      · split at hstep <;> cases hstep
        · exact h.congr (.inl rfl) rfl (fun _ hm => hm) h.tail h.threads
        · exact h.congr (.inl rfl) rfl (by simp) (by simp) h.threads
      · cases hstep
        exact h.congr (.inl rfl) rfl (by simp) (by simp) h.threads
    · cases hstep
  | clear t =>
    simp only [Life.step] at hstep
    split at hstep <;> cases hstep
    refine h.congr (.inl rfl) rfl (fun _ hm => hm) h.tail fun a j hj => ?_
    have hj : j ∈ Function.update s.todo t [.refresh] a := hj
    by_cases hat : a = t
    · rw [hat, Function.update_self] at hj
      rw [List.mem_singleton.mp hj]
      rfl
    · rw [Function.update_of_ne hat] at hj
      exact h.threads a j hj
  | init told =>
    simp only [Life.step] at hstep
    split at hstep
    · cases hstep
    split at hstep
    · next hcall =>
      obtain ⟨hlinks, hcounted, htodo, hno⟩ := advance_links hcall hstep
      refine h.congr (.inl hlinks) hcounted (fun link hm => absurd hm (hno link))
        (fun link hm => hno link (List.mem_of_mem_tail hm)) ?_
      rw [htodo]
      exact h.threads
    · next hcall =>
      split at hstep <;> cases hstep
      next hexec => exact h.init_call info hcall hexec
  | thread t told =>
    simp only [Life.step] at hstep
    split at hstep
    · cases hstep
    next i rest ht =>
    split at hstep <;> cases hstep
    next s' more hexec =>
    have hi : ∀ j ∈ i :: rest, j.countsLinks = false := by
      rw [← ht]
      exact h.threads t
    obtain ⟨hlinks, hcounted, hcall, hl, htodo⟩ := exec_links (hi i List.mem_cons_self) hexec
    refine h.congr hlinks hcounted (fun link hm => hcall ▸ hm) ?_ fun a j hj => ?_
    · intro link hm
      exact h.tail link (hcall ▸ hm)
    · have hj : j ∈ Function.update s'.todo t (more ++ rest) a := hj
      by_cases hat : a = t
      · rw [hat, Function.update_self] at hj
        obtain hj | hj := List.mem_append.mp hj
        · exact hl j hj
        · exact hi j (List.mem_cons_of_mem _ hj)
      · rw [Function.update_of_ne hat] at hj
        obtain htodo | ⟨t', htodo⟩ := htodo <;> rw [htodo] at hj
        · exact h.threads a j hj
        · by_cases hat' : a = t'
          · rw [hat', Function.update_self] at hj
            obtain - | ⟨-, - | ⟨-, hj⟩⟩ := hj
            · rfl
            · rfl
            · cases hj
          · rw [Function.update_of_ne hat'] at hj
            exact h.threads a j hj

omit [DecidableEq T] in
/-- A component at the start of its life. -/
theorem inv_start (compreq : Bool) (n : ℕ) : Inv (start (T := T) compreq n) := by
  have hnil : ∀ t : T, (start (T := T) compreq n).todo t = [] := fun _ => rfl
  have hno : (start (T := T) compreq n).NoLate := fun t ⟨_, hi, _⟩ => by cases hi
  refine ⟨rfl, rfl, rfl, ?_, fun t => threadOk_of_early nofun, fun _ a _ ha => absurd ha (hno a), nofun,
    fun hc ha => ?_, fun _ _ => ⟨hnil, rfl, ?_⟩, ⟨rfl, nofun, nofun⟩⟩
  · refine ⟨?_, fun hc => .inr ?_, fun _ => rfl, fun _ => .inl rfl, nofun, nofun, nofun, nofun, nofun⟩
    · show (if compreq then 0 else 1) ≤ 1
      cases compreq <;> decide
    · show (if compreq then 0 else 1) = 1
      rw [show compreq = false from hc]
      rfl
  · refine absurd ?_ ha
    show (if compreq then 0 else 1) = 0
    rw [show compreq = true from hc]
    rfl
  · cases compreq
    · exact .inr rfl
    · exact .inl rfl

omit [DecidableEq T] in
theorem linksOk_start (compreq : Bool) (n : ℕ) : LinksOk (start (T := T) compreq n) :=
  ⟨List.nodup_range, fun _ _ => rfl, fun _ => Nat.zero_le 1, nofun, nofun, nofun⟩

omit [DecidableEq T] in
theorem Inv.good (h : s.Inv) (hl : s.LinksOk) : s.Good := by
  refine ⟨h.selfLocked, h.state.once, ?_, hl.once⟩
  rintro (hp | hc)
  · have hinit := h.init
    unfold InitOk at hinit
    rw [hp] at hinit
    exact hinit.2
  · rw [h.crashed] at hc
    cases hc

/-- The life of a component whose steps are all orderly. -/
theorem good_of_orderly (info : CompInfo) (compreq : Bool) (n : ℕ) {tr : List (LifeAct T × Life T)}
    (hrun : IsRun (fun s a u => s.step info a = some u) (start compreq n) tr)
    (horderly : EveryStep (fun s a _ => s.Orderly info a) (start compreq n) tr) :
    EveryState Good (start compreq n) tr := by
  refine (hrun.everyState (P := fun s => s.Inv ∧ s.LinksOk) ?_ ⟨inv_start compreq n, linksOk_start compreq n⟩
    horderly).mono fun s hs => hs.1.good hs.2
  exact fun s a u hs hstep ha => ⟨hs.1.step info ha hstep, hs.2.step info hstep⟩

instance (info : CompInfo) (s : Life T) : (a : LifeAct T) → Decidable (s.Orderly info a)
  | .callInitialize _ => inferInstanceAs (Decidable (_ ∧ _))
  | .clear _ => inferInstanceAs (Decidable (_ ∧ _))
  | .init _ => inferInstanceAs (Decidable (_ ∧ _))
  | .thread _ _ => inferInstanceAs (Decidable (_ ∧ _))

/-- A component with one link is started, answered for, counted, and refreshed by a thread of its own
when the session is cleared. -/
def ordinaryLife : List (LifeAct Bool) :=
  [.callInitialize {}] ++ List.replicate 13 (.init {}) ++
    [.clear false, .thread false { state := .active, thread := some true }, .thread true {},
      .thread true {}, .thread true {}, .thread true {}, .thread true {}, .thread true {},
      .thread true {}, .thread true {}]

theorem ordinaryLife_good :
    EveryState Good (start true 1) (runOf (fun s a => s.step {} a) (start true 1) ordinaryLife) ∧
      (lastState (start true 1)
        (runOf (fun s a => s.step {} a) (start true 1) ordinaryLife)).place = .finished :=
  ⟨good_of_orderly {} true 1 (isRun_runOf _ _ _) (by decide), by decide⟩

/-- The dependent is found in repair, and `do_refresh` is called with the lock. -/
theorem dependent_in_repair : ¬∀ (info : CompInfo) (compreq : Bool) (n : ℕ)
    (tr : List (LifeAct Bool × Life Bool)),
    IsRun (fun s a u => s.step info a = some u) (start compreq n) tr →
      EveryState Good (start compreq n) tr := by
  intro h
  have hrun := h { hasDependent := true } true 1 _ (isRun_runOf (step { hasDependent := true }) _
    [.callInitialize {}, .init { dependent := .repair }, .init {}, .init {}, .init {}])
  have hlast := hrun.last.selfLocked
  revert hlast
  decide

end Life

end OnlDaemons.Crd

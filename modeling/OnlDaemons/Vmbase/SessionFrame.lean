import OnlDaemons.Vmbase.SessionManager

/-!
# Sessions and threads of vmbase

What holds of the sessions, the VMs and the threads as long as no session is cleared that has VMs.

## Main definitions

- `VmDaemon.Frame` — the invariant
- `VmDaemon.Fits` — what it asks of the next place of a thread
-/

namespace OnlDaemons.Vmbase
open OnlDaemons.Lib OnlDaemons.Shared

namespace VmPlace

/-- `addVM` is under way for the session. -/
def adds : VmPlace → Option ℕ
  | adding p _ | assigning p _ | pushing p _ => some p
  | _ => none

/-- A VM that is not listed yet. -/
def made : VmPlace → Option ℕ
  | assigning _ v | pushing _ v => some v
  | _ => none

/-- `removeVM` is under way. -/
def removes : VmPlace → Option (ℕ × ℕ)
  | removing p v _ _ | undefining p v _ | releasing p v _ | unlinking p v _ => some (p,v)
  | _ => none

/-- The session has no VM any more. -/
def empties : VmPlace → Option ℕ
  | clearing p _ | retiring p => some p
  | _ => none

/-- `deleteVM` holds `session_lock`. -/
def locks : VmPlace → Bool
  | deleting .. | checking _ | retiring _ => true
  | removing _ _ _ k | undefining _ _ k | releasing _ _ k | unlinking _ _ k => k = .deleteVM
  | clearing _ k => !k.destructor
  | _ => false

/-- No VM is removed by `clear`. -/
def Calm : VmPlace → Prop
  | removing _ _ _ k | undefining _ _ k | releasing _ _ k | unlinking _ _ k => k = .deleteVM
  | clearing _ k => k.all = [] ∧ k.ran = []
  | popping .. => False
  | _ => True

/-- The VM is about to be listed, or it has lost its name and is still listed. -/
def turns : VmPlace → Bool
  | pushing .. | unlinking .. => true
  | _ => false

/-- Only `deleteVM` removes, with the lock. -/
theorem locks_of_removes {q : VmPlace} {x : ℕ × ℕ} (hc : q.Calm) (h : q.removes = some x) : q.locks := by
  cases q <;> cases h <;> exact decide_eq_true hc

end VmPlace

namespace VmDaemon

variable {T : Type}

/-- What holds of the sessions, the VMs and the threads. -/
structure Frame (s : VmDaemon T) : Prop where
  busy : ∀ t, s.place t ≠ .idle → t ∈ s.threads
  lock : ∀ t, (s.place t).locks → s.sessionLock = some t
  old : ∀ t p, (s.place t).session = some p → p < s.next
  oldActive : ∀ p ∈ s.activeSessions, p < s.next
  distinct : (s.activeSessions.map fun p => expKey (s.session p).expInfo).Nodup
  empty : ∀ p, p ∉ s.activeSessions → (s.session p).vms = []
  adds : ∀ t p, (s.place t).adds = some p → p ∈ s.activeSessions
  listed : ∀ p, ∀ v ∈ (s.session p).vms, v < s.next
  nodup : ∀ p, (s.session p).vms.Nodup
  apart : ∀ p p' v, v ∈ (s.session p).vms → v ∈ (s.session p').vms → p = p'
  made : ∀ t v, (s.place t).made = some v → v < s.next ∧ (∀ p, v ∉ (s.session p).vms) ∧
    ∀ t', t' ≠ t → (s.place t').made ≠ some v
  removes : ∀ t p v, (s.place t).removes = some (p,v) → v ∈ (s.session p).vms
  calm : ∀ t, (s.place t).Calm
  empties : ∀ t p, (s.place t).empties = some p → p < s.next ∧ (s.session p).vms = [] ∧
    ∀ t', t' ≠ t → (s.place t').adds ≠ some p
  gone : ∀ t p k, s.place t = .clearing p k → k.destructor → p ∉ s.activeSessions
  cleared : ∀ x ∈ s.cleared, x = ([],[])

/-- What the invariant asks of the next place of a thread. -/
structure Fits (s : VmDaemon T) (t : T) (q : VmPlace) : Prop where
  lock : q.locks → s.sessionLock = some t
  old : ∀ p, q.session = some p → p < s.next
  adds : ∀ p, q.adds = some p → p ∈ s.activeSessions ∧ ∀ t', t' ≠ t → (s.place t').empties ≠ some p
  made : ∀ v, q.made = some v → v < s.next ∧ (∀ p, v ∉ (s.session p).vms) ∧
    ∀ t', t' ≠ t → (s.place t').made ≠ some v
  removes : ∀ p v, q.removes = some (p,v) → v ∈ (s.session p).vms
  calm : q.Calm
  empties : ∀ p, q.empties = some p → p < s.next ∧ (s.session p).vms = [] ∧
    ∀ t', t' ≠ t → (s.place t').adds ≠ some p
  gone : ∀ p k, q = .clearing p k → k.destructor → p ∉ s.activeSessions

variable {s u : VmDaemon T} {t : T} {q : VmPlace} {p v : ℕ}

/-! ### Changes of the sessions -/

/-- Only the vlans, the VMs and the names change. -/
theorem Frame.same (h : s.Frame) (hplace : u.place = s.place) (hthreads : u.threads = s.threads)
    (hlock : u.sessionLock = s.sessionLock) (hact : u.activeSessions = s.activeSessions)
    (hvms : ∀ p, (u.session p).vms = (s.session p).vms)
    (hexp : ∀ p, (u.session p).expInfo = (s.session p).expInfo) (hnext : s.next ≤ u.next)
    (hcleared : ∀ x ∈ u.cleared, x = ([],[])) : u.Frame where
  busy := by rw [hplace,hthreads]; exact h.busy
  lock := by rw [hplace,hlock]; exact h.lock
  old t p hp := Nat.lt_of_lt_of_le (h.old t p (hplace ▸ hp)) hnext
  oldActive p hp := Nat.lt_of_lt_of_le (h.oldActive p (hact ▸ hp)) hnext
  distinct := by simp only [hact,hexp]; exact h.distinct
  empty := by simp only [hact,hvms]; exact h.empty
  adds := by rw [hplace,hact]; exact h.adds
  listed p v hv := Nat.lt_of_lt_of_le (h.listed p v (hvms p ▸ hv)) hnext
  nodup := by simp only [hvms]; exact h.nodup
  apart := by simp only [hvms]; exact h.apart
  made t v hv := by
    obtain ⟨hlt,hl,hne⟩ := h.made t v (hplace ▸ hv)
    refine ⟨Nat.lt_of_lt_of_le hlt hnext,?_,?_⟩
    · simpa only [hvms] using hl
    · rwa [hplace]
  removes := by simp only [hplace,hvms]; exact h.removes
  calm := by rw [hplace]; exact h.calm
  empties t p hp := by
    obtain ⟨hlt,hl,hne⟩ := h.empties t p (hplace ▸ hp)
    refine ⟨Nat.lt_of_lt_of_le hlt hnext,?_,?_⟩
    · rw [hvms,hl]
    · rwa [hplace]
  gone := by rw [hplace,hact]; exact h.gone
  cleared := hcleared

/-- A new session has no VM, and there was none at its address. -/
theorem Frame.vms_create (h : s.Frame) (e : ExperimentInfo) (p : ℕ) :
    (Function.update s.session s.next ⟨e,[],[]⟩ p).vms = (s.session p).vms := by
  have hnot : s.next ∉ s.activeSessions := fun hm => Nat.lt_irrefl _ (h.oldActive _ hm)
  rw [Function.update_apply]
  split
  · next hp => exact hp ▸ (h.empty _ hnot).symm
  · rfl

/-- A session is listed for an experiment that has none. -/
theorem Frame.create {e : ExperimentInfo} (h : s.Frame) (he : s.getSession e = none) :
    Frame { s with
      session := Function.update s.session s.next ⟨e,[],[]⟩
      activeSessions := s.activeSessions ++ [s.next]
      next := s.next + 1 } := by
  have hvms := h.vms_create e
  have hold : ∀ p ∈ s.activeSessions, Function.update s.session s.next ⟨e,[],[]⟩ p = s.session p :=
    fun p hp => Function.update_of_ne (Nat.ne_of_lt (h.oldActive p hp)) ..
  have hle := Nat.le_succ s.next
  refine
    { busy := h.busy, lock := h.lock, calm := h.calm, cleared := h.cleared
      old := fun t p hp => Nat.lt_succ_of_lt (h.old t p hp)
      oldActive := fun p hp => ?_
      distinct := ?_
      empty := fun p hp => ?_
      adds := fun t p hp => List.mem_append_left _ (h.adds t p hp)
      listed := fun p v hv => Nat.lt_succ_of_lt (h.listed p v (hvms p ▸ hv))
      nodup := fun p => (congrArg List.Nodup (hvms p)).mpr (h.nodup p)
      apart := fun p p' v hv hv' => h.apart p p' v (hvms p ▸ hv) (hvms p' ▸ hv')
      made := fun t v hv => ?_
      removes := fun t p v hp => (hvms p).symm ▸ h.removes t p v hp
      empties := fun t p hp => ?_
      gone := fun t p k hp hk hm => ?_ }
  · rcases List.mem_append.mp hp with hp | hp
    · exact Nat.lt_succ_of_lt (h.oldActive p hp)
    · exact List.mem_singleton.mp hp ▸ Nat.lt_succ_self _
  · show List.Nodup (List.map (fun p => expKey (Function.update s.session s.next ⟨e,[],[]⟩ p).expInfo)
      (s.activeSessions ++ [s.next]))
    rw [List.map_append,List.map_singleton,Function.update_self,
      List.map_congr_left fun p hp => by rw [hold p hp]]
    refine List.nodup_append.mpr ⟨h.distinct,List.nodup_singleton _,?_⟩
    rintro x hx y hy rfl
    obtain ⟨p,hp,rfl⟩ := List.mem_map.mp hx
    have := List.find?_eq_none.mp he p hp
    exact this (decide_eq_true (List.mem_singleton.mp hy))
  · rw [hvms]
    exact h.empty p fun hm => hp (List.mem_append_left _ hm)
  · obtain ⟨hlt,hl,hne⟩ := h.made t v hv
    exact ⟨Nat.lt_succ_of_lt hlt,fun p hp => hl p (hvms p ▸ hp),hne⟩
  · obtain ⟨hlt,hl,hne⟩ := h.empties t p hp
    exact ⟨Nat.lt_succ_of_lt hlt,(hvms p).trans hl,hne⟩
  · rcases List.mem_append.mp hm with hm | hm
    · exact h.gone t p k hp hk hm
    · have hlt := (h.empties t p (hp ▸ rfl)).1
      exact Nat.lt_irrefl _ (List.mem_singleton.mp hm ▸ hlt)

theorem vms_modifySession (s : VmDaemon T) (p p' : ℕ) (f : Session → Session) :
    ((s.modifySession p f).session p').vms = if p' = p then (f (s.session p)).vms else (s.session p').vms := by
  show (Function.update s.session p (f (s.session p)) p').vms = _
  rw [Function.update_apply]
  split <;> rfl

theorem expInfo_modifySession {f : Session → Session} (hf : ∀ x, (f x).expInfo = x.expInfo) (s : VmDaemon T)
    (p p' : ℕ) : ((s.modifySession p f).session p').expInfo = (s.session p').expInfo := by
  show (Function.update s.session p (f (s.session p)) p').expInfo = _
  rw [Function.update_apply]
  split
  · next h => rw [h,hf]
  · rfl

/-- The list of VMs of one session changes. -/
theorem Frame.relist {f : Session → Session} (h : s.Frame) (hf : ∀ x, (f x).expInfo = x.expInfo)
    (hp : p ∉ s.activeSessions → (f (s.session p)).vms = [])
    (hlt : ∀ v ∈ (f (s.session p)).vms, v < s.next) (hnodup : (f (s.session p)).vms.Nodup)
    (hapart : ∀ p' v, v ∈ (f (s.session p)).vms → v ∈ (s.session p').vms → p' = p)
    (hmade : ∀ t v, (s.place t).made = some v → v ∉ (f (s.session p)).vms)
    (hremoves : ∀ t v, (s.place t).removes = some (p,v) → v ∈ (f (s.session p)).vms)
    (hempties : ∀ t, (s.place t).empties = some p → (f (s.session p)).vms = []) :
    (s.modifySession p f).Frame where
  busy := h.busy
  lock := h.lock
  old := h.old
  oldActive := h.oldActive
  distinct := by
    simp only [expInfo_modifySession hf]
    exact h.distinct
  empty p' h' := by
    rw [vms_modifySession]
    split
    · next e => exact hp (e ▸ h')
    · exact h.empty p' h'
  adds := h.adds
  listed p' := by
    rw [vms_modifySession]
    split
    · exact hlt
    · exact h.listed p'
  nodup p' := by
    rw [vms_modifySession]
    split
    · exact hnodup
    · exact h.nodup p'
  apart p1 p2 v h1 h2 := by
    rw [vms_modifySession] at h1 h2
    split at h1 <;> split at h2
    · next e1 e2 => exact e1.trans e2.symm
    · next e1 _ => exact e1.trans (hapart p2 v h1 h2).symm
    · next _ e2 => exact (hapart p1 v h2 h1).trans e2.symm
    · exact h.apart p1 p2 v h1 h2
  made t v hv := by
    obtain ⟨hn,hl,hne⟩ := h.made t v hv
    refine ⟨hn,fun p' => ?_,hne⟩
    rw [vms_modifySession]
    split
    · exact hmade t v hv
    · exact hl p'
  removes t p' v h' := by
    rw [vms_modifySession]
    split
    · next e => exact hremoves t v (e ▸ h')
    · exact h.removes t p' v h'
  calm := h.calm
  empties t p' h' := by
    obtain ⟨hn,hl,hne⟩ := h.empties t p' h'
    refine ⟨hn,?_,hne⟩
    rw [vms_modifySession]
    split
    · next e => exact hempties t (e ▸ h')
    · exact hl
  gone := h.gone
  cleared := h.cleared

/-- A session without VMs that no thread adds to is taken off the list. -/
theorem Frame.retire (h : s.Frame) (hp : (s.session p).vms = []) (hadds : ∀ t, (s.place t).adds ≠ some p) :
    Frame { s with activeSessions := s.activeSessions.filter (· ≠ p) } :=
  { h with
    oldActive := fun p' h' => h.oldActive p' (List.mem_of_mem_filter h')
    distinct := h.distinct.sublist (List.filter_sublist.map _)
    empty := fun p' h' => by
      by_cases e : p' = p
      · exact e ▸ hp
      · exact h.empty p' fun hm => h' (List.mem_filter.mpr ⟨hm,decide_eq_true e⟩)
    adds := fun t p' h' => List.mem_filter.mpr
      ⟨h.adds t p' h',decide_eq_true fun (e : p' = p) => hadds t (e ▸ h')⟩
    gone := fun t p' k h' hk hm => h.gone t p' k h' hk (List.mem_of_mem_filter hm) }

/-! ### What a thread may do -/

theorem Fits.simple (hadds : q.adds = none) (hmade : q.made = none) (hempties : q.empties = none)
    (hcalm : q.Calm) (hlock : q.locks → s.sessionLock = some t) (hold : ∀ p, q.session = some p → p < s.next)
    (hremoves : ∀ p v, q.removes = some (p,v) → v ∈ (s.session p).vms) : s.Fits t q where
  lock := hlock
  old := hold
  adds p h := by rw [hadds] at h; cases h
  made v h := by rw [hmade] at h; cases h
  removes := hremoves
  calm := hcalm
  empties p h := by rw [hempties] at h; cases h
  gone p k h := by rw [h] at hempties; cases hempties

/-- A session that comes to its end is not found by other threads. -/
theorem Frame.lock_of_empties (h : s.Frame) (he : (s.place t).empties = some p) (hp : p ∈ s.activeSessions) :
    s.sessionLock = some t := by
  refine h.lock t ?_
  cases hq : s.place t with
  | clearing p' k =>
    rw [hq] at he
    obtain rfl : p' = p := Option.some.inj he
    cases hk : k.destructor with
    | false => exact (congrArg not hk).trans rfl
    | true => exact absurd hp (h.gone t p' k hq hk)
  | retiring => rfl
  | _ =>
    rw [hq] at he
    cases he

theorem mem_of_getSession {e : ExperimentInfo} (h : s.getSession e = some p) : p ∈ s.activeSessions :=
  List.mem_of_find?_eq_some h

theorem mem_of_getVM {c : Component} (h : s.getVM p c = some v) : v ∈ (s.session p).vms :=
  List.mem_of_find?_eq_some h

/-- `addVM` goes on with the VM `v`. -/
theorem Frame.fits_adding (h : s.Frame) (ht : (s.place t).adds = some p) (hq : q = .assigning p v ∨ q = .pushing p v)
    (hv : v < s.next ∧ (∀ p, v ∉ (s.session p).vms) ∧ ∀ t', t' ≠ t → (s.place t').made ≠ some v) :
    s.Fits t q := by
  have hadds : p ∈ s.activeSessions ∧ ∀ t', t' ≠ t → (s.place t').empties ≠ some p :=
    ⟨h.adds t p ht,fun t' hne he => (h.empties t' p he).2.2 t (Ne.symm hne) ht⟩
  have hold : p < s.next := h.oldActive p hadds.1
  rcases hq with rfl | rfl
  all_goals
    refine
      { lock := nofun, removes := nofun, calm := trivial, empties := nofun, gone := nofun
        old := ?_, adds := ?_, made := ?_ }
    · rintro _ ⟨⟩
      exact hold
    · rintro _ ⟨⟩
      exact hadds
    · rintro _ ⟨⟩
      exact hv

variable [DecidableEq T]

@[simp] theorem goto_place (s : VmDaemon T) (t t' : T) (q : VmPlace) :
    (s.goto t q).place t' = if t' = t then q else s.place t' := Function.update_apply ..

theorem goto_cases (s : VmDaemon T) (t : T) (q : VmPlace) (t' : T) :
    (t' = t ∧ (s.goto t q).place t' = q) ∨ (t' ≠ t ∧ (s.goto t q).place t' = s.place t') := by
  rw [goto_place]
  split
  · next h => exact .inl ⟨h,rfl⟩
  · next h => exact .inr ⟨h,rfl⟩

theorem Frame.goto (h : s.Frame) (hf : s.Fits t q) : (s.goto t q).Frame where
  busy t' h' := by
    obtain ⟨rfl,-⟩ | ⟨-,e⟩ := goto_cases s t q t'
    · exact Finset.mem_insert_self _ _
    · exact Finset.mem_insert_of_mem (h.busy t' (e ▸ h'))
  lock t' := by
    obtain ⟨rfl,e⟩ | ⟨-,e⟩ := goto_cases s t q t' <;> rw [e]
    · exact hf.lock
    · exact h.lock t'
  old t' := by
    obtain ⟨rfl,e⟩ | ⟨-,e⟩ := goto_cases s t q t' <;> rw [e]
    · exact hf.old
    · exact h.old t'
  oldActive := h.oldActive
  distinct := h.distinct
  empty := h.empty
  adds t' := by
    obtain ⟨rfl,e⟩ | ⟨-,e⟩ := goto_cases s t q t' <;> rw [e]
    · exact fun p hp => (hf.adds p hp).1
    · exact h.adds t'
  listed := h.listed
  nodup := h.nodup
  apart := h.apart
  made t1 v hv := by
    obtain ⟨rfl,e⟩ | ⟨h1,e⟩ := goto_cases s t q t1 <;> rw [e] at hv
    · obtain ⟨hlt,hl,hne⟩ := hf.made v hv
      refine ⟨hlt,hl,fun t' ht => ?_⟩
      rw [goto_place,if_neg ht]
      exact hne t' ht
    · obtain ⟨hlt,hl,hne⟩ := h.made t1 v hv
      refine ⟨hlt,hl,fun t' ht => ?_⟩
      obtain ⟨rfl,e'⟩ | ⟨-,e'⟩ := goto_cases s t q t' <;> rw [e']
      · exact fun hq => (hf.made v hq).2.2 t1 h1 hv
      · exact hne t' ht
  removes t' := by
    obtain ⟨rfl,e⟩ | ⟨-,e⟩ := goto_cases s t q t' <;> rw [e]
    · exact hf.removes
    · exact h.removes t'
  calm t' := by
    obtain ⟨rfl,e⟩ | ⟨-,e⟩ := goto_cases s t q t' <;> rw [e]
    · exact hf.calm
    · exact h.calm t'
  empties t1 p hp := by
    obtain ⟨rfl,e⟩ | ⟨h1,e⟩ := goto_cases s t q t1 <;> rw [e] at hp
    · obtain ⟨hlt,hl,hne⟩ := hf.empties p hp
      refine ⟨hlt,hl,fun t' ht => ?_⟩
      rw [goto_place,if_neg ht]
      exact hne t' ht
    · obtain ⟨hlt,hl,hne⟩ := h.empties t1 p hp
      refine ⟨hlt,hl,fun t' ht => ?_⟩
      obtain ⟨rfl,e'⟩ | ⟨-,e'⟩ := goto_cases s t q t' <;> rw [e']
      · exact fun hq => (hf.adds p hq).2 t1 h1 hp
      · exact hne t' ht
  gone t' := by
    obtain ⟨rfl,e⟩ | ⟨-,e⟩ := goto_cases s t q t' <;> rw [e]
    · exact hf.gone
    · exact h.gone t'
  cleared := h.cleared

end VmDaemon
end OnlDaemons.Vmbase

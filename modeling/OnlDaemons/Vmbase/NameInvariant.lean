import OnlDaemons.Vmbase.SessionFrame

/-!
# The names in use

A name is in use from the step that gives it to a VM until the step that takes it back, and the VM is listed shortly
after the one and shortly after the other.

## Main definitions

- `VmDaemon.Holds` — a VM has a name
- `VmDaemon.Careful` — the steps that keep the invariant

## Main result

- `VmDaemon.Inv.step`
-/

namespace OnlDaemons.Vmbase
open OnlDaemons.Lib OnlDaemons.Shared

namespace VmDaemon

variable {T : Type}

/-- A session is made for an experiment that has none, and no request adds a VM to a session that is found empty. -/
def Careful (s : VmDaemon T) (a : VmAct T) (_ : VmDaemon T) : Prop :=
  match a with
  | .arrive .. => True
  | .go t _ =>
    match s.place t with
    | .creating _ e => s.getSession e = none
    | .checking p => (s.session p).vms = [] → ∀ t', (s.place t').adds ≠ some p
    | _ => True

/-- The VM has the name it got. -/
def Holds (s : VmDaemon T) (v : ℕ) : Prop :=
  ((∃ p, v ∈ (s.session p).vms) ∨ ∃ t p, s.place t = .pushing p v) ∧ ∀ t p k, s.place t ≠ .unlinking p v k

/-- The names in use are those of the VMs. -/
structure Named (s : VmDaemon T) : Prop where
  used : ∀ v, s.Holds v → s.inUse (s.vm v).name
  unique : ∀ v v', s.Holds v → s.Holds v' → (s.vm v).name = (s.vm v').name → v = v'
  owner : ∀ nm, s.inUse nm → ∃ v, s.Holds v ∧ (s.vm v).name = nm

structure Inv (s : VmDaemon T) : Prop where
  frame : s.Frame
  named : s.Named

variable {s u : VmDaemon T} {t : T} {q : VmPlace} {p v : ℕ}

/-- The VMs with names are the same, and they keep them. -/
theorem Named.same (h : s.Named) (hH : ∀ v, u.Holds v ↔ s.Holds v)
    (hname : ∀ v, s.Holds v → (u.vm v).name = (s.vm v).name) (huse : u.inUse = s.inUse) : u.Named where
  used v hv := by
    have hs := (hH v).mp hv
    rw [hname v hs,huse]
    exact h.used v hs
  unique v v' hv hv' he := by
    rw [hname v ((hH v).mp hv),hname v' ((hH v').mp hv')] at he
    exact h.unique v v' ((hH v).mp hv) ((hH v').mp hv') he
  owner nm hnm := by
    obtain ⟨v,hv,hn⟩ := h.owner nm (huse ▸ hnm)
    exact ⟨v,(hH v).mpr hv,(hname v hv).trans hn⟩

theorem Inv.takeLock (h : s.Inv) (hfree : s.sessionLock = none) : Inv { s with sessionLock := some t } := by
  refine ⟨{ h.frame with lock := fun t' h' => ?_ },⟨h.named.used,h.named.unique,h.named.owner⟩⟩
  have := h.frame.lock t' h'
  rw [hfree] at this
  cases this

/-- The thread that has the lock goes on and gives it back. -/
theorem Inv.unlock (h : s.Inv) (hlock : s.sessionLock = some t) (ht : (s.place t).locks = false) :
    s.unlock.Inv := by
  refine ⟨{ h.frame with lock := fun t' h' => ?_ },⟨h.named.used,h.named.unique,h.named.owner⟩⟩
  obtain rfl : t = t' := Option.some.inj (hlock.symm.trans (h.frame.lock t' h'))
  rw [show s.unlock.place t = s.place t from rfl,ht] at h'
  cases h'

theorem inv_init (id : List Char) : (init id : VmDaemon T).Inv where
  frame :=
    { busy := fun _ h => absurd rfl h, lock := nofun, old := nofun, oldActive := nofun, distinct := List.nodup_nil
      empty := fun _ _ => rfl, adds := nofun, listed := nofun, nodup := fun _ => List.nodup_nil, apart := nofun
      made := nofun, removes := nofun, calm := fun _ => trivial, empties := nofun, gone := nofun, cleared := nofun }
  named :=
    { used := by
        rintro v ⟨⟨_,hv⟩ | ⟨_,_,hv⟩,-⟩
        · cases hv
        · cases hv
      unique := by
        rintro v _ ⟨⟨_,hv⟩ | ⟨_,_,hv⟩,-⟩
        · cases hv
        · cases hv
      owner := nofun }

/-- The vlans of a session change. -/
theorem Inv.modifyVlans (h : s.Inv) (p : ℕ) (f : List Vlan → List Vlan) :
    (s.modifySession p fun x => { x with vlans := f x.vlans }).Inv := by
  have hvms : ∀ p', ((s.modifySession p fun x => { x with vlans := f x.vlans }).session p').vms =
      (s.session p').vms := by
    intro p'
    rw [vms_modifySession]
    split
    · next e => rw [e]
    · rfl
  refine ⟨h.frame.same rfl rfl rfl rfl hvms
    (expInfo_modifySession (f := fun x => { x with vlans := f x.vlans }) (fun _ => rfl) s p)
    (Nat.le_refl _) h.frame.cleared,h.named.same (fun v => ?_) (fun _ _ => rfl) rfl⟩
  unfold Holds
  simp only [hvms]
  exact Iff.rfl

/-- The interfaces of a VM change. -/
theorem Inv.modifyInterfaces (h : s.Inv) (v : ℕ) (l : List VmInterface) {n : ℕ} (hn : s.next ≤ n) :
    Inv { s.modifyVm v fun vm => { vm with interfaces := l } with next := n } := by
  refine ⟨h.frame.same rfl rfl rfl rfl (fun _ => rfl) (fun _ => rfl) hn h.frame.cleared,
    h.named.same (fun _ => Iff.rfl) (fun v' _ => ?_) rfl⟩
  show (Function.update s.vm v _ v').name = _
  rw [Function.update_apply]
  split
  · next e => rw [e]
  · rfl

variable [DecidableEq T]

theorem holds_goto (hq : q.turns = false) (ht : (s.place t).turns = false) :
    (s.goto t q).Holds v ↔ s.Holds v := by
  have hsame : ∀ q', q'.turns = true → ∀ t', (s.goto t q).place t' = q' ↔ s.place t' = q' := by
    intro q' hq' t'
    obtain ⟨rfl,e⟩ | ⟨-,e⟩ := goto_cases s t q t' <;> rw [e]
    refine iff_of_false ?_ ?_
    · rintro rfl
      rw [hq] at hq'
      cases hq'
    · intro h
      rw [h,hq'] at ht
      cases ht
  have hpush : (∃ t' p, (s.goto t q).place t' = .pushing p v) ↔ ∃ t' p, s.place t' = .pushing p v :=
    exists_congr fun t' => exists_congr fun p => hsame _ rfl t'
  have hunlink : (∀ t' p k, (s.goto t q).place t' ≠ .unlinking p v k) ↔
      ∀ t' p k, s.place t' ≠ .unlinking p v k :=
    forall_congr' fun t' => forall_congr' fun p => forall_congr' fun k => not_congr (hsame _ rfl t')
  exact and_congr (or_congr Iff.rfl hpush) hunlink

/-- A thread goes on and nothing else changes. -/
theorem Inv.goto (h : s.Inv) (hq : q.turns = false) (ht : (s.place t).turns = false) (hf : s.Fits t q) :
    (s.goto t q).Inv :=
  ⟨h.frame.goto hf,h.named.same (fun _ => holds_goto hq ht) (fun _ _ => rfl) rfl⟩

/-- The thread goes on to a place at which it has no more than its pointer to a session. -/
theorem Inv.idle (h : s.Inv) (ht : (s.place t).turns = false) (hq : q.turns = false) (hadds : q.adds = none)
    (hmade : q.made = none) (hempties : q.empties = none) (hremoves : q.removes = none) (hcalm : q.Calm)
    (hlock : q.locks = false) (hold : ∀ p, q.session = some p → p < s.next) : (s.goto t q).Inv := by
  refine h.goto hq ht (.simple hadds hmade hempties hcalm (fun hl => ?_) hold fun p v hr => ?_)
  · rw [hlock] at hl
    cases hl
  · rw [hremoves] at hr
    cases hr

theorem Inv.lookup {r : VmRequest} (h : s.Inv) (hp : s.place t = .arrived r) (hfree : s.sessionLock = none) :
    (s.lookup t r).Inv := by
  have ht : (s.place t).turns = false := by rw [hp]; rfl
  unfold VmDaemon.lookup
  split
  · next p c e hs =>
    have hm := mem_of_getSession hs
    have hold := h.frame.oldActive p hm
    refine h.goto rfl ht
      { lock := nofun, made := nofun, removes := nofun, calm := trivial, empties := nofun, gone := nofun
        old := ?_, adds := ?_ }
    · rintro p' ⟨⟩
      exact hold
    · rintro p' ⟨⟩
      refine ⟨hm,fun t' _ he => ?_⟩
      have hl := h.frame.lock_of_empties he hm
      rw [hfree] at hl
      cases hl
  · next p _ _ _ hs =>
    refine h.idle ht rfl rfl rfl rfl rfl trivial rfl ?_
    rintro _ ⟨⟩
    exact h.frame.oldActive p (mem_of_getSession hs)
  · next p _ _ hs =>
    refine h.idle ht rfl rfl rfl rfl rfl trivial rfl ?_
    rintro _ ⟨⟩
    exact h.frame.oldActive p (mem_of_getSession hs)
  · next p _ _ hs =>
    refine h.idle ht rfl rfl rfl rfl rfl trivial rfl ?_
    rintro _ ⟨⟩
    exact h.frame.oldActive p (mem_of_getSession hs)
  all_goals exact h.idle ht rfl rfl rfl rfl rfl trivial rfl nofun

/-- The second half of `addSession`, if the experiment has no session. -/
theorem Inv.createSession {c : Component} {e : ExperimentInfo} (h : s.Inv) (hp : s.place t = .creating c e)
    (he : s.getSession e = none) : (s.createSession t c e).Inv := by
  have hframe := h.frame.create he
  have hnamed : Named { s with
      session := Function.update s.session s.next ⟨e,[],[]⟩
      activeSessions := s.activeSessions ++ [s.next]
      next := s.next + 1 } := by
    refine h.named.same (fun v => ?_) (fun _ _ => rfl) rfl
    unfold Holds
    simp only [h.frame.vms_create]
  refine Inv.goto ⟨hframe,hnamed⟩ rfl (show (s.place t).turns = false by rw [hp]; rfl)
    { lock := nofun, made := nofun, removes := nofun, calm := trivial, empties := nofun, gone := nofun
      old := ?_, adds := ?_ }
  · rintro _ ⟨⟩
    exact Nat.lt_succ_self _
  · rintro _ ⟨⟩
    refine ⟨List.mem_append_right _ (List.mem_singleton_self _),fun t' _ he => ?_⟩
    exact Nat.lt_irrefl _ (h.frame.empties t' _ he).1

theorem Inv.leaving (h : s.Inv) (ht : (s.place t).turns = false) (hp : (s.place t).session = some p) :
    (s.goto t (.leaving p)).Inv := by
  refine h.idle ht rfl rfl rfl rfl rfl trivial rfl ?_
  rintro _ ⟨⟩
  exact h.frame.old t p hp

theorem Inv.addVM {c : Component} (h : s.Inv) (hp : s.place t = .adding p c) : (s.addVM t p c).Inv := by
  have ht : (s.place t).turns = false := by rw [hp]; rfl
  unfold VmDaemon.addVM
  split
  · exact h.leaving ht (by rw [hp]; rfl)
  · have hnew : ∀ p, s.next ∉ (s.session p).vms := fun p hv => Nat.lt_irrefl _ (h.frame.listed p _ hv)
    have hmade : ∀ t', (s.place t').made ≠ some s.next := fun t' hv => Nat.lt_irrefl _ (h.frame.made t' _ hv).1
    have hnext : ∀ v, s.Holds v → v ≠ s.next := by
      rintro v ⟨⟨p,hv⟩ | ⟨t',p,hv⟩,-⟩ rfl
      · exact hnew p hv
      · exact hmade t' (by rw [hv]; rfl)
    have hinv : Inv { s with vm := Function.update s.vm s.next ⟨[],c,[]⟩, next := s.next + 1 } := by
      refine ⟨h.frame.same rfl rfl rfl rfl (fun _ => rfl) (fun _ => rfl) (Nat.le_succ _) h.frame.cleared,
        h.named.same (fun _ => Iff.rfl) (fun v hv => ?_) rfl⟩
      exact congrArg VmInfo.name (Function.update_of_ne (hnext v hv) ..)
    refine hinv.goto rfl ht (hinv.frame.fits_adding (show (s.place t).adds = some p by rw [hp]; rfl) (.inl rfl) ?_)
    exact ⟨Nat.lt_succ_self _,hnew,fun t' _ => hmade t'⟩

/-- A place that only the thread itself could have. -/
theorem place_goto_iff {q' : VmPlace} {t' : T} (hq : q ≠ q') (ht : s.place t ≠ q') :
    (s.goto t q).place t' = q' ↔ s.place t' = q' := by
  obtain ⟨rfl,e⟩ | ⟨-,e⟩ := goto_cases s t q t' <;> rw [e]
  exact iff_of_false hq ht

/-- The VM that is about to be listed has the name from now on. -/
theorem holds_pushing {w : ℕ} (h : s.Frame) (hp : s.place t = .assigning p v) :
    (s.goto t (.pushing p v)).Holds w ↔ s.Holds w ∨ w = v := by
  have hmade := h.made t v (by rw [hp]; rfl)
  have hnone : ∀ t' p' k, s.place t' ≠ .unlinking p' v k := fun t' p' k hu =>
    hmade.2.1 p' (h.removes t' p' v (by rw [hu]; rfl))
  have hunlink : (∀ t' p' k, (s.goto t (.pushing p v)).place t' ≠ .unlinking p' w k) ↔
      ∀ t' p' k, s.place t' ≠ .unlinking p' w k :=
    forall_congr' fun t' => forall_congr' fun p' => forall_congr' fun k =>
      not_congr (place_goto_iff nofun (by rw [hp]; nofun))
  unfold Holds
  rw [hunlink]
  constructor
  · rintro ⟨hl | ⟨t',p',hw⟩,hu⟩
    · exact .inl ⟨.inl hl,hu⟩
    · obtain ⟨-,e⟩ | ⟨-,e⟩ := goto_cases s t (.pushing p v) t' <;> rw [e] at hw
      · cases hw
        exact .inr rfl
      · exact .inl ⟨.inr ⟨t',p',hw⟩,hu⟩
  · rintro (⟨hl | ⟨t',p',hw⟩,hu⟩ | rfl)
    · exact ⟨.inl hl,hu⟩
    · have hne : t' ≠ t := by
        rintro rfl
        rw [hp] at hw
        cases hw
      refine ⟨.inr ⟨t',p',?_⟩,hu⟩
      rwa [goto_place,if_neg hne]
    · refine ⟨.inr ⟨t,p,?_⟩,hnone⟩
      rw [goto_place,if_pos rfl]

theorem Inv.assignVM (h : s.Inv) (hp : s.place t = .assigning p v) : (s.assignVM t p v).Inv := by
  have ht : (s.place t).turns = false := by rw [hp]; rfl
  have hmade := h.frame.made t v (by rw [hp]; rfl)
  have hfree : ¬s.Holds v := by
    rintro ⟨⟨p',hv⟩ | ⟨t',p',hv⟩,-⟩
    · exact hmade.2.1 p' hv
    · by_cases hne : t' = t
      · rw [hne,hp] at hv
        cases hv
      · exact hmade.2.2 t' hne (by rw [hv]; rfl)
  unfold VmDaemon.assignVM
  split
  · next nm hnm =>
    have hunused : s.inUse nm = false := by simpa using List.find?_some hnm
    have hframe : (s.takeName v nm).Frame :=
      h.frame.same rfl rfl rfl rfl (fun _ => rfl) (fun _ => rfl) (Nat.le_refl _) h.frame.cleared
    refine ⟨hframe.goto (hframe.fits_adding (show (s.place t).adds = some p by rw [hp]; rfl) (.inr rfl) hmade),?_⟩
    have hH : ∀ w, ((s.takeName v nm).goto t (.pushing p v)).Holds w ↔ s.Holds w ∨ w = v :=
      fun w => holds_pushing hframe hp
    have hself : (Function.update s.vm v { s.vm v with name := nm } v).name = nm := by
      rw [Function.update_self]
    have hother : ∀ w, s.Holds w → (Function.update s.vm v { s.vm v with name := nm } w).name = (s.vm w).name :=
      fun w hw => by rw [Function.update_of_ne fun (e : w = v) => hfree (e ▸ hw)]
    have hapart : ∀ w, s.Holds w → (s.vm w).name ≠ nm := by
      rintro w hw rfl
      rw [h.named.used w hw] at hunused
      cases hunused
    refine ⟨fun w hw => ?_,fun w w' hw hw' he => ?_,fun nm' hnm' => ?_⟩
    · show Function.update s.inUse nm true (Function.update s.vm v { s.vm v with name := nm } w).name = true
      rcases (hH w).mp hw with hs | rfl
      · rw [hother w hs,Function.update_of_ne (hapart w hs)]
        exact h.named.used w hs
      · rw [hself,Function.update_self]
    · change (Function.update s.vm v { s.vm v with name := nm } w).name =
        (Function.update s.vm v { s.vm v with name := nm } w').name at he
      rcases (hH w).mp hw with hs | rfl <;> rcases (hH w').mp hw' with hs' | rfl
      · rw [hother w hs,hother w' hs'] at he
        exact h.named.unique w w' hs hs' he
      · rw [hother w hs,hself] at he
        exact absurd he (hapart w hs)
      · rw [hother w' hs',hself] at he
        exact absurd he.symm (hapart w' hs')
      · rfl
    · change Function.update s.inUse nm true nm' = true at hnm'
      by_cases hne : nm' = nm
      · exact ⟨v,(hH v).mpr (.inr rfl),hself.trans hne.symm⟩
      · rw [Function.update_of_ne hne] at hnm'
        obtain ⟨w,hw,hn⟩ := h.named.owner nm' hnm'
        exact ⟨w,(hH w).mpr (.inl hw),(hother w hw).trans hn⟩
  · have hinv : (s.modifyVm v fun vm => { vm with name := [] }).Inv := by
      refine ⟨h.frame.same rfl rfl rfl rfl (fun _ => rfl) (fun _ => rfl) (Nat.le_refl _) h.frame.cleared,
        h.named.same (fun _ => Iff.rfl) (fun w hw => ?_) rfl⟩
      show (Function.update s.vm v _ w).name = _
      rw [Function.update_of_ne fun (e : w = v) => hfree (e ▸ hw)]
    exact hinv.leaving ht (show (s.place t).session = some p by rw [hp]; rfl)

/-- The VM that has a name is listed. -/
theorem Inv.push (h : s.Inv) (hp : s.place t = .pushing p v) :
    ((s.modifySession p fun x => { x with vms := x.vms ++ [v] }).goto t (.leaving p)).Inv := by
  have hmade := h.frame.made t v (by rw [hp]; rfl)
  have hadds : (s.place t).adds = some p := by rw [hp]; rfl
  have hactive := h.frame.adds t p hadds
  have hfits : s.Fits t (.leaving p) := by
    refine .simple rfl rfl rfl trivial nofun ?_ nofun
    rintro _ ⟨⟩
    exact h.frame.oldActive p hactive
  have hmem : ∀ w, w ∈ (s.session p).vms ++ [v] ↔ w ∈ (s.session p).vms ∨ w = v := fun w => by
    rw [List.mem_append,List.mem_singleton]
  refine ⟨(h.frame.goto hfits).relist (f := fun x => { x with vms := x.vms ++ [v] }) (fun _ => rfl)
    (absurd hactive) (fun w hw => ?_) ?_ (fun p' w hw hw' => ?_) (fun t' w hw hl => ?_) (fun t' w hw => ?_)
    (fun t' he => ?_),h.named.same (fun w => ?_) (fun _ _ => rfl) rfl⟩
  · rcases (hmem w).mp hw with hw | rfl
    · exact h.frame.listed p w hw
    · exact hmade.1
  · refine List.nodup_append.mpr ⟨h.frame.nodup p,List.nodup_singleton v,?_⟩
    rintro w hw _ hv rfl
    exact hmade.2.1 p (List.mem_singleton.mp hv ▸ hw)
  · rcases (hmem w).mp hw with hw | rfl
    · exact h.frame.apart p' p w hw' hw
    · exact absurd hw' (hmade.2.1 p')
  · obtain ⟨-,e⟩ | ⟨hne,e⟩ := goto_cases s t (.leaving p) t' <;> rw [e] at hw
    · cases hw
    · rcases (hmem w).mp hl with hl | rfl
      · exact (h.frame.made t' w hw).2.1 p hl
      · exact hmade.2.2 t' hne hw
  · obtain ⟨-,e⟩ | ⟨hne,e⟩ := goto_cases s t (.leaving p) t' <;> rw [e] at hw
    · cases hw
    · exact (hmem w).mpr (.inl (h.frame.removes t' p w hw))
  · obtain ⟨-,e⟩ | ⟨hne,e⟩ := goto_cases s t (.leaving p) t' <;> rw [e] at he
    · cases he
    · exact absurd hadds ((h.frame.empties t' p he).2.2 t (Ne.symm hne))
  · have hl : (∃ p', w ∈ ((s.modifySession p fun x => { x with vms := x.vms ++ [v] }).session p').vms) ↔
        (∃ p', w ∈ (s.session p').vms) ∨ w = v := by
      constructor
      · rintro ⟨p',hw⟩
        rw [vms_modifySession] at hw
        split at hw
        · rcases (hmem w).mp hw with hw | hw
          · exact .inl ⟨p,hw⟩
          · exact .inr hw
        · exact .inl ⟨p',hw⟩
      · rintro (⟨p',hw⟩ | hw)
        · refine ⟨p',?_⟩
          rw [vms_modifySession]
          split
          · next e => exact (hmem w).mpr (.inl (e ▸ hw))
          · exact hw
        · refine ⟨p,?_⟩
          rw [vms_modifySession,if_pos rfl]
          exact (hmem w).mpr (.inr hw)
    have hpush : (∃ t' p', s.place t' = .pushing p' w) ↔
        (∃ t' p', (s.goto t (.leaving p)).place t' = .pushing p' w) ∨ w = v := by
      constructor
      · rintro ⟨t',p',hw⟩
        obtain ⟨rfl,-⟩ | ⟨-,e⟩ := goto_cases s t (.leaving p) t'
        · rw [hp] at hw
          cases hw
          exact .inr rfl
        · exact .inl ⟨t',p',e.trans hw⟩
      · rintro (⟨t',p',hw⟩ | rfl)
        · obtain ⟨-,e⟩ | ⟨-,e⟩ := goto_cases s t (.leaving p) t' <;> rw [e] at hw
          · cases hw
          · exact ⟨t',p',hw⟩
        · exact ⟨t,p,hp⟩
    have hunlink : (∀ t' p' k, (s.goto t (.leaving p)).place t' ≠ .unlinking p' w k) ↔
        ∀ t' p' k, s.place t' ≠ .unlinking p' w k :=
      forall_congr' fun t' => forall_congr' fun p' => forall_congr' fun k =>
        not_congr (place_goto_iff nofun (by rw [hp]; nofun))
    unfold Holds
    rw [hpush]
    refine and_congr ?_ hunlink
    rw [or_comm (b := w = v),← or_assoc]
    exact or_congr hl Iff.rfl

/-- The name of a VM that is still listed is given back. -/
theorem Inv.release (h : s.Inv) (hp : s.place t = .releasing p v .deleteVM) :
    ((s.releaseVMname (s.vm v).name).goto t (.unlinking p v .deleteVM)).Inv := by
  have hlock : s.sessionLock = some t := h.frame.lock t (by rw [hp]; rfl)
  have hv : v ∈ (s.session p).vms := h.frame.removes t p v (by rw [hp]; rfl)
  have hframe : (s.releaseVMname (s.vm v).name).Frame :=
    h.frame.same rfl rfl rfl rfl (fun _ => rfl) (fun _ => rfl) (Nat.le_refl _) h.frame.cleared
  have hnone : ∀ t' p' w k, s.place t' ≠ .unlinking p' w k := by
    intro t' p' w k hu
    have hl := h.frame.lock t' (VmPlace.locks_of_removes (h.frame.calm t') (x := (p',w)) (by rw [hu]; rfl))
    obtain rfl : t = t' := Option.some.inj (hlock.symm.trans hl)
    rw [hp] at hu
    cases hu
  have hholds : s.Holds v := ⟨.inl ⟨p,hv⟩,fun t' p' k => hnone t' p' v k⟩
  refine ⟨hframe.goto (.simple rfl rfl rfl rfl (fun _ => hlock) ?_ ?_),?_⟩
  · rintro _ ⟨⟩
    exact h.frame.old t p (by rw [hp]; rfl)
  · rintro _ _ ⟨⟩
    exact hv
  have hH : ∀ w, ((s.releaseVMname (s.vm v).name).goto t (.unlinking p v .deleteVM)).Holds w →
      s.Holds w ∧ w ≠ v := by
    rintro w ⟨hw,hu⟩
    refine ⟨⟨hw.imp_right ?_,fun t' p' k => hnone t' p' w k⟩,?_⟩
    · rintro ⟨t',p',hw⟩
      obtain ⟨-,e⟩ | ⟨-,e⟩ :=
        goto_cases (s.releaseVMname (s.vm v).name) t (.unlinking p v .deleteVM) t' <;> rw [e] at hw
      · cases hw
      · exact ⟨t',p',hw⟩
    · rintro rfl
      refine hu t p .deleteVM ?_
      rw [goto_place,if_pos rfl]
  have hback : ∀ w, s.Holds w → w ≠ v →
      ((s.releaseVMname (s.vm v).name).goto t (.unlinking p v .deleteVM)).Holds w := by
    rintro w ⟨hw,hu⟩ hne
    refine ⟨hw.imp_right ?_,fun t' p' k => ?_⟩
    · rintro ⟨t',p',hw⟩
      have ht' : t' ≠ t := by
        rintro rfl
        rw [hp] at hw
        cases hw
      refine ⟨t',p',?_⟩
      rwa [goto_place,if_neg ht']
    · rw [goto_place]
      split
      · rintro ⟨⟩
        exact hne rfl
      · exact hu t' p' k
  refine ⟨fun w hw => ?_,fun w w' hw hw' he => ?_,fun nm hnm => ?_⟩
  · obtain ⟨hs,hne⟩ := hH w hw
    show Function.update s.inUse (s.vm v).name false (s.vm w).name = true
    rw [Function.update_of_ne fun e => hne (h.named.unique w v hs hholds e)]
    exact h.named.used w hs
  · exact h.named.unique w w' (hH w hw).1 (hH w' hw').1 he
  · change Function.update s.inUse (s.vm v).name false nm = true at hnm
    rw [Function.update_apply] at hnm
    split at hnm
    · cases hnm
    · next hne =>
      obtain ⟨w,hw,hn⟩ := h.named.owner nm hnm
      refine ⟨w,hback w hw ?_,hn⟩
      rintro rfl
      exact hne hn.symm

/-- A VM without a name is taken off the list. -/
theorem Inv.unlink (h : s.Inv) (hp : s.place t = .unlinking p v .deleteVM) :
    ((s.modifySession p fun x => { x with vms := x.vms.filter (· ≠ v) }).goto t (.checking p)).Inv := by
  have hlock : s.sessionLock = some t := h.frame.lock t (by rw [hp]; rfl)
  have hv : v ∈ (s.session p).vms := h.frame.removes t p v (by rw [hp]; rfl)
  have hfits : s.Fits t (.checking p) := by
    refine .simple rfl rfl rfl trivial (fun _ => hlock) ?_ nofun
    rintro _ ⟨⟩
    exact h.frame.old t p (by rw [hp]; rfl)
  have hmem : ∀ w, w ∈ (s.session p).vms.filter (· ≠ v) ↔ w ∈ (s.session p).vms ∧ w ≠ v := fun w => by
    rw [List.mem_filter,decide_eq_true_iff]
  have hothers : ∀ t', t' ≠ t → (s.place t').removes = none := by
    intro t' hne
    cases hr : (s.place t').removes with
    | none => rfl
    | some x =>
      have hl := h.frame.lock t' (VmPlace.locks_of_removes (h.frame.calm t') hr)
      exact absurd (Option.some.inj (hl.symm.trans hlock)) hne
  refine ⟨(h.frame.goto hfits).relist (f := fun x => { x with vms := x.vms.filter (· ≠ v) }) (fun _ => rfl)
    (fun hn => ?_) (fun w hw => ?_) ((h.frame.nodup p).filter _) (fun p' w hw hw' => ?_) (fun t' w hw hl => ?_)
    (fun t' w hw => ?_) (fun t' he => ?_),h.named.same (fun w => ?_) (fun _ _ => rfl) rfl⟩
  · exact absurd (h.frame.empty p hn) (List.ne_nil_of_mem hv)
  · exact h.frame.listed p w ((hmem w).mp hw).1
  · exact h.frame.apart p' p w hw' ((hmem w).mp hw).1
  · obtain ⟨-,e⟩ | ⟨-,e⟩ := goto_cases s t (.checking p) t' <;> rw [e] at hw
    · cases hw
    · exact (h.frame.made t' w hw).2.1 p ((hmem w).mp hl).1
  · obtain ⟨-,e⟩ | ⟨hne,e⟩ := goto_cases s t (.checking p) t' <;> rw [e] at hw
    · cases hw
    · rw [hothers t' hne] at hw
      cases hw
  · obtain ⟨-,e⟩ | ⟨-,e⟩ := goto_cases s t (.checking p) t' <;> rw [e] at he
    · cases he
    · exact absurd (h.frame.empties t' p he).2.1 (List.ne_nil_of_mem hv)
  · constructor
    · rintro ⟨hw,hu⟩
      have hs : ((∃ p', w ∈ (s.session p').vms) ∨ ∃ t' p', s.place t' = .pushing p' w) ∧ w ≠ v := by
        rcases hw with ⟨p',hw⟩ | ⟨t',p',hw⟩
        · replace hw : w ∈ ((s.modifySession p fun x => { x with vms := x.vms.filter (· ≠ v) }).session p').vms := hw
          rw [vms_modifySession] at hw
          split at hw
          · obtain ⟨hl,hne⟩ := (hmem w).mp hw
            exact ⟨.inl ⟨p,hl⟩,hne⟩
          · next hne =>
            refine ⟨.inl ⟨p',hw⟩,?_⟩
            rintro rfl
            exact hne (h.frame.apart p' p w hw hv)
        · obtain ⟨-,e⟩ | ⟨-,e⟩ := goto_cases s t (.checking p) t'
          · cases hw.symm.trans e
          · have hw' : s.place t' = .pushing p' w := e.symm.trans hw
            refine ⟨.inr ⟨t',p',hw'⟩,?_⟩
            rintro rfl
            exact (h.frame.made t' w (by rw [hw']; rfl)).2.1 p hv
      refine ⟨hs.1,fun t' p' k hu' => ?_⟩
      obtain ⟨rfl,-⟩ | ⟨-,e⟩ := goto_cases s t (.checking p) t'
      · rw [hp] at hu'
        cases hu'
        exact hs.2 rfl
      · exact hu t' p' k (e.trans hu')
    · rintro ⟨hw,hu⟩
      have hne : w ≠ v := by
        rintro rfl
        exact hu t p .deleteVM hp
      refine ⟨?_,fun t' p' k hu' => ?_⟩
      · rcases hw with ⟨p',hw⟩ | ⟨t',p',hw⟩
        · refine .inl ⟨p',?_⟩
          show w ∈ ((s.modifySession p fun x => { x with vms := x.vms.filter (· ≠ v) }).session p').vms
          rw [vms_modifySession]
          split
          · next e => exact (hmem w).mpr ⟨e ▸ hw,hne⟩
          · exact hw
        · refine .inr ⟨t',p',?_⟩
          have ht' : t' ≠ t := by
            rintro rfl
            rw [hp] at hw
            cases hw
          exact (goto_cases s t (.checking p) t').elim (fun x => absurd x.1 ht') fun x => x.2.trans hw
      · obtain ⟨-,e⟩ | ⟨-,e⟩ := goto_cases s t (.checking p) t'
        · cases hu'.symm.trans e
        · exact hu t' p' k (e.symm.trans hu')

/-- `deleteVM` takes an empty session off the list. -/
theorem Inv.retire (h : s.Inv) (hp : s.place t = .retiring p) :
    Inv (VmDaemon.goto { s.unlock with activeSessions := s.activeSessions.filter (· ≠ p) } t (.leaving p)) := by
  have hlock : s.sessionLock = some t := h.frame.lock t (by rw [hp]; rfl)
  obtain ⟨hn,hvms,hadds⟩ := h.frame.empties t p (by rw [hp]; rfl)
  have hleave : (s.goto t (.leaving p)).Inv := h.leaving (by rw [hp]; rfl) (by rw [hp]; rfl)
  have hplace : ((s.goto t (.leaving p)).place t).locks = false := by rw [goto_place,if_pos rfl]; rfl
  have hunlocked := hleave.unlock hlock hplace
  refine ⟨hunlocked.frame.retire hvms fun t' he => ?_,hunlocked.named.same (fun _ => Iff.rfl) (fun _ _ => rfl) rfl⟩
  obtain ⟨-,e⟩ | ⟨hne,e⟩ := goto_cases s t (.leaving p) t'
  · rw [show ((s.goto t (.leaving p)).unlock.place t') = _ from e] at he
    cases he
  · rw [show ((s.goto t (.leaving p)).unlock.place t') = _ from e] at he
    exact hadds t' hne he

/-- The pointer to a session is dropped. -/
theorem Inv.leave (h : s.Inv) (hp : s.place t = .leaving p) : (s.leave t p).Inv := by
  have ht : (s.place t).turns = false := by rw [hp]; rfl
  unfold VmDaemon.leave
  split
  · exact h.idle ht rfl rfl rfl rfl rfl trivial rfl nofun
  · next hno =>
    have hnot : p ∉ s.activeSessions := fun hm => hno (.inl hm)
    have hvms := h.frame.empty p hnot
    have hold : p < s.next := h.frame.old t p (by rw [hp]; rfl)
    rw [hvms]
    refine h.goto rfl ht
      { lock := nofun, old := nofun, adds := nofun, made := nofun, removes := nofun, calm := ⟨rfl,rfl⟩
        empties := ?_, gone := ?_ }
    · rintro _ ⟨⟩
      exact ⟨hold,hvms,fun t' _ he => hnot (h.frame.adds t' p he)⟩
    · rintro _ _ ⟨⟩ _
      exact hnot

/-- The loop of `clear` has nothing to do. -/
theorem Inv.clearRound {k : Clear} (h : s.Inv) (hp : s.place t = .clearing p k) : (s.clearRound t p k).Inv := by
  have ht : (s.place t).turns = false := by rw [hp]; rfl
  have hempties : (s.place t).empties = some p := by rw [hp]; rfl
  obtain ⟨hold,hvms,hadds⟩ := h.frame.empties t p hempties
  obtain ⟨hall,hran⟩ : k.all = [] ∧ k.ran = [] := by
    have := h.frame.calm t
    rwa [hp] at this
  unfold VmDaemon.clearRound
  rw [hvms,hall,hran]
  have hinv : Inv { s with cleared := s.cleared ++ [([],[])] } := by
    refine ⟨h.frame.same rfl rfl rfl rfl (fun _ => rfl) (fun _ => rfl) (Nat.le_refl _) fun x hx => ?_,
      h.named.same (fun _ => Iff.rfl) (fun _ _ => rfl) rfl⟩
    rcases List.mem_append.mp hx with hx | hx
    · exact h.frame.cleared x hx
    · exact List.mem_singleton.mp hx
  cases hk : k.destructor with
  | true => exact hinv.idle ht rfl rfl rfl rfl rfl trivial rfl nofun
  | false =>
    have hlock : s.sessionLock = some t := by
      refine h.frame.lock t ?_
      rw [hp]
      exact (congrArg not hk).trans rfl
    refine hinv.goto rfl ht
      { lock := fun _ => hlock, old := ?_, adds := nofun, made := nofun, removes := nofun, calm := trivial
        empties := ?_, gone := nofun }
    · rintro _ ⟨⟩
      exact hold
    · rintro _ ⟨⟩
      exact ⟨hold,hvms,hadds⟩

/-- `deleteVM` goes on to remove a VM of the session. -/
theorem Inv.removing (h : s.Inv) (hlock : s.sessionLock = some t) (hp : (s.place t).session = some p)
    (ht : (s.place t).turns = false) (hv : v ∈ (s.session p).vms)
    (hq : (∃ i, q = .removing p v i .deleteVM) ∨ q = .undefining p v .deleteVM) : (s.goto t q).Inv := by
  have hold := h.frame.old t p hp
  rcases hq with ⟨i,rfl⟩ | rfl
  all_goals
    refine h.goto rfl ht (.simple rfl rfl rfl rfl (fun _ => hlock) ?_ ?_)
    · rintro _ ⟨⟩
      exact hold
    · rintro _ _ ⟨⟩
      exact hv

/-- `deleteVM` looks whether a VM is left. -/
theorem Inv.checking (h : s.Inv) (hlock : s.sessionLock = some t) (hp : (s.place t).session = some p)
    (ht : (s.place t).turns = false) : (s.goto t (.checking p)).Inv := by
  refine h.goto rfl ht (.simple rfl rfl rfl trivial (fun _ => hlock) ?_ nofun)
  rintro _ ⟨⟩
  exact h.frame.old t p hp

/-- `deleteVM` returns. -/
theorem Inv.unlockLeaving (h : s.Inv) (hlock : s.sessionLock = some t) (hp : (s.place t).session = some p)
    (ht : (s.place t).turns = false) : (s.unlock.goto t (.leaving p)).Inv := by
  refine (h.leaving ht hp).unlock hlock ?_
  rw [goto_place,if_pos rfl]
  rfl

theorem Inv.advance {ok : Bool} (h : s.Inv) (hu : s.advance t ok (s.place t) = some u)
    (hc : s.Careful (.go t ok) u) : u.Inv := by
  unfold Careful at hc
  have hcalm := h.frame.calm t
  have hlock := h.frame.lock t
  have hremoves := h.frame.removes t
  cases hp : s.place t with
  | idle | undefined =>
    rw [hp] at hu
    cases hu
  | arrived r =>
    simp only [hp,VmDaemon.advance] at hu
    split at hu
    · cases hu
      exact h.idle (by rw [hp]; rfl) rfl rfl rfl rfl rfl trivial rfl nofun
    · split at hu
      · next hfree =>
        cases hu
        exact h.lookup hp hfree
      · cases hu
  | creating c e =>
    simp only [hp,VmDaemon.advance] at hu hc
    split at hu
    · cases hu
      exact h.createSession hp hc
    · cases hu
  | adding p c =>
    rw [hp] at hu
    cases hu
    exact h.addVM hp
  | assigning p v =>
    rw [hp] at hu
    cases hu
    exact h.assignVM hp
  | pushing p v =>
    rw [hp] at hu
    cases hu
    exact h.push hp
  | configuring p c ninfo =>
    simp only [hp,VmDaemon.advance] at hu
    split at hu <;> cases hu
    · refine h.idle (by rw [hp]; rfl) rfl rfl rfl rfl rfl trivial rfl ?_
      rintro _ ⟨⟩
      exact h.frame.old t p (by rw [hp]; rfl)
    · exact h.leaving (by rw [hp]; rfl) (by rw [hp]; rfl)
  | plugging p v ninfo =>
    simp only [hp,VmDaemon.advance,Option.some.injEq] at hu
    subst hu
    unfold configureVM
    split
    · exact h.leaving (by rw [hp]; rfl) (by rw [hp]; rfl)
    · have hinv := h.modifyInterfaces v ((s.vm v).interfaces ++ [⟨s.next,ninfo⟩]) (Nat.le_succ s.next)
      exact hinv.leaving (show (s.place t).turns = false by rw [hp]; rfl)
        (show (s.place t).session = some p by rw [hp]; rfl)
  | ending p c =>
    simp only [hp,VmDaemon.advance] at hu
    split at hu <;> cases hu
    · refine h.idle (by rw [hp]; rfl) rfl rfl rfl rfl rfl trivial rfl ?_
      rintro _ ⟨⟩
      exact h.frame.old t p (by rw [hp]; rfl)
    · exact h.idle (by rw [hp]; rfl) rfl rfl rfl rfl rfl trivial rfl nofun
  | starting p v i =>
    simp only [hp,VmDaemon.advance] at hu
    split at hu <;> cases hu
    · refine (h.modifyVlans p _).idle (show (s.place t).turns = false by rw [hp]; rfl) rfl rfl rfl rfl rfl trivial
        rfl ?_
      rintro _ ⟨⟩
      exact h.frame.old t p (by rw [hp]; rfl)
    · exact h.leaving (by rw [hp]; rfl) (by rw [hp]; rfl)
  | locking p c =>
    simp only [hp,VmDaemon.advance] at hu
    split at hu
    · next hfree =>
      cases hu
      refine (h.takeLock hfree).goto rfl (show (s.place t).turns = false by rw [hp]; rfl)
        (.simple rfl rfl rfl trivial (fun _ => rfl) ?_ nofun)
      rintro _ ⟨⟩
      exact h.frame.old t p (by rw [hp]; rfl)
    · cases hu
  | deleting p c =>
    rw [hp] at hlock
    simp only [hp,VmDaemon.advance] at hu
    split at hu <;> cases hu
    · next v hv =>
      exact h.removing (hlock rfl) (by rw [hp]; rfl) (by rw [hp]; rfl) (mem_of_getVM hv) (.inl ⟨0,rfl⟩)
    · exact h.checking (hlock rfl) (by rw [hp]; rfl) (by rw [hp]; rfl)
  | removing p v i k =>
    rw [hp] at hcalm hlock hremoves
    obtain rfl : k = .deleteVM := hcalm
    simp only [hp,VmDaemon.advance] at hu
    have hv : v ∈ (s.session p).vms := hremoves p v rfl
    split at hu <;> cases hu
    · refine (h.modifyVlans p _).removing (hlock rfl) (show (s.place t).session = some p by rw [hp]; rfl)
        (show (s.place t).turns = false by rw [hp]; rfl) ?_ (.inl ⟨i + 1,rfl⟩)
      rw [vms_modifySession,if_pos rfl]
      exact hv
    · exact h.removing (hlock rfl) (by rw [hp]; rfl) (by rw [hp]; rfl) hv (.inr rfl)
  | undefining p v k =>
    rw [hp] at hcalm hlock hremoves
    obtain rfl : k = .deleteVM := hcalm
    simp only [hp,VmDaemon.advance] at hu
    split at hu <;> cases hu
    · refine h.goto rfl (by rw [hp]; rfl) (.simple rfl rfl rfl rfl (fun _ => hlock rfl) ?_ ?_)
      · rintro _ ⟨⟩
        exact h.frame.old t p (by rw [hp]; rfl)
      · rintro _ _ ⟨⟩
        exact hremoves p v rfl
    · exact h.unlockLeaving (hlock rfl) (by rw [hp]; rfl) (by rw [hp]; rfl)
  | releasing p v k =>
    rw [hp] at hcalm
    obtain rfl : k = .deleteVM := hcalm
    rw [hp] at hu
    cases hu
    exact h.release hp
  | unlinking p v k =>
    rw [hp] at hcalm
    obtain rfl : k = .deleteVM := hcalm
    rw [hp] at hu
    cases hu
    exact h.unlink hp
  | checking p =>
    rw [hp] at hlock
    simp only [hp,VmDaemon.advance] at hu hc
    split at hu
    · next hvms =>
      cases hu
      rw [hvms]
      have hold := h.frame.old t p (by rw [hp]; rfl)
      refine h.goto rfl (by rw [hp]; rfl)
        { lock := fun _ => hlock rfl, adds := nofun, made := nofun, removes := nofun, calm := ⟨rfl,rfl⟩
          old := ?_, empties := ?_, gone := ?_ }
      · rintro _ ⟨⟩
        exact hold
      · rintro _ ⟨⟩
        exact ⟨hold,hvms,fun t' _ => hc hvms t'⟩
      · rintro _ _ ⟨⟩ hk
        cases hk
    · cases hu
      exact h.unlockLeaving (hlock rfl) (by rw [hp]; rfl) (by rw [hp]; rfl)
  | clearing p k =>
    rw [hp] at hu
    cases hu
    exact h.clearRound hp
  | popping p k =>
    rw [hp] at hcalm
    exact hcalm.elim
  | retiring p =>
    rw [hp] at hu
    cases hu
    exact h.retire hp
  | leaving p =>
    rw [hp] at hu
    cases hu
    exact h.leave hp

theorem Inv.step {a : VmAct T} (h : s.Inv) (hu : s.step a = some u) (hc : s.Careful a u) : u.Inv := by
  cases a with
  | arrive t r =>
    simp only [VmDaemon.step] at hu
    split at hu
    · next hp =>
      cases hu
      exact h.idle (by rw [hp]; rfl) rfl rfl rfl rfl rfl trivial rfl nofun
    · cases hu
  | go t ok => exact h.advance hu hc

end VmDaemon
end OnlDaemons.Vmbase

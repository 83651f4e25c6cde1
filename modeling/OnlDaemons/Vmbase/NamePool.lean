import OnlDaemons.Lib.Run
import OnlDaemons.Vmbase.NameInvariant
import OnlDaemons.VpnBase.DeviceSession

/-!
# VM names and VM sessions

## Main definitions

- `VmDaemon.Kept`, `VmDaemon.ClearsOnce` — what the sessions, the names and the finished clears should be like

## Main result

- `VmDaemon.sessions_kept` — the runs in which they are
-/

namespace OnlDaemons.Vmbase
open OnlDaemons.Lib OnlDaemons.Shared

namespace VmDaemon

variable {T : Type}

/-- The VMs of the active sessions. -/
def vms (s : VmDaemon T) : List ℕ := s.activeSessions.flatMap fun p => (s.session p).vms

/-- At most one active session for an experiment, and one VM of one of them for each name that is in use and none for
the others. -/
structure Kept (s : VmDaemon T) : Prop where
  sessions : (s.activeSessions.map fun p => expKey (s.session p).expInfo).Nodup
  names : ∀ nm, (s.vms.filter fun v => (s.vm v).name = nm).length = if s.inUse nm then 1 else 0

/-- Every `clear` that has returned has called `removeVM` once for each VM. -/
def ClearsOnce (s : VmDaemon T) : Prop := ∀ x ∈ s.cleared, x.2.Perm x.1

variable {s : VmDaemon T}

theorem Frame.nodup_vms (h : s.Frame) : s.vms.Nodup := by
  refine List.nodup_flatMap.mpr ⟨fun p _ => h.nodup p,?_⟩
  have hactive : s.activeSessions.Nodup := h.distinct.of_map _
  refine hactive.imp_of_mem fun {p p'} _ _ hne v hv hv' => hne ?_
  exact h.apart p p' v hv hv'

theorem Inv.kept (h : s.Inv) (hq : s.Quiet) : s.Kept := by
  have hholds : ∀ v, s.Holds v ↔ v ∈ s.vms := by
    intro v
    unfold Holds vms
    rw [List.mem_flatMap]
    constructor
    · rintro ⟨⟨p,hv⟩ | ⟨t,p,hv⟩,-⟩
      · by_cases hp : p ∈ s.activeSessions
        · exact ⟨p,hp,hv⟩
        · rw [h.frame.empty p hp] at hv
          cases hv
      · rw [hq t] at hv
        cases hv
    · rintro ⟨p,-,hv⟩
      refine ⟨.inl ⟨p,hv⟩,fun t p' k hu => ?_⟩
      rw [hq t] at hu
      cases hu
  refine ⟨h.frame.distinct,fun nm => ?_⟩
  split
  · next hnm =>
    obtain ⟨v,hv,hn⟩ := h.named.owner nm hnm
    have hperm : (s.vms.filter fun w => (s.vm w).name = nm).Perm [v] := by
      refine (List.perm_ext_iff_of_nodup (h.frame.nodup_vms.filter _) (List.nodup_singleton v)).mpr fun w => ?_
      rw [List.mem_filter,decide_eq_true_iff,List.mem_singleton]
      constructor
      · rintro ⟨hw,hn'⟩
        exact h.named.unique w v ((hholds w).mpr hw) hv (hn'.trans hn.symm)
      · rintro rfl
        exact ⟨(hholds w).mp hv,hn⟩
    exact hperm.length_eq
  · next hnm =>
    refine List.length_eq_zero_iff.mpr (List.filter_eq_nil_iff.mpr fun v hv he => hnm ?_)
    have hn := of_decide_eq_true he
    exact hn ▸ h.named.used v ((hholds v).mpr hv)

theorem Frame.clearsOnce (h : s.Frame) : s.ClearsOnce := by
  intro x hx
  rw [h.cleared x hx]

variable [DecidableEq T]

/-- The sessions, the names and the clears, in runs in which a session is made only for an experiment that has none and
no request adds a VM to a session that is found empty. A clear of onlvpn_base removes each device once only if no
removal succeeds. -/
theorem sessions_kept (id : List Char) (tr : List (VmAct T × VmDaemon T))
    (hr : IsRun (fun s a u => s.step a = some u) (init id) tr) (hc : EveryStep Careful (init id) tr) :
    EveryState (fun s => (s.Quiet → s.Kept) ∧ s.ClearsOnce) (init id) tr ∧
    ∀ (tornDown : VpnBase.Dev → Bool) (x : VpnBase.DevSession),
      (∃ u ran, x.clear tornDown = some (u,ran) ∧ ran.Perm x.devs) ↔
        ∀ devp ∈ x.devs, (x.removeDev tornDown devp).2 = false := by
  refine ⟨?_,VpnBase.DevSession.clear_perm_iff⟩
  refine (hr.everyState (P := Inv) (fun s a u h hu hcare => h.step hu hcare) (inv_init id) hc).mono fun s h => ?_
  exact ⟨h.kept,h.frame.clearsOnce⟩

/-- A component of an experiment without a name. -/
def someComp (id : UInt32) : Component := ⟨.empty,id,0,.empty,.empty,false⟩

def someExp : ExperimentInfo := ⟨.empty,.empty,.empty⟩

/-- A start request that is handled alone. -/
def oneStart : List (VmAct Unit × VmDaemon Unit) :=
  runOf step (init ['0','1'])
    (.arrive () (.startExperiment (someComp 1) someExp) :: List.replicate 6 (.go () true))

theorem sessions_kept_oneStart :
    IsRun (fun s a u => s.step a = some u) (init ['0','1']) oneStart ∧
    EveryState (fun s => (s.Quiet → s.Kept) ∧ s.ClearsOnce) (init ['0','1']) oneStart :=
  have hr := isRun_runOf step (init ['0','1'])
    (.arrive () (.startExperiment (someComp 1) someExp) :: List.replicate 6 (.go () true))
  ⟨hr,(sessions_kept ['0','1'] oneStart hr
    ⟨trivial,trivial,rfl,trivial,trivial,trivial,trivial,trivial⟩).1⟩

/-- Two requests start the same experiment, and both find that it has no session. -/
def twoStarts : List (VmAct Bool × VmDaemon Bool) :=
  runOf step (init ['0','1'])
    [.arrive false (.startExperiment (someComp 1) someExp),.arrive true (.startExperiment (someComp 2) someExp),
      .go false true,.go true true,.go false true,.go true true,.go false true,.go true true,.go false true,
      .go true true,.go false true,.go true true,.go false true,.go true true]

theorem twoStarts_not_kept :
    ¬∀ tr : List (VmAct Bool × VmDaemon Bool), IsRun (fun s a u => s.step a = some u) (init ['0','1']) tr →
      EveryState (fun s => s.Quiet → s.Kept) (init ['0','1']) tr := by
  intro h
  have hlast := (h twoStarts (isRun_runOf step _ _)).last
  have hq : (lastState (init ['0','1']) twoStarts).Quiet := by
    unfold Quiet
    decide
  have hno : ¬((lastState (init ['0','1']) twoStarts).activeSessions.map fun p =>
      expKey ((lastState (init ['0','1']) twoStarts).session p).expInfo).Nodup := by decide
  exact hno (hlast hq).sessions

end VmDaemon
end OnlDaemons.Vmbase

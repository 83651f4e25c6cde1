import OnlDaemons.Lib.Drain
import OnlDaemons.Vmbase.SessionManager

/-!
# The sessions of onlvpn_base

A session lists devices as one of vmbase lists VMs. No name belongs to a device, and the removal of a device fails only
if the device has no interface and cannot be torn down.

## Main result

- `clear_perm_iff` — when `clear` removes each device once
-/

namespace OnlDaemons.VpnBase
open OnlDaemons.Lib OnlDaemons.Vmbase

/-- `dev_info`, with the address of the object. -/
structure Dev where
  address : ℕ
  interfaces : List VmInterface
deriving DecidableEq, Repr

structure DevSession where
  devs : List Dev
  vlans : List Vlan
deriving DecidableEq, Repr

namespace DevSession

/-- `tornDown`: the script `wg_tear_down.sh` succeeds for the device. What the other scripts return is not looked
at. -/
def removeDev (tornDown : Dev → Bool) (s : DevSession) (devp : Dev) : DevSession × Bool :=
  let s := { s with vlans := devp.interfaces.foldl (fun vlans itf => unplug itf vlans) s.vlans }
  if devp.interfaces = [] ∧ !tornDown devp then (s,false)
  else ({ s with devs := s.devs.filter (· ≠ devp) },true)

/-- Whether the removal succeeds does not depend on the session. -/
def removes (tornDown : Dev → Bool) (devp : Dev) : Bool := !decide (devp.interfaces = [] ∧ !tornDown devp)

theorem devs_removeDev (tornDown : Dev → Bool) (s : DevSession) (devp : Dev) :
    (s.removeDev tornDown devp).1.devs = worked (removes tornDown) devp s.devs := by
  unfold removeDev worked removes
  split
  · next h => rw [decide_eq_true h]; rfl
  · next h => rw [decide_eq_false h]; rfl

theorem removeDev_snd (tornDown : Dev → Bool) (s : DevSession) (devp : Dev) :
    (s.removeDev tornDown devp).2 = removes tornDown devp := by
  unfold removeDev removes
  split
  · next h => rw [decide_eq_true h]; rfl
  · next h => rw [decide_eq_false h]; rfl

/-- `session::clear`, with the devices that `removeDev` has been called for. There is no result after `pop_front` of
an empty list. -/
def clear (tornDown : Dev → Bool) (s : DevSession) : Option (DevSession × List Dev) :=
  match _hs : s.devs with
  | [] => some (s,[])
  | devp :: _ =>
    match _h : (s.removeDev tornDown devp).1.devs with
    | [] => none
    | _ :: left =>
      (clear tornDown { (s.removeDev tornDown devp).1 with devs := left }).map fun x => (x.1,devp :: x.2)
termination_by s.devs.length
decreasing_by
  have hle := length_worked (removes tornDown) devp s.devs
  rw [← devs_removeDev,_h] at hle
  exact hle

theorem clear_eq_drain (tornDown : Dev → Bool) (s : DevSession) :
    (s.clear tornDown).map (·.2) = drain (removes tornDown) s.devs := by
  fun_induction clear tornDown s with
  | case1 s hs => rw [hs,drain]; rfl
  | case2 s devp l hs h =>
    rw [devs_removeDev,hs] at h
    rw [hs,drain]
    split
    · rfl
    · next h' => cases h.symm.trans h'
  | case3 s devp l hs b left h ih =>
    rw [devs_removeDev,hs] at h
    rw [hs,drain]
    split
    · next h' => cases h.symm.trans h'
    · next h' =>
      cases h.symm.trans h'
      rw [← ih,Option.map_map,Option.map_map]
      rfl

/-- Each device is removed once iff no removal succeeds. -/
theorem clear_perm_iff (tornDown : Dev → Bool) (s : DevSession) :
    (∃ u ran, s.clear tornDown = some (u,ran) ∧ ran.Perm s.devs) ↔
      ∀ devp ∈ s.devs, (s.removeDev tornDown devp).2 = false := by
  simp only [removeDev_snd]
  rw [← drain_perm_iff,← clear_eq_drain]
  constructor
  · rintro ⟨u,ran,h,hperm⟩
    exact ⟨ran,by rw [h]; rfl,hperm⟩
  · rintro ⟨ran,h,hperm⟩
    obtain ⟨⟨u,ran'⟩,hc,rfl⟩ := Option.map_eq_some_iff.mp h
    exact ⟨u,ran',hc,hperm⟩

end DevSession
end OnlDaemons.VpnBase

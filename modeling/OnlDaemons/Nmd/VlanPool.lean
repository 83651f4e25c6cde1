import OnlDaemons.Nmd.VlanSet
import Mathlib.Data.List.Nodup
import Mathlib.Tactic.Common

/-!
# The VLAN pool

Every VLAN of the pool is either free or in the hands of exactly one session. A session that
is being cleared has a VLAN in its lists until the clear has given it back.

## Main results

- `PoolOk` — every VLAN is free or held by exactly one session
- `Clean` — what a step must meet to keep it
- `poolOk_iff_clean` — `PoolOk` holds throughout a run exactly when every step is clean
-/

namespace OnlDaemons.Nmd
open OnlDaemons.Lib

variable {s s' t : VlanSet} {op : Op} {r v w : ℕ}

/-- The VLAN is in one of the session's lists and no clear has given it back. Sessions off the
list count as long as their clear is under way. -/
def Holds (s : VlanSet) (r v : ℕ) : Prop :=
  (r ∈ s.sessions ∨ r ∈ s.clearing) ∧
    (v ∈ (s.object r).activeVlans ∨ v ∈ (s.object r).removedVlans) ∧ v ∉ (s.object r).returned

/-- On the free list exactly once, not in use, and in no session's lists. -/
def Free (s : VlanSet) (v : ℕ) : Prop :=
  s.freeVlans.count v = 1 ∧ (s.vlans v).inUse = false ∧ ∀ r, ¬ Holds s r v

/-- Off the free list, in use, and in the lists of exactly one session. -/
def Taken (s : VlanSet) (v : ℕ) : Prop :=
  s.freeVlans.count v = 0 ∧ (s.vlans v).inUse = true ∧ ∃! r, Holds s r v

def PoolOk (s : VlanSet) : Prop := ∀ v, s.InPool v → Free s v ∨ Taken s v

/-- The steps that keep the pool in order: `initialize_vlans` while no VLAN is in use;
`clear_if_empty` when no VLAN the clear has given back is in use again without a port, and,
for a session already off the list, when it gives back whatever the session still has; and
`remove_session` of a session that has nothing left or is still being cleared. -/
def Clean (s : VlanSet) : Op → Prop
  | .initializeVlans => ∀ v, s.InPool v → v ∈ s.freeVlans
  | .clearIfEmpty r =>
    (∀ v ∈ (s.object r).removedVlans, (s.vlans v).inUse = true → (s.vlans v).ports = [] →
      v ∉ (s.object r).returned) ∧
    (r ∉ s.sessions → ∀ v, Holds s r v →
      v ∈ (s.object r).removedVlans ∧ (s.vlans v).ports = [])
  | .removeSession r => r ∈ s.sessions → r ∉ s.clearing → ∀ v, ¬ Holds s r v
  | _ => True

/-- What holds of the lists in every state in order. -/
structure Wf (s : VlanSet) : Prop where
  freeInPool : ∀ v ∈ s.freeVlans, s.InPool v
  inPool : ∀ r v, v ∈ (s.object r).activeVlans ∨ v ∈ (s.object r).removedVlans → s.InPool v
  made : ∀ r, r ∈ s.sessions ∨ r ∈ s.clearing → r < s.made
  clearing : ∀ r ∈ s.clearing, (s.object r).cleared = true
  returned : ∀ r, (s.object r).cleared = false → (s.object r).returned = []
  unlisted : ∀ r < s.made, (s.object r).cleared = false → r ∉ s.sessions → ∀ v,
    ¬ (v ∈ (s.object r).activeVlans ∨ v ∈ (s.object r).removedVlans)

/-- A VLAN whose count, use and holders are the same is as it was. -/
theorem ok_congr (hc : s'.freeVlans.count v = s.freeVlans.count v)
    (hu : (s'.vlans v).inUse = (s.vlans v).inUse) (hh : ∀ r, Holds s' r v ↔ Holds s r v)
    (h : Free s v ∨ Taken s v) : Free s' v ∨ Taken s' v := by
  simp only [Free,Taken,hc,hu,hh]
  exact h

theorem PoolOk.taken (hp : PoolOk s) (hv : s.InPool v) (hu : (s.vlans v).inUse = true) :
    Taken s v := by
  rcases hp v hv with h | h
  · rw [h.2.1] at hu
    cases hu
  · exact h

theorem PoolOk.taken_of_holds (hp : PoolOk s) (hv : s.InPool v) (hh : Holds s r v) :
    Taken s v := by
  rcases hp v hv with h | h
  · exact absurd hh (h.2.2 r)
  · exact h

theorem PoolOk.free_of_mem (hp : PoolOk s) (hv : s.InPool v) (hm : v ∈ s.freeVlans) :
    Free s v := by
  rcases hp v hv with h | h
  · exact h
  · exact absurd hm (List.count_eq_zero.mp h.1)

theorem Taken.unique (h : Taken s v) {r' : ℕ} (hr : Holds s r v) (hr' : Holds s r' v) :
    r = r' := h.2.2.unique hr hr'

theorem count_freeVlan_self (h : s.freeVlans.count v = 0) :
    (s.freeVlan v).freeVlans.count v = 1 := by
  rw [VlanSet.freeVlan,if_neg (List.count_eq_zero.mp h)]
  simp only [List.count_append,h,List.count_singleton_self]

theorem count_freeVlan_ne (h : w ≠ v) :
    (s.freeVlan v).freeVlans.count w = s.freeVlans.count w := by
  unfold VlanSet.freeVlan
  split
  · rfl
  · simp only [List.count_append,List.count_singleton,beq_iff_eq]
    rw [if_neg h.symm,Nat.add_zero]

theorem mem_freeVlan : w ∈ (s.freeVlan v).freeVlans ↔ w = v ∨ w ∈ s.freeVlans := by
  unfold VlanSet.freeVlan
  split
  · next h => exact ⟨.inr,fun hw => hw.elim (fun he => he ▸ h) id⟩
  · simp only [List.mem_append,List.mem_singleton]
    tauto

/-- Nothing but the VLANs and the free list has changed. -/
def OnlyVlans (s t : VlanSet) : Prop :=
  t = { s with vlans := t.vlans, freeVlans := t.freeVlans }

theorem OnlyVlans.trans {u : VlanSet} (h : OnlyVlans s t) (h' : OnlyVlans t u) :
    OnlyVlans s u := by
  rw [OnlyVlans,h',h]

theorem onlyVlans_freeVlan (s : VlanSet) (v : ℕ) : OnlyVlans s (s.freeVlan v) := by
  unfold VlanSet.freeVlan
  split
  · rfl
  · rfl

theorem onlyVlans_setVlan (s : VlanSet) (v : ℕ) (x : Vlan) : OnlyVlans s (s.setVlan v x) := rfl

@[simp] theorem vlans_freeVlan (s : VlanSet) (v : ℕ) : (s.freeVlan v).vlans = s.vlans := by
  unfold VlanSet.freeVlan
  split
  · rfl
  · rfl

/-- What giving back some of the VLANs of a list may do: VLANs outside the list stay, and those
of the list that were in use stay in use or become free. -/
structure Gives (s t : VlanSet) (l : List ℕ) : Prop where
  only : OnlyVlans s t
  mem : ∀ v ∈ t.freeVlans, v ∈ s.freeVlans ∨ v ∈ l
  other : ∀ v ∉ l, t.vlans v = s.vlans v ∧ t.freeVlans.count v = s.freeVlans.count v
  given : ∀ v ∈ l, (s.vlans v).inUse = true → s.freeVlans.count v = 0 →
    ((t.vlans v).inUse = true ∧ t.freeVlans.count v = 0) ∨
    ((t.vlans v).inUse = false ∧ (t.vlans v).ports = [] ∧ t.freeVlans.count v = 1)

theorem gives_refl (s : VlanSet) (l : List ℕ) : Gives s s l where
  only := rfl
  mem _ h := .inl h
  other _ _ := ⟨rfl,rfl⟩
  given _ _ hu hc := .inl ⟨hu,hc⟩

theorem Gives.getClearVlanCmd {l : List ℕ} (h : Gives s t l) (sw : String) (hv : v ∈ l) :
    Gives s (t.getClearVlanCmd sw v) l := by
  unfold VlanSet.getClearVlanCmd
  by_cases hports : (t.vlans v).ports.filter (fun p => p.switchId == sw) = []
  · simp only [hports,if_true]
    exact h
  · simp only [hports,if_false]
    -- a VLAN that still has ports is one that has not become free
    have hne : (t.vlans v).ports ≠ [] := by
      intro he
      rw [he] at hports
      exact hports rfl
    split
    · constructor
      · exact h.only.trans ((onlyVlans_setVlan t v _).trans (onlyVlans_freeVlan _ v))
      · intro w hw
        rcases mem_freeVlan.mp hw with rfl | hw
        · exact .inr hv
        · exact h.mem w hw
      · intro w hw
        have hwv : w ≠ v := fun he => hw (he ▸ hv)
        rw [count_freeVlan_ne hwv,vlans_freeVlan]
        simp only [VlanSet.setVlan,Function.update_of_ne hwv]
        exact h.other w hw
      · intro w hw hu hc
        by_cases hwv : w = v
        · subst w
          rcases h.given v hv hu hc with ⟨_,hc'⟩ | ⟨_,hp,_⟩
          · refine .inr ⟨?_,?_,count_freeVlan_self hc'⟩
            · simp [VlanSet.setVlan]
            · simp [VlanSet.setVlan]
          · exact absurd hp hne
        · rw [count_freeVlan_ne hwv,vlans_freeVlan]
          simp only [VlanSet.setVlan,Function.update_of_ne hwv]
          exact h.given w hw hu hc
    · constructor
      · exact h.only.trans (onlyVlans_setVlan t v _)
      · exact h.mem
      · intro w hw
        have hwv : w ≠ v := fun he => hw (he ▸ hv)
        simp only [VlanSet.setVlan,Function.update_of_ne hwv]
        exact h.other w hw
      · intro w hw hu hc
        by_cases hwv : w = v
        · subst w
          rcases h.given v hv hu hc with ⟨hu',hc'⟩ | ⟨_,hp,_⟩
          · refine .inl ⟨?_,hc'⟩
            simpa [VlanSet.setVlan] using hu'
          · exact absurd hp hne
        · simp only [VlanSet.setVlan,Function.update_of_ne hwv]
          exact h.given w hw hu hc

theorem gives_clearSwitches (s : VlanSet) (switches : List String) (l : List ℕ) :
    Gives s (s.clearSwitches switches l) l := by
  unfold VlanSet.clearSwitches
  refine List.foldlRecOn (motive := fun t => Gives s t l) switches _ (gives_refl s l) ?_
  intro t ht sw _
  refine List.foldlRecOn (motive := fun t => Gives s t l) l _ ht ?_
  exact fun u hu v hv => hu.getClearVlanCmd sw hv

/-- `clear_if_empty` over a list frees exactly the VLANs of the list that are in use without
a port. -/
structure Empties (s t : VlanSet) (l : List ℕ) : Prop where
  only : OnlyVlans s t
  mem : ∀ v, v ∈ t.freeVlans ↔ v ∈ s.freeVlans ∨
    (v ∈ l ∧ (s.vlans v).inUse = true ∧ (s.vlans v).ports = [])
  freed : ∀ v ∈ l, (s.vlans v).inUse = true → (s.vlans v).ports = [] →
    (t.vlans v).inUse = false ∧ (s.freeVlans.count v = 0 → t.freeVlans.count v = 1)
  other : ∀ v, ¬ (v ∈ l ∧ (s.vlans v).inUse = true ∧ (s.vlans v).ports = []) →
    t.vlans v = s.vlans v ∧ t.freeVlans.count v = s.freeVlans.count v

theorem empties_clearIfEmpty (s : VlanSet) (l : List ℕ) :
    Empties s (l.foldl VlanSet.clearIfEmptyVlan s) l := by
  induction l generalizing s with
  | nil => exact ⟨rfl,by simp,by simp,fun _ _ => ⟨rfl,rfl⟩⟩
  | cons x l ih =>
    have hi := ih (s.clearIfEmptyVlan x)
    rw [List.foldl_cons]
    by_cases hx : (s.vlans x).inUse = true ∧ (s.vlans x).ports = []
    · have he : s.clearIfEmptyVlan x =
          (s.setVlan x { s.vlans x with inUse := false, sessionID := "" }).freeVlan x := by
        simp only [VlanSet.clearIfEmptyVlan,hx,and_self,if_true]
      have hself : ((s.clearIfEmptyVlan x).vlans x).inUse = false := by
        simp [he,VlanSet.setVlan]
      have hvl : ∀ v ≠ x, (s.clearIfEmptyVlan x).vlans v = s.vlans v := by
        intro v hv
        simp [he,VlanSet.setVlan,Function.update_of_ne hv]
      have hcount : ∀ v ≠ x, (s.clearIfEmptyVlan x).freeVlans.count v = s.freeVlans.count v := by
        intro v hv
        rw [he,count_freeVlan_ne hv]
        rfl
      have hmem : ∀ v, v ∈ (s.clearIfEmptyVlan x).freeVlans ↔ v = x ∨ v ∈ s.freeVlans := by
        intro v
        rw [he,mem_freeVlan]
        rfl
      -- once freed, `x` is left alone by the rest of the loop
      have hrest := hi.other x (by rw [hself]; simp)
      constructor
      · refine OnlyVlans.trans ?_ hi.only
        rw [he]
        exact (onlyVlans_setVlan s x _).trans (onlyVlans_freeVlan _ x)
      · intro v
        rw [hi.mem,hmem]
        by_cases hv : v = x
        · subst v
          simp [hx]
        · rw [hvl v hv]
          simp [hv]
      · intro v hv hu hp
        by_cases hvx : v = x
        · subst v
          rw [hrest.1,hrest.2]
          refine ⟨hself,fun hc => ?_⟩
          rw [he]
          exact count_freeVlan_self hc
        · have hv' : v ∈ l := (List.mem_cons.mp hv).resolve_left hvx
          rw [← hvl v hvx] at hu hp
          rw [← hcount v hvx]
          exact hi.freed v hv' hu hp
      · intro v hv
        have hvx : v ≠ x := fun he => hv ⟨he ▸ List.mem_cons_self,he ▸ hx⟩
        rw [← hvl v hvx,← hcount v hvx]
        refine hi.other v fun h => hv ⟨List.mem_cons_of_mem x h.1,?_⟩
        rw [← hvl v hvx]
        exact h.2
    · have he : s.clearIfEmptyVlan x = s := by
        simp only [VlanSet.clearIfEmptyVlan,hx,if_false]
      rw [he] at hi ⊢
      have hl : ∀ v, (v ∈ x :: l ∧ (s.vlans v).inUse = true ∧ (s.vlans v).ports = []) ↔
          (v ∈ l ∧ (s.vlans v).inUse = true ∧ (s.vlans v).ports = []) := by
        intro v
        refine and_congr_left fun h => ?_
        rw [List.mem_cons,or_iff_right]
        exact fun he => hx (he ▸ h)
      exact ⟨hi.only,fun v => by rw [hi.mem,hl],
        fun v hv hu hp => hi.freed v ((hl v).mp ⟨hv,hu,hp⟩).1 hu hp,
        fun v hv => hi.other v (fun h => hv ((hl v).mpr h))⟩

theorem mem_allRemoved (o : Session) (v : ℕ) :
    v ∈ VlanSet.allRemoved o ↔ v ∈ o.activeVlans ∨ v ∈ o.removedVlans := by
  have h : ∀ (l acc : List ℕ), v ∈ l.foldl (fun l v => if v ∈ l then l else l ++ [v]) acc ↔
      v ∈ l ∨ v ∈ acc := by
    intro l
    induction l with
    | nil => simp
    | cons x l ih =>
      intro acc
      rw [List.foldl_cons,ih]
      split
      · next hx =>
        simp only [List.mem_cons]
        exact ⟨fun h => h.elim (fun h => .inl (.inr h)) .inr,fun h => h.elim
          (fun h => h.elim (fun h => .inr (h ▸ hx)) .inl) .inr⟩
      · simp only [List.mem_append,List.mem_cons,List.not_mem_nil,or_false]
        tauto
  exact h o.activeVlans o.removedVlans

theorem mem_notInUse (s : VlanSet) (l : List ℕ) (v : ℕ) :
    v ∈ s.notInUse l ↔ v ∈ l ∧ (s.vlans v).inUse = false := by
  simp [VlanSet.notInUse]

theorem getSession_mem {sid : String} (h : s.getSession sid = some r) : r ∈ s.sessions :=
  List.mem_of_find?_eq_some h

/-- A step that leaves the lists, the free list and the `inUse` flags alone keeps the pool. -/
theorem pool_of_same (hw : Wf s) (hp : PoolOk s) (hn : s'.numVlans = s.numVlans)
    (hf : s'.freeVlans = s.freeVlans) (hu : ∀ v, (s'.vlans v).inUse = (s.vlans v).inUse)
    (hm : s'.made = s.made) (hs : s'.sessions = s.sessions) (hc : s'.clearing = s.clearing)
    (ho : ∀ r, (s'.object r).cleared = (s.object r).cleared ∧
      (s'.object r).returned = (s.object r).returned ∧ ∀ v, (v ∈ (s'.object r).activeVlans ∨ v ∈ (s'.object r).removedVlans) ↔
        (v ∈ (s.object r).activeVlans ∨ v ∈ (s.object r).removedVlans)) :
    Wf s' ∧ PoolOk s' := by
  have hin : ∀ v, s'.InPool v ↔ s.InPool v := by
    intro v
    simp only [VlanSet.InPool,hn]
  have hh : ∀ r v, Holds s' r v ↔ Holds s r v := by
    intro r v
    simp only [Holds,hs,hc,(ho r).2.1,(ho r).2.2 v]
  refine ⟨⟨?_,?_,?_,?_,?_,?_⟩,?_⟩
  · intro v hv
    rw [hf] at hv
    exact (hin v).mpr (hw.freeInPool v hv)
  · exact fun r v hv => (hin v).mpr (hw.inPool r v (((ho r).2.2 v).mp hv))
  · intro r hr
    rw [hs,hc] at hr
    rw [hm]
    exact hw.made r hr
  · intro r hr
    rw [(ho r).1]
    exact hw.clearing r (hc ▸ hr)
  · intro r hr
    rw [(ho r).2.1]
    exact hw.returned r ((ho r).1 ▸ hr)
  · intro r hr hcl hl v
    rw [(ho r).2.2]
    exact hw.unlisted r (hm ▸ hr) ((ho r).1 ▸ hcl) (hs ▸ hl) v
  · intro v hv
    exact ok_congr (by rw [hf]) (hu v) (fun r => hh r v) (hp v ((hin v).mp hv))

theorem pool_addToVlan (hw : Wf s) (hp : PoolOk s) (v : ℕ) (port : SwitchPort) (sid : String) :
    Wf (s.addToVlan v port sid).1 ∧ PoolOk (s.addToVlan v port sid).1 := by
  unfold VlanSet.addToVlan
  split
  · exact ⟨hw,hp⟩
  · next r hr =>
    simp only
    split_ifs with hu hsid
    · exact ⟨hw,hp⟩
    · have hvl : ∀ w, ((s.setVlan v { s.vlans v with ports := (s.vlans v).ports ++ [port] }).vlans
          w).inUse = (s.vlans w).inUse := by
        intro w
        by_cases hwv : w = v
        · subst w; simp [VlanSet.setVlan]
        · simp [VlanSet.setVlan,Function.update_of_ne hwv]
      unfold VlanSet.addSwitch
      simp only
      split_ifs
      · exact pool_of_same hw hp rfl rfl hvl rfl rfl rfl fun _ => ⟨rfl,rfl,fun _ => Iff.rfl⟩
      · refine pool_of_same hw hp rfl rfl hvl rfl rfl rfl fun r' => ?_
        by_cases hrr : r' = r
        · subst r'; simp [VlanSet.setSession,VlanSet.setVlan]
        · simp [VlanSet.setSession,VlanSet.setVlan,Function.update_of_ne hrr]
    · exact ⟨hw,hp⟩

theorem pool_deleteFromVlan (hw : Wf s) (hp : PoolOk s) (v : ℕ) (port : SwitchPort)
    (sid : String) : Wf (s.deleteFromVlan v port sid).1 ∧ PoolOk (s.deleteFromVlan v port sid).1 := by
  unfold VlanSet.deleteFromVlan
  simp only
  split_ifs with hu hsid
  · exact ⟨hw,hp⟩
  · refine pool_of_same hw hp rfl rfl (fun w => ?_) rfl rfl rfl fun _ => ⟨rfl,rfl,fun _ => Iff.rfl⟩
    by_cases hwv : w = v
    · subst w; simp [VlanSet.setVlan]
    · simp [VlanSet.setVlan,Function.update_of_ne hwv]
  · exact ⟨hw,hp⟩

theorem pool_removeVlan (hw : Wf s) (hp : PoolOk s) (r v : ℕ) :
    Wf (s.removeVlan r v) ∧ PoolOk (s.removeVlan r v) := by
  unfold VlanSet.removeVlan
  simp only
  split_ifs with hv
  · refine pool_of_same hw hp rfl rfl (fun _ => rfl) rfl rfl rfl fun r' => ?_
    by_cases hrr : r' = r
    · subst r'
      refine ⟨by simp [VlanSet.setSession],by simp [VlanSet.setSession],fun w => ?_⟩
      simp only [VlanSet.setSession,Function.update_self,List.mem_filter,decide_eq_true_eq,
        List.mem_append,List.mem_singleton]
      -- the VLAN moves from one list to the other
      by_cases hwv : w = v
      · subst w
        simp [hv]
      · simp [hwv]
    · simp [VlanSet.setSession,Function.update_of_ne hrr]
  · exact ⟨hw,hp⟩

/-- Sessions that are not there hold nothing. -/
theorem Wf.not_holds_made (hw : Wf s) (v : ℕ) : ¬ Holds s s.made v := by
  intro h
  exact absurd (hw.made _ h.1) (Nat.lt_irrefl _)

/-- With every VLAN free the sessions have nothing in their lists. -/
theorem pool_initializeVlans (hw : Wf s) (hp : PoolOk s)
    (hc : ∀ v, s.InPool v → v ∈ s.freeVlans) :
    Wf s.initializeVlans ∧ PoolOk s.initializeVlans := by
  have hfree : ∀ v, s.InPool v → Free s v := fun v hv => hp.free_of_mem hv (hc v hv)
  refine ⟨⟨hw.freeInPool,hw.inPool,?_,hw.clearing,hw.returned,?_⟩,?_⟩
  · intro r hr
    exact hw.made r (.inr (hr.resolve_left List.not_mem_nil))
  · intro r hr hcl _ v hv
    by_cases hl : r ∈ s.sessions
    · have hret := hw.returned r hcl
      exact (hfree v (hw.inPool r v hv)).2.2 r ⟨.inl hl,hv,by rw [hret]; exact List.not_mem_nil⟩
    · exact hw.unlisted r hr hcl hl v hv
  · intro v hv
    obtain ⟨hcount,_,hno⟩ := hfree v hv
    refine .inl ⟨hcount,rfl,fun r hr => hno r ?_⟩
    exact ⟨.inr (hr.1.resolve_left List.not_mem_nil),hr.2⟩

theorem initializeVlans_clean (hp : PoolOk s.initializeVlans) {v : ℕ}
    (hv : s.InPool v) : v ∈ s.freeVlans := by
  rcases hp v hv with h | h
  · have hc : s.freeVlans.count v = 1 := h.1
    exact List.count_pos_iff.mp (by omega)
  · have hu : false = true := h.2.1
    cases hu

theorem pool_removeSession (hw : Wf s) (hp : PoolOk s) (hcl : (s.object r).cleared = true)
    (hc : r ∈ s.sessions → r ∉ s.clearing → ∀ v, ¬ Holds s r v) :
    Wf (s.removeSession r) ∧ PoolOk (s.removeSession r) := by
  have hh : ∀ r' v, Holds (s.removeSession r) r' v ↔ Holds s r' v := by
    intro r' v
    simp only [Holds,VlanSet.removeSession,List.mem_filter,decide_eq_true_eq]
    refine ⟨fun h => ⟨h.1.imp_left And.left,h.2⟩,fun h => ⟨?_,h.2⟩⟩
    by_cases hrr : r' = r
    · subst r'
      by_cases hcr : r ∈ s.clearing
      · exact .inr hcr
      · exact absurd h (hc (h.1.resolve_right hcr) hcr v)
    · exact h.1.imp_left fun h => ⟨h,hrr⟩
  refine ⟨⟨hw.freeInPool,hw.inPool,?_,hw.clearing,hw.returned,?_⟩,?_⟩
  · exact fun r' hr' => hw.made r' (hr'.imp_left List.mem_of_mem_filter)
  · intro r' hr' hcl' hl
    refine hw.unlisted r' hr' hcl' fun hl' => hl (List.mem_filter.mpr ⟨hl',?_⟩)
    rw [decide_eq_true_eq]
    rintro rfl
    have heq : (s.object r').cleared = false := hcl'
    rw [hcl] at heq
    cases heq
  · exact fun v hv => ok_congr (s := s) rfl rfl (fun r' => hh r' v) (hp v hv)

theorem removeSession_clean (hw : Wf s) (hp : PoolOk s) (hp' : PoolOk (s.removeSession r))
    (hcr : r ∉ s.clearing) : ∀ v, ¬ Holds s r v := by
  intro v hv
  have hin := hw.inPool r v hv.2.1
  have ht := hp.taken_of_holds hin hv
  obtain ⟨r',hr',_⟩ := (hp'.taken hin ht.2.1).2.2
  have hr : Holds s r' v := ⟨hr'.1.imp_left List.mem_of_mem_filter,hr'.2⟩
  have heq := ht.unique hv hr
  subst r'
  rcases hr'.1 with h | h
  · have hne := (List.mem_filter.mp h).2
    simp at hne
  · exact hcr h

theorem mem_addVlanTo (s : VlanSet) (r v r' w : ℕ) :
    (w ∈ ((s.addVlanTo r v).object r').activeVlans ∨
      w ∈ ((s.addVlanTo r v).object r').removedVlans) ↔
    (r' = r ∧ w = v) ∨ (w ∈ (s.object r').activeVlans ∨ w ∈ (s.object r').removedVlans) := by
  by_cases hrr : r' = r
  · subst r'
    simp only [VlanSet.addVlanTo,VlanSet.setSession,Function.update_self,true_and]
    split
    · next ha => exact ⟨.inr,fun h => h.elim (fun h => .inl (h ▸ ha)) id⟩
    · simp only [List.mem_append,List.mem_singleton]
      tauto
  · simp [VlanSet.addVlanTo,VlanSet.setSession,hrr]

theorem mem_returned_addVlanTo (s : VlanSet) (r v r' w : ℕ) :
    w ∈ ((s.addVlanTo r v).object r').returned ↔
      w ∈ (s.object r').returned ∧ ¬ (r' = r ∧ w = v) := by
  by_cases hrr : r' = r
  · subst r'
    simp [VlanSet.addVlanTo,VlanSet.setSession]
  · simp [VlanSet.addVlanTo,VlanSet.setSession,hrr]

theorem cleared_addVlanTo (s : VlanSet) (r v r' : ℕ) :
    ((s.addVlanTo r v).object r').cleared = (s.object r').cleared := by
  by_cases hrr : r' = r
  · subst r'
    simp [VlanSet.addVlanTo,VlanSet.setSession]
  · simp [VlanSet.addVlanTo,VlanSet.setSession,hrr]

/-- The state of `alloc_vlan` when it has marked the first free VLAN. -/
def VlanSet.marked (s : VlanSet) (v : ℕ) (rest : List ℕ) (sid : String) : VlanSet :=
  { s with freeVlans := rest }.setVlan v { s.vlans v with inUse := true, sessionID := sid }

/-- Handing a free VLAN to a session that holds none of it. -/
theorem pool_addVlanTo (hw : Wf s) (hp : PoolOk s) {rest : List ℕ} (sid : String)
    (hfr : s.freeVlans = v :: rest) (hv : Free s v) (hr : r ∈ s.sessions) :
    Wf ((s.marked v rest sid).addVlanTo r v) ∧ PoolOk ((s.marked v rest sid).addVlanTo r v) := by
  have hin : s.InPool v := hw.freeInPool v (hfr ▸ List.mem_cons_self)
  have hrest : rest.count v = 0 := by
    have := hv.1
    rw [hfr,List.count_cons_self] at this
    omega
  have hlists := mem_addVlanTo (s.marked v rest sid) r v
  have hret := mem_returned_addVlanTo (s.marked v rest sid) r v
  have hcl := cleared_addVlanTo (s.marked v rest sid) r v
  generalize hs' : (s.marked v rest sid).addVlanTo r v = s' at hlists hret hcl ⊢
  have hsess : s'.sessions = s.sessions := by rw [← hs']; rfl
  have hclear : s'.clearing = s.clearing := by rw [← hs']; rfl
  have hmade : s'.made = s.made := by rw [← hs']; rfl
  have hnum : s'.numVlans = s.numVlans := by rw [← hs']; rfl
  have hfree : s'.freeVlans = rest := by rw [← hs']; rfl
  have hvl : s'.vlans = Function.update s.vlans v
      { s.vlans v with inUse := true, sessionID := sid } := by rw [← hs']; rfl
  have hobj : (s.marked v rest sid).object = s.object := rfl
  rw [hobj] at hlists hret hcl
  have hpool : ∀ w, s'.InPool w ↔ s.InPool w := by
    intro w
    rw [VlanSet.InPool,hnum,VlanSet.InPool]
  have hh : ∀ r' w, Holds s' r' w ↔ (r' = r ∧ w = v) ∨ Holds s r' w := by
    intro r' w
    unfold Holds
    rw [hlists,hret,hsess,hclear]
    constructor
    · rintro ⟨h1,h2,h3⟩
      by_cases hx : r' = r ∧ w = v
      · exact .inl hx
      · exact .inr ⟨h1,h2.resolve_left hx,fun h => h3 ⟨h,hx⟩⟩
    · rintro (⟨rfl,rfl⟩ | ⟨h1,h2,h3⟩)
      · exact ⟨.inl hr,.inl ⟨rfl,rfl⟩,fun h => h.2 ⟨rfl,rfl⟩⟩
      · exact ⟨h1,.inr h2,fun h => h3 h.1⟩
  refine ⟨⟨?_,?_,?_,?_,?_,?_⟩,?_⟩
  · intro w hw'
    rw [hfree] at hw'
    exact (hpool w).mpr (hw.freeInPool w (hfr ▸ List.mem_cons_of_mem v hw'))
  · intro r' w hw'
    rw [hpool]
    rcases (hlists r' w).mp hw' with ⟨_,rfl⟩ | h
    · exact hin
    · exact hw.inPool r' w h
  · intro r' hr'
    rw [hsess,hclear] at hr'
    rw [hmade]
    exact hw.made r' hr'
  · intro r' hr'
    rw [hclear] at hr'
    rw [hcl]
    exact hw.clearing r' hr'
  · intro r' hr'
    rw [hcl] at hr'
    refine List.eq_nil_iff_forall_not_mem.mpr fun w hw' => ?_
    have := ((hret r' w).mp hw').1
    rw [hw.returned r' hr'] at this
    exact List.not_mem_nil this
  · intro r' hr' hcl' hl w hw'
    rw [hmade] at hr'
    rw [hcl] at hcl'
    rw [hsess] at hl
    rcases (hlists r' w).mp hw' with ⟨rfl,_⟩ | h
    · exact hl hr
    · exact hw.unlisted r' hr' hcl' hl w h
  · intro w hw'
    by_cases hwv : w = v
    · subst w
      refine .inr ⟨by rw [hfree,hrest],by rw [hvl,Function.update_self],
        r,(hh r v).mpr (.inl ⟨rfl,rfl⟩),fun r' hr' => ?_⟩
      rcases (hh r' v).mp hr' with h | h
      · exact h.1
      · exact absurd h (hv.2.2 r')
    · refine ok_congr ?_ ?_ (fun r' => ?_) (hp w ((hpool w).mp hw'))
      · rw [hfree,hfr,List.count_cons_of_ne (Ne.symm hwv)]
      · rw [hvl,Function.update_of_ne hwv]
      · rw [hh]
        exact or_iff_right fun h => hwv h.2

theorem pool_newSession (hw : Wf s) (hp : PoolOk s) (sid : String) :
    Wf (s.newSession sid) ∧ PoolOk (s.newSession sid) := by
  have hne : ∀ r, r ∈ s.sessions ∨ r ∈ s.clearing → r ≠ s.made := by
    rintro r hr rfl
    exact absurd (hw.made _ hr) (Nat.lt_irrefl _)
  have hobj : ∀ r, r ≠ s.made → (s.newSession sid).object r = s.object r := by
    intro r hr
    simp [VlanSet.newSession,Function.update_of_ne hr]
  have hnew : (s.newSession sid).object s.made = ⟨sid, [], [], [], false, []⟩ := by
    simp [VlanSet.newSession]
  have hlist : ∀ r, r ∈ (s.newSession sid).sessions ↔ r ∈ s.sessions ∨ r = s.made := by
    simp [VlanSet.newSession]
  have hh : ∀ r v, Holds (s.newSession sid) r v ↔ Holds s r v := by
    intro r v
    by_cases hr : r = s.made
    · subst r
      simp only [Holds,hnew,List.not_mem_nil,or_self,false_and,and_false,false_iff]
      exact hw.not_holds_made v
    · simp only [Holds,hobj r hr,hlist,hr,or_false]
      rfl
  refine ⟨⟨hw.freeInPool,?_,?_,?_,?_,?_⟩,?_⟩
  · intro r v hv
    by_cases hr : r = s.made
    · subst r
      simp [hnew] at hv
    · rw [hobj r hr] at hv
      exact hw.inPool r v hv
  · intro r hr
    have : r ≤ s.made := by
      rcases hr with hr | hr
      · rcases (hlist r).mp hr with hr | rfl
        · exact Nat.le_of_lt (hw.made r (.inl hr))
        · exact Nat.le_refl _
      · exact Nat.le_of_lt (hw.made r (.inr hr))
    exact Nat.lt_succ_of_le this
  · intro r hr
    rw [hobj r (hne r (.inr hr))]
    exact hw.clearing r hr
  · intro r hr
    by_cases hrm : r = s.made
    · subst r
      rw [hnew]
    · rw [hobj r hrm] at hr ⊢
      exact hw.returned r hr
  · intro r hr hcl hl
    by_cases hrm : r = s.made
    · exact absurd ((hlist r).mpr (.inr hrm)) hl
    · rw [hobj r hrm] at hcl ⊢
      exact hw.unlisted r (Nat.lt_of_le_of_ne (Nat.le_of_lt_succ hr) hrm) hcl
        fun h => hl ((hlist r).mpr (.inl h))
  · exact fun v hv => ok_congr (s := s) rfl rfl (fun r => hh r v) (hp v hv)

theorem pool_allocVlan (hw : Wf s) (hp : PoolOk s) (sid : String) :
    Wf (s.allocVlan sid).1 ∧ PoolOk (s.allocVlan sid).1 := by
  unfold VlanSet.allocVlan
  split
  · exact ⟨hw,hp⟩
  · next v rest hfr =>
    have hin : s.InPool v := hw.freeInPool v (hfr ▸ List.mem_cons_self)
    have hv := hp.free_of_mem hin (hfr ▸ List.mem_cons_self)
    have hcond : ({ s with freeVlans := rest } : VlanSet).InPool v ∧
        (({ s with freeVlans := rest } : VlanSet).vlans v).inUse = false := ⟨hin,hv.2.1⟩
    simp only
    rw [if_pos hcond]
    split
    · next r hr =>
      exact pool_addVlanTo hw hp sid hfr hv (getSession_mem hr)
    · obtain ⟨hw',hp'⟩ := pool_newSession hw hp sid
      have hv' := hp'.free_of_mem (v := v) hin (hfr ▸ List.mem_cons_self)
      have hmade : s.made ∈ (s.newSession sid).sessions :=
        List.mem_append_right s.sessions List.mem_cons_self
      exact pool_addVlanTo (s := s.newSession sid) hw' hp' sid hfr hv' hmade

/-- Before its clear a session holds what is in its lists. -/
theorem holds_of_not_cleared (hw : Wf s) (hl : r ∈ s.sessions)
    (hcl : (s.object r).cleared = false)
    (hv : v ∈ (s.object r).activeVlans ∨ v ∈ (s.object r).removedVlans) : Holds s r v :=
  ⟨.inl hl,hv,by rw [hw.returned r hcl]; exact List.not_mem_nil⟩

/-- With no clear under way, what a session holds is what is in its lists. -/
theorem holds_iff_lists (hw : Wf s) (hc : s.clearing = [])
    (hl : ∀ r ∈ s.sessions, (s.object r).cleared = false) (r v : ℕ) : Holds s r v ↔
      r ∈ s.sessions ∧ (v ∈ (s.object r).activeVlans ∨ v ∈ (s.object r).removedVlans) := by
  constructor
  · rintro ⟨hr,hv,_⟩
    rw [hc] at hr
    exact ⟨hr.resolve_right List.not_mem_nil,hv⟩
  · rintro ⟨hr,hv⟩
    exact holds_of_not_cleared hw hr (hl r hr) hv

theorem pool_clearCommands (hw : Wf s) (hp : PoolOk s) (hr : r < s.made) :
    Wf (s.clearCommands r) ∧ PoolOk (s.clearCommands r) := by
  unfold VlanSet.clearCommands
  simp only
  by_cases hcl : (s.object r).cleared = true
  · rw [if_pos hcl]
    exact ⟨hw,hp⟩
  rw [if_neg hcl]
  have hcl : (s.object r).cleared = false := by simpa using hcl
  generalize hrem : VlanSet.allRemoved (s.object r) = removed
  have hmem : ∀ v, v ∈ removed ↔
      v ∈ (s.object r).activeVlans ∨ v ∈ (s.object r).removedVlans := by
    intro v
    rw [← hrem,mem_allRemoved]
  generalize ht : s.clearSwitches (s.object r).switches removed = t
  have hg : Gives s t removed := ht ▸ gives_clearSwitches s _ removed
  -- only a listed session has anything to clear, and it holds it alone
  have hlisted : ∀ v ∈ removed, r ∈ s.sessions := by
    intro v hv
    by_cases hl : r ∈ s.sessions
    · exact hl
    · exact absurd ((hmem v).mp hv) (hw.unlisted r hr hcl hl v)
  have hholds : ∀ v ∈ removed, Holds s r v :=
    fun v hv => holds_of_not_cleared hw (hlisted v hv) hcl ((hmem v).mp hv)
  have htaken : ∀ v ∈ removed, Taken s v :=
    fun v hv => hp.taken_of_holds (hw.inPool r v ((hmem v).mp hv)) (hholds v hv)
  have honly := hg.only
  have hobj : t.object = s.object := by rw [honly]
  have hnum : t.numVlans = s.numVlans := by rw [honly]
  have hsess : t.sessions = s.sessions := by rw [honly]
  have hmade : t.made = s.made := by rw [honly]
  generalize hs' : ({ t.setSession r { s.object r with
        removedVlans := removed
        cleared := true
        returned := t.notInUse removed } with clearing := r :: s.clearing } : VlanSet) = s'
  have hself : s'.object r = { s.object r with
        removedVlans := removed
        cleared := true
        returned := t.notInUse removed } := by
    rw [← hs']
    simp [VlanSet.setSession]
  have hother : ∀ r', r' ≠ r → s'.object r' = s.object r' := by
    intro r' hrr
    rw [← hs']
    simp [VlanSet.setSession,Function.update_of_ne hrr,hobj]
  have hfree : s'.freeVlans = t.freeVlans := by rw [← hs']; rfl
  have hvlans : s'.vlans = t.vlans := by rw [← hs']; rfl
  have hin : ∀ v, s'.InPool v ↔ s.InPool v := by
    intro v
    rw [← hs']
    simp only [VlanSet.InPool,VlanSet.setSession,hnum]
  have hlist : s'.sessions = s.sessions := by rw [← hs']; exact hsess
  have hclear : s'.clearing = r :: s.clearing := by rw [← hs']
  have hlists : ∀ r' v, (v ∈ (s'.object r').activeVlans ∨ v ∈ (s'.object r').removedVlans) ↔
      (v ∈ (s.object r').activeVlans ∨ v ∈ (s.object r').removedVlans) := by
    intro r' v
    by_cases hrr : r' = r
    · subst r'
      rw [hself]
      simp only [hmem]
      tauto
    · rw [hother r' hrr]
  have hh : ∀ r' v, Holds s' r' v ↔ Holds s r' v ∧ ¬ (r' = r ∧ (t.vlans v).inUse = false) := by
    intro r' v
    unfold Holds
    rw [hlists,hlist,hclear]
    by_cases hrr : r' = r
    · subst r'
      rw [hself]
      simp only [mem_notInUse,true_and]
      constructor
      · rintro ⟨_,hv,hn⟩
        have hv' := (hmem v).mpr hv
        exact ⟨hholds v hv',fun h => hn ⟨hv',h⟩⟩
      · rintro ⟨⟨_,hv,_⟩,hn⟩
        exact ⟨.inr List.mem_cons_self,hv,fun h => hn h.2⟩
    · rw [hother r' hrr]
      simp only [List.mem_cons,hrr,false_or,false_and,not_false_eq_true,and_true]
  refine ⟨⟨?_,?_,?_,?_,?_,?_⟩,?_⟩
  · intro v hv
    rw [hin]
    rw [hfree] at hv
    exact (hg.mem v hv).elim (hw.freeInPool v) fun h => hw.inPool r v ((hmem v).mp h)
  · exact fun r' v hv => (hin v).mpr (hw.inPool r' v ((hlists r' v).mp hv))
  · intro r' hr'
    have hm : s'.made = s.made := by rw [← hs']; exact hmade
    rw [hlist,hclear,List.mem_cons] at hr'
    rw [hm]
    rcases hr' with h | rfl | h
    · exact hw.made r' (.inl h)
    · exact hr
    · exact hw.made r' (.inr h)
  · intro r' hr'
    by_cases hrr : r' = r
    · subst r'
      rw [hself]
    · rw [hother r' hrr]
      rw [hclear,List.mem_cons] at hr'
      exact hw.clearing r' (hr'.resolve_left hrr)
  · intro r' hr'
    by_cases hrr : r' = r
    · subst r'
      rw [hself] at hr'
      cases hr'
    · rw [hother r' hrr] at hr' ⊢
      exact hw.returned r' hr'
  · intro r' hr' hcl' hl v hv
    by_cases hrr : r' = r
    · subst r'
      rw [hself] at hcl'
      cases hcl'
    · rw [hother r' hrr] at hcl' hv
      have hm : s'.made = s.made := by rw [← hs']; exact hmade
      exact hw.unlisted r' (hm ▸ hr') hcl' (hlist ▸ hl) v hv
  · intro v hv
    have hvin := (hin v).mp hv
    by_cases hvr : v ∈ removed
    · obtain ⟨hc,hu,_⟩ := htaken v hvr
      have huniq := fun r' h => (htaken v hvr).unique (r := r') h (hholds v hvr)
      rcases hg.given v hvr hu hc with ⟨hu',hc'⟩ | ⟨hu',_,hc'⟩
      · refine .inr ⟨by rw [hfree,hc'],by rw [hvlans,hu'],r,?_,fun r' hr' => ?_⟩
        · exact (hh r v).mpr ⟨hholds v hvr,fun h => by rw [hu'] at h; cases h.2⟩
        · exact huniq r' ((hh r' v).mp hr').1
      · refine .inl ⟨by rw [hfree,hc'],by rw [hvlans,hu'],fun r' hr' => ?_⟩
        have hx := (hh r' v).mp hr'
        exact hx.2 ⟨huniq r' hx.1,hu'⟩
    · obtain ⟨hvl,hc⟩ := hg.other v hvr
      refine ok_congr (by rw [hfree,hc]) (by rw [hvlans,hvl]) (fun r' => ?_) (hp v hvin)
      rw [hh]
      refine and_iff_left_of_imp fun hx => ?_
      rintro ⟨rfl,_⟩
      exact hvr ((hmem v).mpr hx.2.1)

/-- What the end of a clear does: the VLANs `Empties` names become free, and the session
answers for what is left as long as it is listed. -/
structure Finishes (s s' : VlanSet) (r : ℕ) : Prop where
  empties : ∃ t, Empties s t (s.object r).removedVlans ∧ s'.vlans = t.vlans ∧
    s'.freeVlans = t.freeVlans
  num : s'.numVlans = s.numVlans
  made : s'.made = s.made
  sessions : s'.sessions = s.sessions
  clearing : ∀ r', r' ∈ s'.clearing ↔ r' ∈ s.clearing ∧ r' ≠ r
  lists : ∀ r', (s'.object r').cleared = (s.object r').cleared ∧
    (s'.object r').activeVlans = (s.object r').activeVlans ∧
    (s'.object r').removedVlans = (s.object r').removedVlans
  returned : ∀ r' v, v ∈ (s'.object r').returned ↔ v ∈ (s.object r').returned ∨
    (r' = r ∧ v ∈ (s.object r).removedVlans ∧ (s'.vlans v).inUse = false)

theorem finishes_clearIfEmpty (s : VlanSet) (r : ℕ) : Finishes s (s.clearIfEmpty r) r := by
  have he := empties_clearIfEmpty s (s.object r).removedVlans
  unfold VlanSet.clearIfEmpty
  simp only
  generalize (s.object r).removedVlans.foldl VlanSet.clearIfEmptyVlan s = t at he
  have hobj : t.object = s.object := by rw [he.only]
  have hnum : t.numVlans = s.numVlans := by rw [he.only]
  have hmade : t.made = s.made := by rw [he.only]
  have hsess : t.sessions = s.sessions := by rw [he.only]
  refine ⟨⟨t,he,rfl,rfl⟩,hnum,hmade,hsess,fun r' => by simp,fun r' => ?_,fun r' v => ?_⟩
  · by_cases hrr : r' = r
    · subst r'
      simp [VlanSet.setSession]
    · simp [VlanSet.setSession,Function.update_of_ne hrr,hobj]
  · by_cases hrr : r' = r
    · subst r'
      simp [VlanSet.setSession,mem_notInUse]
    · simp [VlanSet.setSession,hobj,hrr]

theorem Finishes.holds (hf : Finishes s s' r) (r' v : ℕ) : Holds s' r' v ↔
    (r' ∈ s.sessions ∨ (r' ∈ s.clearing ∧ r' ≠ r)) ∧ Holds s r' v ∧
      ¬ (r' = r ∧ v ∈ (s.object r).removedVlans ∧ (s'.vlans v).inUse = false) := by
  unfold Holds
  rw [hf.sessions,hf.clearing,(hf.lists r').2.1,(hf.lists r').2.2,hf.returned]
  tauto

theorem pool_clearIfEmpty (hw : Wf s) (hp : PoolOk s) (hf : Finishes s s' r)
    (hc : Clean s (.clearIfEmpty r)) (hcr : r ∈ s.clearing) : Wf s' ∧ PoolOk s' := by
  obtain ⟨hback,hrest⟩ := hc
  obtain ⟨t,he,hvl,hfr⟩ := hf.empties
  have hin : ∀ v, s'.InPool v ↔ s.InPool v := by
    intro v
    rw [VlanSet.InPool,hf.num,VlanSet.InPool]
  -- every VLAN freed here was held by this session
  have hown : ∀ v ∈ (s.object r).removedVlans, (s.vlans v).inUse = true →
      (s.vlans v).ports = [] → Holds s r v :=
    fun v hv hu hp => ⟨.inr hcr,.inr hv,hback v hv hu hp⟩
  refine ⟨⟨?_,?_,?_,?_,?_,?_⟩,?_⟩
  · intro v hv
    rw [hfr,he.mem] at hv
    exact (hin v).mpr (hv.elim (hw.freeInPool v) fun h => hw.inPool r v (.inr h.1))
  · intro r' v hv
    rw [(hf.lists r').2.1,(hf.lists r').2.2] at hv
    exact (hin v).mpr (hw.inPool r' v hv)
  · intro r' hr'
    rw [hf.sessions,hf.clearing] at hr'
    rw [hf.made]
    exact hw.made r' (hr'.imp_right And.left)
  · intro r' hr'
    rw [(hf.lists r').1]
    exact hw.clearing r' ((hf.clearing r').mp hr').1
  · intro r' hr'
    rw [(hf.lists r').1] at hr'
    refine List.eq_nil_iff_forall_not_mem.mpr fun v hv => ?_
    rcases (hf.returned r' v).mp hv with h | ⟨rfl,_⟩
    · rw [hw.returned r' hr'] at h
      exact List.not_mem_nil h
    · rw [hw.clearing r' hcr] at hr'
      cases hr'
  · intro r' hr' hcl hl v
    rw [(hf.lists r').2.1,(hf.lists r').2.2]
    exact hw.unlisted r' (hf.made ▸ hr') ((hf.lists r').1 ▸ hcl) (hf.sessions ▸ hl) v
  · intro v hv
    have hvin := (hin v).mp hv
    by_cases hem : v ∈ (s.object r).removedVlans ∧ (s.vlans v).inUse = true ∧
        (s.vlans v).ports = []
    · obtain ⟨hvr,hu,hports⟩ := hem
      have ht := hp.taken hvin hu
      obtain ⟨hu',hc'⟩ := he.freed v hvr hu hports
      refine .inl ⟨by rw [hfr,hc' ht.1],by rw [hvl,hu'],fun r' hr' => ?_⟩
      obtain ⟨_,hr',hn⟩ := (hf.holds r' v).mp hr'
      exact hn ⟨ht.unique hr' (hown v hvr hu hports),hvr,by rw [hvl,hu']⟩
    · obtain ⟨hsame,hcount⟩ := he.other v hem
      refine ok_congr (by rw [hfr,hcount]) (by rw [hvl,hsame]) (fun r' => ?_) (hp v hvin)
      rw [hf.holds]
      refine ⟨fun h => h.2.1,fun h => ⟨?_,h,?_⟩⟩
      · by_cases hrr : r' = r
        · subst r'
          by_cases hl : r ∈ s.sessions
          · exact .inl hl
          · obtain ⟨hvr,hports⟩ := hrest hl v h
            exact absurd ⟨hvr,(hp.taken_of_holds hvin h).2.1,hports⟩ hem
        · exact h.1.imp_right fun hr' => ⟨hr',hrr⟩
      · rintro ⟨rfl,_,hu⟩
        rw [hvl,hsame,(hp.taken_of_holds hvin h).2.1] at hu
        cases hu

theorem clearIfEmpty_clean (hw : Wf s) (hp : PoolOk s) (hf : Finishes s s' r) (hp' : PoolOk s') :
    Clean s (.clearIfEmpty r) := by
  obtain ⟨t,he,hvl,hfr⟩ := hf.empties
  have hin : ∀ v, s'.InPool v ↔ s.InPool v := by
    intro v
    rw [VlanSet.InPool,hf.num,VlanSet.InPool]
  constructor
  · -- a VLAN given back and in use again belongs to somebody else, who would lose it
    intro v hvr hu hports hret
    have hvin := hw.inPool r v (.inr hvr)
    have ht := hp.taken hvin hu
    obtain ⟨r',hr',_⟩ := ht.2.2
    have hne : r' ≠ r := by
      rintro rfl
      exact hr'.2.2 hret
    have hfree := hp'.free_of_mem ((hin v).mpr hvin)
      (by rw [hfr,he.mem]; exact .inr ⟨hvr,hu,hports⟩)
    refine hfree.2.2 r' ((hf.holds r' v).mpr ⟨?_,hr',fun h => hne h.1⟩)
    exact hr'.1.imp_right fun h => ⟨h,hne⟩
  · intro hl v hv
    have hvin := hw.inPool r v hv.2.1
    have ht := hp.taken_of_holds hvin hv
    by_contra hem
    obtain ⟨hsame,_⟩ := he.other v fun h => hem ⟨h.1,h.2.2⟩
    have hu' : (s'.vlans v).inUse = true := by rw [hvl,hsame,ht.2.1]
    obtain ⟨r',hr',_⟩ := (hp'.taken ((hin v).mpr hvin) hu').2.2
    obtain ⟨hlist,hr',_⟩ := (hf.holds r' v).mp hr'
    have heq := ht.unique hr' hv
    subst r'
    exact hlist.elim hl fun h => h.2 rfl

theorem pool_step (hw : Wf s) (hp : PoolOk s) (h : Step s op s') (hc : Clean s op) :
    Wf s' ∧ PoolOk s' := by
  cases op with
  | initializeVlans =>
    cases h
    exact pool_initializeVlans hw hp hc
  | allocVlan sid =>
    cases h
    exact pool_allocVlan hw hp sid
  | addToVlan v port sid =>
    obtain ⟨_,⟨⟩⟩ := Option.ite_none_right_eq_some.mp h
    exact pool_addToVlan hw hp v port sid
  | deleteFromVlan v port sid =>
    obtain ⟨_,⟨⟩⟩ := Option.ite_none_right_eq_some.mp h
    exact pool_deleteFromVlan hw hp v port sid
  | removeVlan v sid =>
    simp only [Step,exec] at h
    split at h
    · cases h
      exact ⟨hw,hp⟩
    · next r hr =>
      obtain ⟨_,⟨⟩⟩ := Option.ite_none_left_eq_some.mp h
      exact pool_removeVlan hw hp r v
  | clearCommands r =>
    obtain ⟨hr,⟨⟩⟩ := Option.ite_none_right_eq_some.mp h
    exact pool_clearCommands hw hp hr
  | clearIfEmpty r =>
    obtain ⟨hr,⟨⟩⟩ := Option.ite_none_right_eq_some.mp h
    exact pool_clearIfEmpty hw hp (finishes_clearIfEmpty s r) hc hr
  | removeSession r =>
    obtain ⟨hr,⟨⟩⟩ := Option.ite_none_right_eq_some.mp h
    exact pool_removeSession hw hp hr hc

theorem step_clean (hw : Wf s) (hp : PoolOk s) (h : Step s op s') (hp' : PoolOk s') :
    Clean s op := by
  cases op with
  | initializeVlans =>
    cases h
    exact fun v hv => initializeVlans_clean hp' hv
  | clearIfEmpty r =>
    obtain ⟨_,⟨⟩⟩ := Option.ite_none_right_eq_some.mp h
    exact clearIfEmpty_clean hw hp (finishes_clearIfEmpty s r) hp'
  | removeSession r =>
    obtain ⟨_,⟨⟩⟩ := Option.ite_none_right_eq_some.mp h
    exact fun _ hcr => removeSession_clean hw hp hp' hcr
  | _ => trivial

theorem pool_new (numVlans : ℕ) : Wf (VlanSet.new numVlans) ∧ PoolOk (VlanSet.new numVlans) := by
  have hnone : ∀ r v, ¬ Holds (VlanSet.new numVlans) r v := by
    simp [Holds,VlanSet.new]
  refine ⟨⟨?_,?_,?_,?_,?_,?_⟩,?_⟩
  · intro v hv
    obtain ⟨i,hi,rfl⟩ := List.mem_range'.mp hv
    exact ⟨by omega,by simp only [VlanSet.new]; omega⟩
  · simp [VlanSet.new]
  · simp [VlanSet.new]
  · simp [VlanSet.new]
  · simp [VlanSet.new]
  · simp [VlanSet.new]
  · intro v hv
    refine .inl ⟨?_,rfl,fun r => hnone r v⟩
    have hmem : v ∈ List.range' 2 numVlans := by
      rw [List.mem_range']
      exact ⟨v - 2,by have := hv.2; simp only [VlanSet.new] at this; have := hv.1; omega,
        by have := hv.1; omega⟩
    exact List.count_eq_one_of_mem List.nodup_range' hmem

/-- From the constructor on, every VLAN is free or held by exactly one session throughout
exactly the runs whose steps are all clean. -/
theorem poolOk_iff_clean (numVlans : ℕ) (tr : List (Op × VlanSet))
    (hr : IsRun Step (VlanSet.new numVlans) tr) :
    EveryState PoolOk (VlanSet.new numVlans) tr ↔
      EveryStep (fun s op _ => Clean s op) (VlanSet.new numVlans) tr := by
  refine hr.everyState_iff (P := fun s => Wf s ∧ PoolOk s) ?_ ?_ ?_ (pool_new numVlans)
  · exact fun _ _ _ hs h hc => pool_step hs.1 hs.2 h hc
  · exact fun _ _ _ hs h hp' => step_clean hs.1 hs.2 h hp'
  · exact fun _ hs => hs.2

def portOne : SwitchPort := ⟨"s1", 1, false, false⟩

/-- A session with one VLAN with a port and one without is cleared while another allocates. -/
theorem poolOk_clear_and_alloc : EveryState PoolOk (VlanSet.new 3) (steps (VlanSet.new 3)
    [.allocVlan "a",.allocVlan "a",.addToVlan 2 portOne "a",.clearCommands 0,.allocVlan "b",
      .clearIfEmpty 0,.removeSession 0]) := by
  refine (poolOk_iff_clean 3 _ (isRun_steps _ _)).mpr ?_
  refine ⟨trivial,trivial,trivial,trivial,trivial,⟨?_,?_⟩,?_,trivial⟩
  · decide +kernel
  · intro h
    exact absurd (by decide +kernel) h
  · rintro _ _ v ⟨_,hv,hn⟩
    refine absurd hv fun hv => hn ?_
    revert v
    simp only [← List.mem_append]
    decide +kernel

theorem not_poolOk_of_free (hf : v ∈ s.freeVlans) (hv : s.InPool v) (hh : Holds s r v) :
    ¬ PoolOk s :=
  fun hp => (hp.free_of_mem hv hf).2.2 r hh

/-- The VLAN a clear has given back is handed to another session and, when the clear ends,
put on the free list although that session has it. -/
theorem poolOk_broken : ¬ EveryState PoolOk (VlanSet.new 1) (steps (VlanSet.new 1)
    [.allocVlan "a",.addToVlan 2 portOne "a",.clearCommands 0,.allocVlan "b",
      .clearIfEmpty 0]) := by
  rintro ⟨_,_,_,_,_,h⟩
  refine not_poolOk_of_free (r := 1) (v := 2) ?_ ?_ ⟨.inl ?_,.inl ?_,?_⟩ h
  · decide +kernel
  · decide +kernel
  · decide +kernel
  · decide +kernel
  · decide +kernel

end OnlDaemons.Nmd

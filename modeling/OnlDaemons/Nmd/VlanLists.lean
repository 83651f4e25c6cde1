import Mathlib.Data.List.TakeWhile
import OnlDaemons.Nmd.CommandText
import OnlDaemons.Nmd.Isolation

/-!
# The VLAN lists of a session on its switches

`create_vlans` makes one text for each switch of the session, with the ports that the VLANs of the session have there,
and `clear_session` makes one that takes them out again. The switches that understand these texts have then the ports in
the VLANs that the lists say.

## Main definitions

- `createText`, `clearText` — the text for a switch
- `Untags` — the ports whose untagged frames get the VLAN
- `HasLists`, `LetsGo` — a switch has the lists of a session, and has let go of them
- `Implements` — what the lists alone say

## Main result

- `implements_lists` — a switch has the lists between the two texts
- `lists_not_implemented` — lists that ask for more
-/

namespace OnlDaemons.Nmd
open OnlDaemons.Lib

/-! ### The texts -/

def defaultVlan : ℕ := 255

section Texts

variable (ethSwitches : List SwitchInfo) (d : Dialect)

/-- `vlan::get_add_ports_cmd`. `set_switch_pvid` is called with one port at a time. -/
def getAddPortsText (s : VlanSet) (switchId : String) (v : ℕ) : Text :=
  let switchPorts := s.switchPorts switchId v
  setSwitchVlanMembership d (getNumPorts ethSwitches switchId) switchPorts v ++
    switchPorts.flatMap fun p =>
      if p.passTag then [] else setSwitchPvids d (getManagementPort ethSwitches switchId) [p] v

/-- The command of `create_vlans` for one switch. -/
def createText (s : VlanSet) (r : ℕ) (switchId : String) : Text :=
  startCommand d ++ (s.object r).activeVlans.flatMap (getAddPortsText ethSwitches d s switchId)

/-- The text of `vlan::get_clear_vlan_cmd`. -/
def getClearVlanText (s : VlanSet) (switchId : String) (v : ℕ) : Text :=
  let pvidPorts := s.switchPorts switchId v
  if pvidPorts = [] then []
  else
    setSwitchPvids d (getManagementPort ethSwitches switchId) pvidPorts defaultVlan ++
      setSwitchVlanMembership d (getNumPorts ethSwitches switchId) [] v

/-- A round of the inner loop of `clear_session`, with the text and `num_rm`. -/
def clearTextRound (switchId : String) (acc : VlanSet × Text × ℕ) (v : ℕ) : VlanSet × Text × ℕ :=
  (acc.1.getClearVlanCmd switchId v,acc.2.1 ++ getClearVlanText ethSwitches d acc.1 switchId v,
    acc.2.2 + (acc.1.switchPorts switchId v).length)

/-- The command of `clear_session` for one switch, after the rounds of the switches before it. It is not sent when there
were no ports. -/
def clearText (s : VlanSet) (r : ℕ) (switchId : String) : Option Text :=
  let o := s.object r
  let removed := VlanSet.allRemoved o
  let s := s.clearSwitches (o.switches.takeWhile (· ≠ switchId)) removed
  let res := removed.foldl (clearTextRound ethSwitches d switchId) (s,startCommand d,0)
  if 0 < res.2.2 then some res.2.1 else none

end Texts

/-! ### What they should do -/

/-- An entry of the list says that untagged frames of the port belong to the VLAN. -/
def Untags (ethSwitches : List SwitchInfo) (s : VlanSet) (switchId : String) (v p : ℕ) : Prop :=
  ∃ q ∈ s.switchPorts switchId v,
    q.port = p ∧ q.isInterswitchPort = false ∧ q.port ≠ getManagementPort ethSwitches switchId ∧ q.passTag = false

instance (ethSwitches : List SwitchInfo) (s : VlanSet) (switchId : String) (v p : ℕ) :
    Decidable (Untags ethSwitches s switchId v p) := inferInstanceAs (Decidable (∃ q ∈ _, _))

/-- `p` is a port of the switch. -/
def OnSwitch (ethSwitches : List SwitchInfo) (switchId : String) (p : ℕ) : Prop :=
  1 ≤ p ∧ p ≤ getNumPorts ethSwitches switchId

instance (ethSwitches : List SwitchInfo) (switchId : String) (p : ℕ) : Decidable (OnSwitch ethSwitches switchId p) :=
  inferInstanceAs (Decidable (_ ∧ _))

/-- The last of the VLANs that untags the port. -/
def lastUntagging (ethSwitches : List SwitchInfo) (s : VlanSet) (switchId : String) (vs : List ℕ) (p : ℕ) : Option ℕ :=
  (vs.filter fun v => Untags ethSwitches s switchId v p).getLast?

/-- The switch has the ports of the lists in the VLANs. -/
structure HasMembers (ethSwitches : List SwitchInfo) (s : VlanSet) (switchId : String) (vs : List ℕ)
    (x y : SwitchState) : Prop where
  members : ∀ v ∈ vs, ∀ p, OnSwitch ethSwitches switchId p →
    (y.members v p = true ↔ ∃ q ∈ s.switchPorts switchId v, q.port = p)
  others : ∀ v, v ∉ vs → y.members v = x.members v

/-- The switch has got the lists of the VLANs. A port has one untagged VLAN, that of the last list that gives it one. -/
structure HasLists (ethSwitches : List SwitchInfo) (s : VlanSet) (switchId : String) (vs : List ℕ)
    (x y : SwitchState) : Prop extends HasMembers ethSwitches s switchId vs x y where
  untagged : ∀ p, y.untagged p = (lastUntagging ethSwitches s switchId vs p).getD (x.untagged p)

/-- The switch has let go of the lists. -/
structure LetsGo (ethSwitches : List SwitchInfo) (s : VlanSet) (switchId : String) (vs : List ℕ)
    (z : SwitchState) : Prop where
  members : ∀ v ∈ vs, ∀ p, OnSwitch ethSwitches switchId p → z.members v p = false
  untagged : ∀ v ∈ vs, ∀ p, Untags ethSwitches s switchId v p → z.untagged p = defaultVlan

/-! ### Texts that run -/

/-- In the mode for configuration the text changes the switch by `f`. -/
structure Runs (d : Dialect) (t : Text) (f : SwitchState → SwitchState) : Prop where
  run : ∀ rest x, x.mode = .config → SwitchState.runText d (t ++ rest) x = SwitchState.runText d rest (f x)
  mode : ∀ x, x.mode = .config → (f x).mode = .config

namespace Runs

variable {d : Dialect} {t u : Text} {f g : SwitchState → SwitchState}

theorem nil : Runs d [] id := ⟨fun _ _ _ => rfl,fun _ h => h⟩

theorem append (ht : Runs d t f) (hu : Runs d u g) : Runs d (t ++ u) (g ∘ f) where
  run rest x hx := by rw [List.append_assoc,ht.run _ x hx,hu.run _ _ (ht.mode x hx),Function.comp_apply]
  mode x hx := hu.mode _ (ht.mode x hx)

theorem flatMap {α : Type} {l : List α} {t : α → Text} {f : α → SwitchState → SwitchState}
    (h : ∀ a ∈ l, Runs d (t a) (f a)) : Runs d (l.flatMap t) (fun x => l.foldl (fun x a => f a x) x) := by
  induction l with
  | nil => exact nil
  | cons a l ih =>
    have hrest := ih fun b hb => h b (List.mem_cons_of_mem a hb)
    exact (h a List.mem_cons_self).append hrest

theorem of_commands {cs : List Command} (h : Says d t cs) (hf : ∀ x, x.mode = .config → cs.foldl SwitchState.run x = f x)
    (hmode : ∀ x, x.mode = .config → (f x).mode = .config) : Runs d t f where
  run rest x hx := by
    obtain ⟨ts,hts,hcs⟩ := h
    rw [SwitchState.runText,hts,hcs,List.foldl_append,hf x hx]
    rfl
  mode := hmode

/-- A text that runs to its end. -/
theorem runText_eq {x : SwitchState} (h : Runs d t f) (hx : x.mode = .config) : SwitchState.runText d t x = f x := by
  have hrun := h.run [] x hx
  rwa [List.append_nil] at hrun

end Runs

/-- Only the given ports of the switch are in the VLAN. -/
def SwitchState.allowOnly (numPorts v : ℕ) (ports : List SwitchPort) (x : SwitchState) : SwitchState :=
  if numPorts = 0 then x
  else x.setMembers v fun p => (x.members v p && !decide (1 ≤ p ∧ p ≤ numPorts)) || decide (∃ q ∈ ports, q.port = p)

def SwitchState.untag (v : ℕ) (ports : List SwitchPort) (x : SwitchState) : SwitchState :=
  { x with untagged := fun p => if ∃ q ∈ ports, q.port = p then v else x.untagged p }

theorem has_range (n p : ℕ) : Selection.Has [(1,n)] p ↔ 1 ≤ p ∧ p ≤ n := by simp [Selection.Has]

theorem has_ports (ports : List SwitchPort) (p : ℕ) :
    Selection.Has (ports.map fun q => (q.port,q.port)) p ↔ ∃ q ∈ ports, q.port = p := by
  constructor
  · rintro ⟨r,hr,hle,hge⟩
    obtain ⟨q,hq,rfl⟩ := List.mem_map.1 hr
    exact ⟨q,hq,Nat.le_antisymm hle hge⟩
  · rintro ⟨q,hq,rfl⟩
    exact ⟨_,List.mem_map.2 ⟨q,hq,rfl⟩,Nat.le_refl _,Nat.le_refl _⟩

/-- Ports are selected and taken out of the VLAN. -/
theorem foldl_remove (sel : Selection) (v : ℕ) {x : SwitchState} (hx : x.mode = .config) :
    List.foldl SwitchState.run x ([.interface sel] ++ [.allowedRemove v] ++ [.exit]) =
      x.setMembers v fun p => x.members v p && !decide (sel.Has p) := by
  cases x
  cases hx
  rfl

theorem foldl_add (d : Dialect) (sel : Selection) (v : ℕ) {x : SwitchState} (hx : x.mode = .config) :
    List.foldl SwitchState.run x ([.interface sel] ++ [.allowedAdd v] ++ showCommands d ++ [.exit]) =
      x.setMembers v fun p => x.members v p || decide (sel.Has p) := by
  cases x
  cases hx
  cases d <;> rfl

theorem foldl_untagged (sel : Selection) (v : ℕ) {x : SwitchState} (hx : x.mode = .config) :
    List.foldl SwitchState.run x ([.interface sel] ++ [.untagged v] ++ [.exit]) =
      { x with untagged := fun p => if sel.Has p then v else x.untagged p } := by
  cases x
  cases hx
  rfl

theorem runs_setSwitchVlanMembership (d : Dialect) {numPorts : ℕ} {ports : List SwitchPort} (v : ℕ)
    (hn : numPorts < 2 ^ 31) (h : ∀ p ∈ ports, Writable d p.port) :
    Runs d (setSwitchVlanMembership d numPorts ports v) (SwitchState.allowOnly numPorts v ports) := by
  refine .of_commands (says_setSwitchVlanMembership d v hn h) (fun x hx => ?_) (fun x hx => ?_)
  · rw [membershipCommands,SwitchState.allowOnly]
    split
    case isTrue => rfl
    case isFalse =>
      rw [List.foldl_append,foldl_remove _ v hx]
      simp only [has_range]
      cases ports with
      | nil => simp
      | cons q ports =>
        have hmode : (x.setMembers v fun p => x.members v p && !decide (1 ≤ p ∧ p ≤ numPorts)).mode = .config := hx
        rw [if_pos (by simp),select,foldl_add d _ v hmode]
        simp only [has_ports,SwitchState.setMembers,Function.update_self,Function.update_idem]
  · rw [SwitchState.allowOnly]
    split <;> exact hx

theorem runs_setSwitchPvidsOf (d : Dialect) {ports : List SwitchPort} (v : ℕ) (h : ∀ p ∈ ports, Writable d p.port) :
    Runs d (setSwitchPvidsOf d ports v) (SwitchState.untag v ports) := by
  refine .of_commands (says_setSwitchPvidsOf d v h) (fun x hx => ?_) (fun x hx => hx)
  cases ports with
  | nil => simp [pvidCommands,SwitchState.untag]
  | cons q ports =>
    rw [pvidCommands,if_neg (by simp),select,foldl_untagged _ v hx,SwitchState.untag]
    simp only [has_ports]

/-- The ports `set_switch_pvids` keeps. -/
def hostPorts (managementPort : ℕ) (ports : List SwitchPort) : List SwitchPort :=
  ports.filter fun p => !p.isInterswitchPort && p.port != managementPort

theorem runs_setSwitchPvids (d : Dialect) (managementPort : ℕ) {ports : List SwitchPort} (v : ℕ)
    (h : ∀ p ∈ ports, Writable d p.port) :
    Runs d (setSwitchPvids d managementPort ports v) (SwitchState.untag v (hostPorts managementPort ports)) :=
  runs_setSwitchPvidsOf d v fun p hp => h p (List.mem_of_mem_filter hp)

/-! ### Creating -/

section Lists

variable {ethSwitches : List SwitchInfo} {d : Dialect} {s : VlanSet} {sw : String} {v w p : ℕ} {vs : List ℕ}
  {x : SwitchState}

/-- The ports `get_add_ports_cmd` calls `set_switch_pvid` for and that this keeps. -/
def untaggedPorts (managementPort : ℕ) (ports : List SwitchPort) : List SwitchPort :=
  ports.flatMap fun p => if p.passTag then [] else hostPorts managementPort [p]

theorem untags_iff : Untags ethSwitches s sw v p ↔
    ∃ q ∈ untaggedPorts (getManagementPort ethSwitches sw) (s.switchPorts sw v), q.port = p := by
  constructor
  · rintro ⟨q,hq,hp,hinter,hne,htag⟩
    refine ⟨q,List.mem_flatMap.2 ⟨q,hq,?_⟩,hp⟩
    simp [hostPorts,hinter,hne,htag]
  · rintro ⟨q,hq,hp⟩
    obtain ⟨q',hq',hmem⟩ := List.mem_flatMap.1 hq
    split at hmem
    · cases hmem
    next htag =>
      simp only [hostPorts,List.mem_filter,List.mem_singleton,Bool.and_eq_true,Bool.not_eq_true',bne_iff_ne] at hmem
      obtain ⟨rfl,hinter,hne⟩ := hmem
      exact ⟨q,hq',hp,hinter,hne,Bool.eq_false_iff.2 htag⟩

theorem untag_append (v : ℕ) (ports ports' : List SwitchPort) (x : SwitchState) :
    (x.untag v ports).untag v ports' = x.untag v (ports ++ ports') := by
  rw [SwitchState.untag,SwitchState.untag,SwitchState.untag]
  congr 1
  funext p
  split
  case isTrue h =>
    obtain ⟨q,hq,hp⟩ := h
    exact (if_pos ⟨q,List.mem_append_right _ hq,hp⟩).symm
  case isFalse h =>
    apply if_congr _ rfl rfl
    constructor
    · rintro ⟨q,hq,hp⟩
      exact ⟨q,List.mem_append_left _ hq,hp⟩
    · rintro ⟨q,hq,hp⟩
      rcases List.mem_append.1 hq with hq | hq
      · exact ⟨q,hq,hp⟩
      · exact absurd ⟨q,hq,hp⟩ h

theorem foldl_untag (v managementPort : ℕ) (ports : List SwitchPort) (x : SwitchState) :
    ports.foldl (fun x p => x.untag v (if p.passTag then [] else hostPorts managementPort [p])) x =
      x.untag v (untaggedPorts managementPort ports) := by
  induction ports generalizing x with
  | nil => simp [untaggedPorts,SwitchState.untag]
  | cons p ports ih => rw [List.foldl_cons,ih,untag_append,untaggedPorts,untaggedPorts,List.flatMap_cons]

/-- What `get_add_ports_cmd` does for a VLAN. -/
def SwitchState.addPorts (ethSwitches : List SwitchInfo) (s : VlanSet) (sw : String) (v : ℕ) (x : SwitchState) :
    SwitchState :=
  (x.allowOnly (getNumPorts ethSwitches sw) v (s.switchPorts sw v)).untag v
    (untaggedPorts (getManagementPort ethSwitches sw) (s.switchPorts sw v))

theorem runs_getAddPortsText (hn : getNumPorts ethSwitches sw < 2 ^ 31)
    (h : ∀ p ∈ s.switchPorts sw v, Writable d p.port) :
    Runs d (getAddPortsText ethSwitches d s sw v) (SwitchState.addPorts ethSwitches s sw v) := by
  have hpvids : Runs d ((s.switchPorts sw v).flatMap fun p =>
      if p.passTag then [] else setSwitchPvids d (getManagementPort ethSwitches sw) [p] v)
      (SwitchState.untag v (untaggedPorts (getManagementPort ethSwitches sw) (s.switchPorts sw v))) := by
    have hall := Runs.flatMap (d := d) (l := s.switchPorts sw v)
      (t := fun p => if p.passTag then [] else setSwitchPvids d (getManagementPort ethSwitches sw) [p] v)
      (f := fun p x => x.untag v (if p.passTag then [] else hostPorts (getManagementPort ethSwitches sw) [p]))
      fun p hp => by
        split
        · exact Runs.nil
        · exact runs_setSwitchPvids d _ v (by simpa using h p hp)
    simpa only [foldl_untag] using hall
  exact (runs_setSwitchVlanMembership d v hn h).append hpvids

theorem runs_createText {r : ℕ} (hn : getNumPorts ethSwitches sw < 2 ^ 31)
    (h : ∀ v ∈ (s.object r).activeVlans, ∀ p ∈ s.switchPorts sw v, Writable d p.port) :
    Runs d ((s.object r).activeVlans.flatMap (getAddPortsText ethSwitches d s sw))
      (fun x => (s.object r).activeVlans.foldl (fun x v => x.addPorts ethSwitches s sw v) x) :=
  Runs.flatMap fun v hv => runs_getAddPortsText hn (h v hv)

/-- The text is executed in the mode for configuration. -/
theorem execute_startCommand {t : Text} {f : SwitchState → SwitchState} (h : Runs d t f) (x : SwitchState) :
    SwitchState.execute d (startCommand d ++ t) x = f { x with mode := .config } := by
  obtain ⟨ts,hts,hcs⟩ := says_startCommand d
  have hstart : List.foldl SwitchState.run { x with mode := .exec }
      ((if d = .cisco then [] else [.enable]) ++ [.configure]) = { x with mode := .config } := by
    cases d <;> rfl
  rw [SwitchState.execute,SwitchState.runText,hts,hcs,List.foldl_append,hstart]
  exact h.runText_eq rfl

/-! What one VLAN does to the ports, and then what all of them do. -/

theorem allowOnly_members (hp : OnSwitch ethSwitches sw p) (ports : List SwitchPort) :
    (x.allowOnly (getNumPorts ethSwitches sw) v ports).members v p = decide (∃ q ∈ ports, q.port = p) := by
  have hn : getNumPorts ethSwitches sw ≠ 0 := by
    obtain ⟨hone,hle⟩ := hp
    omega
  have hall : 1 ≤ p ∧ p ≤ getNumPorts ethSwitches sw := hp
  rw [SwitchState.allowOnly,if_neg hn]
  simp only [SwitchState.setMembers,Function.update_self,hall,and_self,decide_true,Bool.not_true,Bool.and_false,
    Bool.false_or]

theorem allowOnly_others (h : v ≠ w) (numPorts : ℕ) (ports : List SwitchPort) :
    (x.allowOnly numPorts w ports).members v = x.members v := by
  rw [SwitchState.allowOnly]
  split
  · rfl
  · exact Function.update_of_ne h _ _

theorem allowOnly_untagged (numPorts : ℕ) (ports : List SwitchPort) :
    (x.allowOnly numPorts v ports).untagged = x.untagged := by
  rw [SwitchState.allowOnly]
  split <;> rfl

theorem addPorts_untagged (x : SwitchState) (p : ℕ) :
    (x.addPorts ethSwitches s sw v).untagged p = if Untags ethSwitches s sw v p then v else x.untagged p := by
  rw [SwitchState.addPorts,SwitchState.untag,allowOnly_untagged]
  exact if_congr untags_iff.symm rfl rfl

theorem foldl_others (h : v ∉ vs) (x : SwitchState) :
    (vs.foldl (fun x v => x.addPorts ethSwitches s sw v) x).members v = x.members v := by
  induction vs generalizing x with
  | nil => rfl
  | cons w vs ih =>
    rw [List.mem_cons,not_or] at h
    rw [List.foldl_cons,ih h.2]
    exact allowOnly_others h.1 _ _

theorem foldl_members (hp : OnSwitch ethSwitches sw p) (h : v ∈ vs) (x : SwitchState) :
    (vs.foldl (fun x v => x.addPorts ethSwitches s sw v) x).members v p =
      decide (∃ q ∈ s.switchPorts sw v, q.port = p) := by
  induction vs generalizing x with
  | nil => cases h
  | cons w vs ih =>
    rw [List.foldl_cons]
    by_cases hv : v ∈ vs
    · exact ih hv _
    · obtain rfl : v = w := (List.mem_cons.1 h).resolve_right hv
      rw [foldl_others hv]
      exact allowOnly_members hp _

theorem foldl_untagged_last (x : SwitchState) (p : ℕ) :
    (vs.foldl (fun x v => x.addPorts ethSwitches s sw v) x).untagged p =
      (lastUntagging ethSwitches s sw vs p).getD (x.untagged p) := by
  induction vs generalizing x with
  | nil => rfl
  | cons w vs ih =>
    rw [List.foldl_cons,ih,addPorts_untagged,lastUntagging,lastUntagging,List.filter_cons]
    by_cases hw : Untags ethSwitches s sw w p
    · simp [hw,List.getLast?_cons]
    · simp [hw]

/-- The text of `create_vlans` gives the lists to the switch. -/
theorem hasLists_createText {r : ℕ} (hn : getNumPorts ethSwitches sw < 2 ^ 31)
    (h : ∀ v ∈ (s.object r).activeVlans, ∀ p ∈ s.switchPorts sw v, Writable d p.port) (x : SwitchState) :
    HasLists ethSwitches s sw (s.object r).activeVlans x
      (SwitchState.execute d (createText ethSwitches d s r sw) x) := by
  rw [createText,execute_startCommand (runs_createText hn h)]
  refine ⟨⟨?_,?_⟩,?_⟩
  · intro v hv p hp
    rw [foldl_members hp hv,decide_eq_true_iff]
  · intro v hv
    rw [foldl_others hv]
  · intro p
    rw [foldl_untagged_last]

/-! ### Clearing -/

theorem switchPorts_setVlan (s : VlanSet) (sw : String) (v w : ℕ) (c : Vlan) :
    (s.setVlan v c).switchPorts sw w =
      if w = v then c.ports.filter (fun p => p.switchId == sw) else s.switchPorts sw w := by
  show (Function.update s.vlans v c w).ports.filter (fun p => p.switchId == sw) = _
  by_cases h : w = v
  · rw [if_pos h,h,Function.update_self]
  · rw [if_neg h,Function.update_of_ne h]
    rfl

theorem switchPorts_freeVlan (s : VlanSet) (sw : String) (v w : ℕ) :
    (s.freeVlan v).switchPorts sw w = s.switchPorts sw w := by
  rw [VlanSet.freeVlan]
  split <;> rfl

/-- The ports of the switch are taken off the list. -/
theorem switchPorts_getClearVlanCmd (s : VlanSet) (sw : String) (v w : ℕ) :
    (s.getClearVlanCmd sw v).switchPorts sw w = if w = v then [] else s.switchPorts sw w := by
  rw [getClearVlanCmd_eq]
  split
  case isTrue hnil =>
    split
    case isTrue h => rw [h,hnil]
    case isFalse => rfl
  case isFalse =>
    split
    case isTrue => rw [switchPorts_freeVlan,switchPorts_setVlan,List.filter_nil]
    case isFalse =>
      have hother : (s.otherPorts sw v).filter (fun p => p.switchId == sw) = [] := by
        rw [List.filter_eq_nil_iff]
        intro p hp
        simpa using (List.mem_filter.1 hp).2
      rw [switchPorts_setVlan,hother]

theorem switchPorts_getClearVlanCmd_of_ne {sw' : String} (h : sw' ≠ sw) (s : VlanSet) (v w : ℕ) :
    (s.getClearVlanCmd sw' v).switchPorts sw w = s.switchPorts sw w := by
  have hkeep : (s.otherPorts sw' v).filter (fun p => p.switchId == sw) = s.switchPorts sw v := by
    rw [VlanSet.otherPorts,VlanSet.switchPorts,List.filter_filter]
    apply List.filter_congr
    intro p _
    by_cases hp : p.switchId = sw
    · simp [hp,Ne.symm h]
    · simp [hp]
  rw [getClearVlanCmd_eq]
  split
  case isTrue => rfl
  case isFalse =>
    split
    case isTrue hnil =>
      rw [hnil,List.filter_nil] at hkeep
      rw [switchPorts_freeVlan,switchPorts_setVlan]
      by_cases hw : w = v
      · rw [if_pos hw,hw,← hkeep,List.filter_nil]
      · rw [if_neg hw]
    case isFalse =>
      rw [switchPorts_setVlan]
      by_cases hw : w = v
      · rw [if_pos hw,hw,hkeep]
      · rw [if_neg hw]

theorem switchPorts_clearSwitches {switches : List String} (h : sw ∉ switches) (s : VlanSet) (l : List ℕ) (w : ℕ) :
    (s.clearSwitches switches l).switchPorts sw w = s.switchPorts sw w := by
  have hround : ∀ (sw' : String), sw' ≠ sw → ∀ (l : List ℕ) (s : VlanSet),
      (l.foldl (fun s v => s.getClearVlanCmd sw' v) s).switchPorts sw w = s.switchPorts sw w := by
    intro sw' hne l
    induction l with
    | nil => exact fun _ => rfl
    | cons v l ih =>
      intro s
      rw [List.foldl_cons,ih,switchPorts_getClearVlanCmd_of_ne hne]
  induction switches generalizing s with
  | nil => rfl
  | cons sw' switches ih =>
    rw [List.mem_cons,not_or] at h
    show ((s.clearSwitches [sw'] l).clearSwitches switches l).switchPorts sw w = _
    rw [ih h.2]
    exact hround sw' (Ne.symm h.1) l s

/-- What `get_clear_vlan_cmd` does for a VLAN. -/
def SwitchState.clearPorts (ethSwitches : List SwitchInfo) (s : VlanSet) (sw : String) (v : ℕ) (x : SwitchState) :
    SwitchState :=
  if s.switchPorts sw v = [] then x
  else (x.untag defaultVlan (hostPorts (getManagementPort ethSwitches sw) (s.switchPorts sw v))).allowOnly
    (getNumPorts ethSwitches sw) v []

theorem runs_getClearVlanText (hn : getNumPorts ethSwitches sw < 2 ^ 31)
    (h : ∀ p ∈ s.switchPorts sw v, Writable d p.port) :
    Runs d (getClearVlanText ethSwitches d s sw v) (SwitchState.clearPorts ethSwitches s sw v) := by
  by_cases hnil : s.switchPorts sw v = []
  · have hid : SwitchState.clearPorts ethSwitches s sw v = id := by
      funext x
      exact if_pos hnil
    rw [getClearVlanText,hid]
    simp only [hnil,if_true]
    exact Runs.nil
  · have heffect : SwitchState.clearPorts ethSwitches s sw v =
        SwitchState.allowOnly (getNumPorts ethSwitches sw) v [] ∘ SwitchState.untag defaultVlan
          (hostPorts (getManagementPort ethSwitches sw) (s.switchPorts sw v)) := by
      funext x
      exact if_neg hnil
    rw [getClearVlanText,heffect]
    simp only [hnil,if_false]
    exact (runs_setSwitchPvids d _ _ h).append (runs_setSwitchVlanMembership d v hn (by simp))

/-- What the text of the inner loop of `clear_session` does, from a list of VLANs with ports in `s`. -/
structure ClearSpec (ethSwitches : List SwitchInfo) (d : Dialect) (s : VlanSet) (sw : String) (l : List ℕ)
    (before after : Text × ℕ) (f : SwitchState → SwitchState) : Prop where
  text : ∃ t, after.1 = before.1 ++ t ∧ Runs d t f
  count : before.2 ≤ after.2
  more : ∀ v ∈ l, s.switchPorts sw v ≠ [] → before.2 < after.2
  members : ∀ v ∈ l, s.switchPorts sw v ≠ [] → ∀ x p, OnSwitch ethSwitches sw p → (f x).members v p = false
  stays : ∀ v x p, x.members v p = false → (f x).members v p = false
  untagged : ∀ v ∈ l, ∀ x p, Untags ethSwitches s sw v p → (f x).untagged p = defaultVlan
  default : ∀ x p, x.untagged p = defaultVlan → (f x).untagged p = defaultVlan

theorem clearPorts_members (hne : s.switchPorts sw v ≠ []) (hp : OnSwitch ethSwitches sw p) (x : SwitchState) :
    (x.clearPorts ethSwitches s sw v).members v p = false := by
  rw [SwitchState.clearPorts,if_neg hne,allowOnly_members hp]
  simp

theorem clearPorts_stays (h : x.members w p = false) : (x.clearPorts ethSwitches s sw v).members w p = false := by
  rw [SwitchState.clearPorts]
  split
  · exact h
  by_cases hw : w = v
  · subst hw
    rw [SwitchState.allowOnly]
    split
    · exact h
    · have h : (x.untag defaultVlan (hostPorts (getManagementPort ethSwitches sw) (s.switchPorts sw w))).members w p =
          false := h
      simp [SwitchState.setMembers,h]
  · rw [allowOnly_others hw]
    exact h

theorem clearPorts_untagged (h : Untags ethSwitches s sw v p) (x : SwitchState) :
    (x.clearPorts ethSwitches s sw v).untagged p = defaultVlan := by
  obtain ⟨q,hq,hport,hinter,hne,-⟩ := h
  rw [SwitchState.clearPorts,if_neg (List.ne_nil_of_mem hq),allowOnly_untagged]
  refine if_pos ⟨q,List.mem_filter.2 ⟨hq,?_⟩,hport⟩
  simp [hinter,hne]

theorem clearPorts_default (h : x.untagged p = defaultVlan) :
    (x.clearPorts ethSwitches s sw v).untagged p = defaultVlan := by
  rw [SwitchState.clearPorts]
  split
  · exact h
  · rw [allowOnly_untagged,SwitchState.untag]
    exact ite_eq_left_iff.2 fun _ => h

theorem clearSpec_foldl (hn : getNumPorts ethSwitches sw < 2 ^ 31) {l : List ℕ}
    (h : ∀ v ∈ l, ∀ p ∈ s.switchPorts sw v, Writable d p.port) (before : Text × ℕ) :
    ∃ f, ClearSpec ethSwitches d s sw l before (l.foldl (clearTextRound ethSwitches d sw) (s,before)).2 f := by
  induction l generalizing s before with
  | nil =>
    refine ⟨id,⟨[],(List.append_nil _).symm,Runs.nil⟩,Nat.le_refl _,?_,?_,fun _ _ _ h => h,?_,fun _ _ h => h⟩
    · exact nofun
    · exact nofun
    · exact nofun
  | cons v l ih =>
    have hports := switchPorts_getClearVlanCmd s sw v
    have hl : ∀ w ∈ l, ∀ p ∈ (s.getClearVlanCmd sw v).switchPorts sw w, Writable d p.port := by
      intro w hw p hp
      rw [hports] at hp
      split at hp
      · cases hp
      · exact h w (List.mem_cons_of_mem v hw) p hp
    obtain ⟨f,hf⟩ := ih hl (before.1 ++ getClearVlanText ethSwitches d s sw v,before.2 + (s.switchPorts sw v).length)
    have hv := runs_getClearVlanText hn (h v List.mem_cons_self)
    refine ⟨f ∘ SwitchState.clearPorts ethSwitches s sw v,?_⟩
    constructor
    case text =>
      obtain ⟨t,ht,hrun⟩ := hf.text
      refine ⟨getClearVlanText ethSwitches d s sw v ++ t,?_,hv.append hrun⟩
      rw [← List.append_assoc]
      exact ht
    case count => exact Nat.le_trans (Nat.le_add_right _ _) hf.count
    case more =>
      intro w hw hne
      by_cases heq : w = v
      · subst heq
        exact Nat.lt_of_lt_of_le (Nat.lt_add_of_pos_right (List.length_pos_iff.2 hne)) hf.count
      · have hlt := hf.more w ((List.mem_cons.1 hw).resolve_left heq) (by rwa [hports,if_neg heq])
        exact Nat.lt_of_le_of_lt (Nat.le_add_right _ _) hlt
    case members =>
      intro w hw hne x p hp
      by_cases heq : w = v
      · subst heq
        exact hf.stays w _ p (clearPorts_members hne hp x)
      · exact hf.members w ((List.mem_cons.1 hw).resolve_left heq) (by rwa [hports,if_neg heq]) _ p hp
    case stays =>
      intro w x p hx
      exact hf.stays w _ p (clearPorts_stays hx)
    case untagged =>
      intro w hw x p hu
      by_cases heq : w = v
      · subst heq
        exact hf.default _ p (clearPorts_untagged hu x)
      · refine hf.untagged w ((List.mem_cons.1 hw).resolve_left heq) _ p ?_
        rwa [Untags,hports,if_neg heq]
    case default =>
      intro x p hx
      exact hf.default _ p (clearPorts_default hx)

/-- After the text of `clear_session`, or without one if there were no ports, the switch has let go of the lists, if no
port was in a VLAN that has none in its list. -/
theorem letsGo_clearText {r : ℕ} (hn : getNumPorts ethSwitches sw < 2 ^ 31)
    (h : ∀ v ∈ VlanSet.allRemoved (s.object r), ∀ p ∈ s.switchPorts sw v, Writable d p.port)
    (hvs : ∀ v ∈ vs, v ∈ VlanSet.allRemoved (s.object r))
    (hnone : ∀ v ∈ vs, s.switchPorts sw v = [] → ∀ p, OnSwitch ethSwitches sw p → x.members v p = false) :
    LetsGo ethSwitches s sw vs ((clearText ethSwitches d s r sw).elim x fun t => SwitchState.execute d t x) := by
  let removed := VlanSet.allRemoved (s.object r)
  let t := s.clearSwitches ((s.object r).switches.takeWhile (· ≠ sw)) removed
  have hbefore : sw ∉ (s.object r).switches.takeWhile (· ≠ sw) := by
    intro hmem
    have hne := List.mem_takeWhile_imp hmem
    simp at hne
  have hports : ∀ v, t.switchPorts sw v = s.switchPorts sw v := switchPorts_clearSwitches hbefore s removed
  have huntags : ∀ v p, Untags ethSwitches s sw v p → Untags ethSwitches t sw v p := by
    intro v p hu
    rwa [Untags,hports]
  have hwritable : ∀ v ∈ removed, ∀ p ∈ t.switchPorts sw v, Writable d p.port := by
    intro v hv p hp
    rw [hports] at hp
    exact h v hv p hp
  obtain ⟨f,hf⟩ := clearSpec_foldl hn hwritable (startCommand d,0)
  have hclear : clearText ethSwitches d s r sw =
      if 0 < (removed.foldl (clearTextRound ethSwitches d sw) (t,startCommand d,0)).2.2
      then some (removed.foldl (clearTextRound ethSwitches d sw) (t,startCommand d,0)).2.1 else none := rfl
  rw [hclear]
  split
  case isTrue =>
    obtain ⟨text,htext,hrun⟩ := hf.text
    rw [Option.elim_some,htext,execute_startCommand hrun]
    constructor
    case members =>
      intro v hv p hp
      by_cases hnil : s.switchPorts sw v = []
      · exact hf.stays v _ p (hnone v hv hnil p hp)
      · exact hf.members v (hvs v hv) (by rwa [hports]) _ p hp
    case untagged =>
      intro v hv p hu
      exact hf.untagged v (hvs v hv) _ p (huntags v p hu)
  case isFalse hzero =>
    rw [Option.elim_none]
    have hnil : ∀ v ∈ vs, s.switchPorts sw v = [] := by
      intro v hv
      by_contra hne
      exact hzero (hf.more v (hvs v hv) (by rwa [hports]))
    constructor
    case members =>
      intro v hv p hp
      exact hnone v hv (hnil v hv) p hp
    case untagged =>
      rintro v hv p ⟨q,hq,-⟩
      rw [hnil v hv] at hq
      cases hq

end Lists

/-! ### The lists on the switch -/

section Main

variable (ethSwitches : List SwitchInfo) (s : VlanSet) (r : ℕ) (switchId : String) (x : SwitchState) (d : Dialect)

/-- The switch after the text of `create_vlans`. -/
def created : SwitchState := SwitchState.execute d (createText ethSwitches d s r switchId) x

/-- The switch after the text of `clear_session`, if there is one. -/
def released : SwitchState :=
  (clearText ethSwitches d s r switchId).elim (created ethSwitches s r switchId x d) fun t =>
    SwitchState.execute d t (created ethSwitches s r switchId x d)

/-- The numbers that are kept in an `int` fit into it: the number of ports, and the ports that are written with two
numbers. -/
def SmallNumbers : Prop :=
  getNumPorts ethSwitches switchId < 2 ^ 31 ∧
    ∀ v ∈ VlanSet.allRemoved (s.object r), ∀ q ∈ s.switchPorts switchId v, Writable d q.port

instance : Decidable (SmallNumbers ethSwitches s r switchId d) := inferInstanceAs (Decidable (_ ∧ _))

/-- Between the two texts the switch has the lists of the session, with the untagged VLAN of a port from the last list
that gives it one, and after them none of the lists and the default VLAN for their ports. -/
theorem implements_lists : ∀ d ∈ dialectOf switchId, SmallNumbers ethSwitches s r switchId d →
    HasLists ethSwitches s switchId (s.object r).activeVlans x (created ethSwitches s r switchId x d) ∧
    LetsGo ethSwitches s switchId (s.object r).activeVlans (released ethSwitches s r switchId x d) := by
  rintro d - ⟨hn,hports⟩
  have hactive : ∀ v ∈ (s.object r).activeVlans, v ∈ VlanSet.allRemoved (s.object r) :=
    fun v hv => (mem_allRemoved _ v).2 (.inl hv)
  have hlists : HasLists ethSwitches s switchId (s.object r).activeVlans x (created ethSwitches s r switchId x d) :=
    hasLists_createText hn (fun v hv => hports v (hactive v hv)) x
  refine ⟨hlists,letsGo_clearText hn hports hactive ?_⟩
  intro v hv hnil p hp
  have hno : ¬∃ q ∈ s.switchPorts switchId v, q.port = p := by simp [hnil]
  exact Bool.eq_false_iff.2 fun htrue => hno ((hlists.members v hv p hp).1 htrue)

/-- Every port that a list untags has the VLAN of this list, and the others keep theirs. -/
def EachUntagged (vs : List ℕ) (y : SwitchState) : Prop :=
  (∀ v ∈ vs, ∀ p, Untags ethSwitches s switchId v p → y.untagged p = v) ∧
    ∀ p, (∀ v ∈ vs, ¬Untags ethSwitches s switchId v p) → y.untagged p = x.untagged p

/-- What the lists alone say about a switch. -/
def Implements : Prop :=
  HasMembers ethSwitches s switchId (s.object r).activeVlans x (created ethSwitches s r switchId x d) ∧
    EachUntagged ethSwitches s switchId x (s.object r).activeVlans (created ethSwitches s r switchId x d) ∧
    LetsGo ethSwitches s switchId (s.object r).activeVlans (released ethSwitches s r switchId x d)

end Main

/-- A session with the VLANs 2 and 3 and these ports in them. -/
def sessionWith (ports : List (ℕ × SwitchPort)) : VlanSet :=
  ports.foldl (fun s a => (s.addToVlan a.1 a.2 "lab").1) (((VlanSet.new 2).allocVlan "lab").1.allocVlan "lab").1

/-- A switch that has the ports 1 to 4 in VLAN 2. -/
def oldState : SwitchState where
  members v p := v == 2 && decide (1 ≤ p ∧ p ≤ 4)
  untagged _ := defaultVlan
  mode := .exec

/-- A host, a port with tags, one to another switch and the management port. -/
def mixedPorts : VlanSet := sessionWith
  [(2,⟨"onlsw11",1,false,false⟩),(2,⟨"onlsw11",50,false,true⟩),(2,⟨"onlsw11",52,true,false⟩),
    (3,⟨"onlsw11",4,false,false⟩),(3,⟨"onlsw11",64,false,false⟩)]

theorem implements_mixedPorts :
    HasLists [⟨"onlsw11",64,4⟩] mixedPorts "onlsw11" (mixedPorts.object 0).activeVlans oldState
      (created [⟨"onlsw11",64,4⟩] mixedPorts 0 "onlsw11" oldState .arista64) ∧
    LetsGo [⟨"onlsw11",64,4⟩] mixedPorts "onlsw11" (mixedPorts.object 0).activeVlans
      (released [⟨"onlsw11",64,4⟩] mixedPorts 0 "onlsw11" oldState .arista64) :=
  implements_lists [⟨"onlsw11",64,4⟩] mixedPorts 0 "onlsw11" oldState .arista64 (by decide +kernel) (by decide +kernel)

/-- A host is in two VLANs. -/
def sharedHost : VlanSet := sessionWith [(2,⟨"onlsw7",1,false,false⟩),(3,⟨"onlsw7",1,false,false⟩)]

/-- A port has a number that is negative as an `int`. -/
def negativePort : VlanSet := sessionWith [(2,⟨"onlsw11",5,false,false⟩),(2,⟨"onlsw11",2147483648,false,false⟩)]

/-- A host can have one untagged VLAN only, and numbers from 2147483648 on are written with a sign, for a range of ports
or for a port. -/
theorem lists_not_implemented :
    ¬Implements [⟨"onlsw7",24,0⟩] sharedHost 0 "onlsw7" oldState .arista ∧
    ¬Implements [⟨"onlsw7",2147483648,0⟩] (sessionWith []) 0 "onlsw7" oldState .arista ∧
    ¬Implements [⟨"onlsw11",64,0⟩] negativePort 0 "onlsw11" oldState .arista64 := by
  refine ⟨?_,?_,?_⟩
  · rintro ⟨-,⟨huntagged,-⟩,-⟩
    have hshared : (created [⟨"onlsw7",24,0⟩] sharedHost 0 "onlsw7" oldState .arista).untagged 1 ≠ 2 := by decide +kernel
    exact hshared (huntagged 2 (by decide +kernel) 1 (by decide +kernel))
  · rintro ⟨hmembers,-,-⟩
    have hstays : (created [⟨"onlsw7",2147483648,0⟩] (sessionWith []) 0 "onlsw7" oldState .arista).members 2 1 = true := by
      decide +kernel
    obtain ⟨q,hq,-⟩ := (hmembers.members 2 (by decide +kernel) 1 (by decide +kernel)).1 hstays
    have hnil : (sessionWith []).switchPorts "onlsw7" 2 = [] := by decide +kernel
    rw [hnil] at hq
    cases hq
  · rintro ⟨hmembers,-,-⟩
    have hmissing : (created [⟨"onlsw11",64,0⟩] negativePort 0 "onlsw11" oldState .arista64).members 2 5 ≠ true := by
      decide +kernel
    exact hmissing ((hmembers.members 2 (by decide +kernel) 5 (by decide +kernel)).2 (by decide +kernel))

end OnlDaemons.Nmd

import OnlDaemons.Lib.Run
import Mathlib.Data.List.Basic
import Mathlib.Logic.Function.Basic

/-!
# The VLAN set of nmd

`vlan_set` hands the VLANs of its pool to sessions. A session is cleared in two parts:
`get_clear_vlan_cmd` gives a VLAN back as soon as the commands that clear its last port are
made, then the call waits until the switches have answered, and only then `clear_if_empty`
gives back the VLANs that never had a port. Other calls run in between.

Session objects are shared pointers: an object that was taken off the `sessions` list lives on
as long as a call uses it.

## Main definitions

- `VlanSet` — the pool, the free list, the session objects and the clears under way
- `Op`, `exec`, `Step` — the calls; a `clear_session` is the steps `clearCommands` and
  `clearIfEmpty`, and `vlan_set::clear_session` and `vlan_set::delete_vlan` go on with
  `removeSession`
-/

namespace OnlDaemons.Nmd
open OnlDaemons.Lib

structure SwitchPort where
  switchId : String
  port : ℕ
  isInterswitchPort : Bool
  passTag : Bool
deriving DecidableEq

/-- `switch_port::operator==`, which does not look at `pass_tag`. -/
def SwitchPort.same (p q : SwitchPort) : Bool :=
  p.switchId == q.switchId && p.port == q.port && p.isInterswitchPort == q.isInterswitchPort

structure Vlan where
  inUse : Bool
  ports : List SwitchPort
  sessionID : String

/-- A session object. `returned` only records which VLANs its clear has given back. -/
structure Session where
  sessionID : String
  switches : List String
  activeVlans : List ℕ
  removedVlans : List ℕ
  cleared : Bool
  returned : List ℕ

structure VlanSet where
  numVlans : ℕ
  vlans : ℕ → Vlan
  freeVlans : List ℕ
  object : ℕ → Session
  made : ℕ
  sessions : List ℕ
  clearing : List ℕ

/-- The VLAN ids the constructor numbers, from 2 on. -/
def VlanSet.InPool (s : VlanSet) (v : ℕ) : Prop := 2 ≤ v ∧ v < 2 + s.numVlans

instance (s : VlanSet) (v : ℕ) : Decidable (s.InPool v) := inferInstanceAs (Decidable (_ ∧ _))

/-- The constructor of `vlan_set`. -/
def VlanSet.new (numVlans : ℕ) : VlanSet where
  numVlans := numVlans
  vlans := fun _ => ⟨false, [], ""⟩
  freeVlans := List.range' 2 numVlans
  object := fun _ => ⟨"", [], [], [], false, []⟩
  made := 0
  sessions := []
  clearing := []

namespace VlanSet

def setVlan (s : VlanSet) (v : ℕ) (w : Vlan) : VlanSet :=
  { s with vlans := Function.update s.vlans v w }

def setSession (s : VlanSet) (r : ℕ) (o : Session) : VlanSet :=
  { s with object := Function.update s.object r o }

/-- `vlan_set::free_vlan`. -/
def freeVlan (s : VlanSet) (v : ℕ) : VlanSet :=
  if v ∈ s.freeVlans then s else { s with freeVlans := s.freeVlans ++ [v] }

/-- `vlan_set::get_session`. -/
def getSession (s : VlanSet) (sid : String) : Option ℕ :=
  s.sessions.find? (fun r => (s.object r).sessionID == sid)

/-- `vlan_set::initialize_vlans`. The sessions it drops find nothing to clear any more. -/
def initializeVlans (s : VlanSet) : VlanSet :=
  { s with
    vlans := fun v => { s.vlans v with ports := [], inUse := false }
    sessions := [] }

/-- `session::add_vlan`. -/
def addVlanTo (s : VlanSet) (r v : ℕ) : VlanSet :=
  let o := s.object r
  s.setSession r { o with
    activeVlans := if v ∈ o.activeVlans then o.activeVlans else o.activeVlans ++ [v]
    returned := o.returned.filter (· ≠ v) }

/-- The session `alloc_vlan` creates when there is none for `sid`. -/
def newSession (s : VlanSet) (sid : String) : VlanSet :=
  { s with
    object := Function.update s.object s.made ⟨sid, [], [], [], false, []⟩
    made := s.made + 1
    sessions := s.sessions ++ [s.made] }

/-- `vlan_set::alloc_vlan`; no VLAN is `NO_FREE_VLANS`. -/
def allocVlan (s : VlanSet) (sid : String) : VlanSet × Option ℕ :=
  match s.freeVlans with
  | [] => (s, none)
  | v :: rest =>
    let s := { s with freeVlans := rest }
    if s.InPool v ∧ (s.vlans v).inUse = false then
      let s := s.setVlan v { s.vlans v with inUse := true, sessionID := sid }
      match s.getSession sid with
      | some r => (s.addVlanTo r v, some v)
      | none => ((s.newSession sid).addVlanTo s.made v, some v)
    else (s, none)

/-- `session::add_switch`, which leaves a cleared session as it is. -/
def addSwitch (s : VlanSet) (r : ℕ) (swid : String) : VlanSet :=
  let o := s.object r
  if o.cleared ∨ swid ∈ o.switches then s
  else s.setSession r { o with switches := o.switches ++ [swid] }

/-- `vlan_set::add_to_vlan`. -/
def addToVlan (s : VlanSet) (v : ℕ) (port : SwitchPort) (sid : String) : VlanSet × Bool :=
  match s.getSession sid with
  | none => (s, false)
  | some r =>
    let cur := s.vlans v
    if cur.inUse = false then (s, false)
    else if cur.sessionID = sid then
      ((s.setVlan v { cur with ports := cur.ports ++ [port] }).addSwitch r port.switchId, true)
    else (s, false)

/-- `vlan_set::delete_from_vlan`. -/
def deleteFromVlan (s : VlanSet) (v : ℕ) (port : SwitchPort) (sid : String) : VlanSet × Bool :=
  let cur := s.vlans v
  if cur.inUse = false then (s, false)
  else if cur.sessionID = sid then
    (s.setVlan v { cur with ports := cur.ports.filter (fun p => !p.same port) }, true)
  else (s, false)

/-- The part of `session::remove_vlan` under the session's lock. -/
def removeVlan (s : VlanSet) (r v : ℕ) : VlanSet :=
  let o := s.object r
  if v ∈ o.activeVlans then
    s.setSession r { o with
      activeVlans := o.activeVlans.filter (· ≠ v)
      removedVlans := o.removedVlans ++ [v] }
  else s

/-- `vlan::get_clear_vlan_cmd`: take the ports of one switch off the VLAN and give it back
when no port is left. -/
def getClearVlanCmd (s : VlanSet) (switchId : String) (v : ℕ) : VlanSet :=
  let cur := s.vlans v
  let removals := cur.ports.filter (fun p => p.switchId == switchId)
  if removals = [] then s
  else
    let ports := removals.foldl (fun ports p => ports.filter (fun q => !q.same p)) cur.ports
    if ports = [] then (s.setVlan v ⟨false, [], ""⟩).freeVlan v
    else s.setVlan v { cur with ports := ports }

/-- `vlan::clear_if_empty`. -/
def clearIfEmptyVlan (s : VlanSet) (v : ℕ) : VlanSet :=
  let cur := s.vlans v
  if cur.inUse = true ∧ cur.ports = [] then
    (s.setVlan v { cur with inUse := false, sessionID := "" }).freeVlan v
  else s

/-- The removed list of `clear_session` after the active VLANs were put on it. -/
def allRemoved (o : Session) : List ℕ :=
  o.activeVlans.foldl (fun l v => if v ∈ l then l else l ++ [v]) o.removedVlans

/-- The loops of `clear_session` over the switches and the removed VLANs. -/
def clearSwitches (s : VlanSet) (switches : List String) (removed : List ℕ) : VlanSet :=
  switches.foldl (fun s sw => removed.foldl (fun s v => s.getClearVlanCmd sw v) s) s

/-- The VLANs of the list that are not in use, so that nobody has to give them back. -/
def notInUse (s : VlanSet) (l : List ℕ) : List ℕ := l.filter (fun v => !(s.vlans v).inUse)

/-- `session::clear_session` up to the commands it starts; a cleared session is left alone. -/
def clearCommands (s : VlanSet) (r : ℕ) : VlanSet :=
  let o := s.object r
  if o.cleared then s
  else
    let removed := allRemoved o
    let t := s.clearSwitches o.switches removed
    { t.setSession r { o with
        removedVlans := removed
        cleared := true
        returned := t.notInUse removed } with clearing := r :: s.clearing }

/-- The rest of `session::clear_session`, after all commands have returned. -/
def clearIfEmpty (s : VlanSet) (r : ℕ) : VlanSet :=
  let o := s.object r
  let t := o.removedVlans.foldl clearIfEmptyVlan s
  { t.setSession r { o with returned := o.returned ++ t.notInUse o.removedVlans } with
    clearing := s.clearing.filter (· ≠ r) }

/-- `vlan_set::remove_session`. -/
def removeSession (s : VlanSet) (r : ℕ) : VlanSet :=
  { s with sessions := s.sessions.filter (· ≠ r) }

end VlanSet

inductive Op
  | initializeVlans
  | allocVlan (sid : String)
  | addToVlan (v : ℕ) (port : SwitchPort) (sid : String)
  | deleteFromVlan (v : ℕ) (port : SwitchPort) (sid : String)
  | removeVlan (v : ℕ) (sid : String)
  | clearCommands (r : ℕ)
  | clearIfEmpty (r : ℕ)
  | removeSession (r : ℕ)

/-- One step of the daemon; `none` when it cannot happen. A VLAN outside the pool crashes the
daemon, `remove_vlan` has to wait for the session's lock while a clear holds it, and
`remove_session` is called for cleared sessions. -/
def exec (s : VlanSet) : Op → Option VlanSet
  | .initializeVlans => some s.initializeVlans
  | .allocVlan sid => some (s.allocVlan sid).1
  | .addToVlan v port sid =>
    if s.getSession sid = none ∨ s.InPool v then some (s.addToVlan v port sid).1 else none
  | .deleteFromVlan v port sid =>
    if s.InPool v then some (s.deleteFromVlan v port sid).1 else none
  | .removeVlan v sid =>
    match s.getSession sid with
    | none => some s
    | some r => if r ∈ s.clearing then none else some (s.removeVlan r v)
  | .clearCommands r => if r < s.made then some (s.clearCommands r) else none
  | .clearIfEmpty r => if r ∈ s.clearing then some (s.clearIfEmpty r) else none
  | .removeSession r => if (s.object r).cleared then some (s.removeSession r) else none

def Step (s : VlanSet) (op : Op) (s' : VlanSet) : Prop := exec s op = some s'

/-- The run of a list of steps, as far as they can happen. -/
def steps (s : VlanSet) : List Op → List (Op × VlanSet)
  | [] => []
  | op :: ops =>
    match exec s op with
    | none => []
    | some s' => (op,s') :: steps s' ops

theorem isRun_steps (s : VlanSet) (ops : List Op) : IsRun Step s (steps s ops) := by
  induction ops generalizing s with
  | nil => trivial
  | cons op ops ih =>
    unfold steps
    split
    · trivial
    · next s' h => exact ⟨h,ih s'⟩

end OnlDaemons.Nmd

import OnlDaemons.Lib.Registry
import OnlDaemons.Shared.OnlTypes
import Mathlib.Data.Finset.Insert
import Mathlib.Data.List.Sort

/-!
# The session manager of vmbase

Every request is handled in a thread of its own. `session_lock` is held while the sessions are searched, while one is
listed, and in all of `deleteVM` after its search; `vmname_lock` is held while a name is assigned or released. The
lists of a session have no lock. The last pointer to a session clears it.

## Main definitions

- `VmPlace` — how far the handling of a request has come
- `VmDaemon`, `VmDaemon.step` — the sessions, the names and the threads
-/

namespace OnlDaemons.Vmbase
open OnlDaemons.Lib OnlDaemons.Shared

abbrev VmName := List Char

/-- What `experiment_info::operator==` compares. -/
def expKey (e : ExperimentInfo) : List UInt8 × List UInt8 × List UInt8 :=
  (e.ID.getString,e.expName.getString,e.userName.getString)

/-- `vminterface_info`, with the address of the object. -/
structure VmInterface where
  address : ℕ
  ninfo : NodeInfo
deriving DecidableEq, Repr

structure VmInfo where
  name : VmName
  comp : Component
  interfaces : List VmInterface
deriving DecidableEq, Repr

structure Vlan where
  id : UInt32
  interfaces : List VmInterface
deriving DecidableEq, Repr

/-- The VMs are listed by the addresses of their objects. -/
structure Session where
  expInfo : ExperimentInfo
  vms : List ℕ
  vlans : List Vlan
deriving DecidableEq, Repr

/-- `session::getVLan` adds a vlan that is not there. -/
def getVLan (id : UInt32) (vlans : List Vlan) : List Vlan :=
  if vlans.any fun vlan => vlan.id = id then vlans else vlans ++ [⟨id,[]⟩]

/-- An interface is added to its vlan, as `startVM` does. -/
def plug (itf : VmInterface) (vlans : List Vlan) : List Vlan :=
  modifyByKey Vlan.id itf.ninfo.vlanid (fun vlan => { vlan with interfaces := vlan.interfaces ++ [itf] })
    (getVLan itf.ninfo.vlanid vlans)

/-- An interface is taken from its vlan, and the vlan goes with its last interface, as `removeVM` does. What the
script `cleanup_vlan.sh` returns is not looked at. -/
def unplug (itf : VmInterface) (vlans : List Vlan) : List Vlan :=
  let left := modifyByKey Vlan.id itf.ninfo.vlanid
    (fun vlan => { vlan with interfaces := vlan.interfaces.filter fun i => i.address ≠ itf.address })
    (getVLan itf.ninfo.vlanid vlans)
  match left.find? fun vlan => vlan.id = itf.ninfo.vlanid with
  | some vlan => if vlan.interfaces = [] then removeByKey Vlan.id vlan.id left else left
  | none => left

inductive VmRequest
  | startExperiment (comp : Component) (expInfo : ExperimentInfo)
  | configureNode (comp : Component) (expInfo : ExperimentInfo) (ninfo : NodeInfo)
  | endConfigureNode (comp : Component) (expInfo : ExperimentInfo)
  | refresh (comp : Component) (expInfo : ExperimentInfo)
deriving DecidableEq, Repr

namespace VmRequest

def expInfo : VmRequest → ExperimentInfo
  | startExperiment _ e | configureNode _ e _ | endConfigureNode _ e | refresh _ e => e

/-- A refresh without an experiment is for the machine. -/
def reboots : VmRequest → Bool
  | refresh _ e => e.ID.getString = []
  | _ => false

end VmRequest

/-- A run of `session::clear`. `all` and `ran` are a record: the VMs there were, and those `removeVM` has been
called for. -/
structure Clear where
  destructor : Bool
  all : List ℕ
  ran : List ℕ
deriving DecidableEq, Repr

/-- Who has called `removeVM`. -/
inductive Caller
  | deleteVM
  | clear (k : Clear)
deriving DecidableEq, Repr

/-- `p` is a session, `v` a VM. `undefined`: after the use of a null pointer or `pop_front` of an empty list. -/
inductive VmPlace
  | idle
  | arrived (r : VmRequest)
  | creating (c : Component) (e : ExperimentInfo)
  | adding (p : ℕ) (c : Component)
  | assigning (p v : ℕ)
  | pushing (p v : ℕ)
  | configuring (p : ℕ) (c : Component) (ninfo : NodeInfo)
  | plugging (p v : ℕ) (ninfo : NodeInfo)
  | ending (p : ℕ) (c : Component)
  | starting (p v i : ℕ)
  | locking (p : ℕ) (c : Component)
  | deleting (p : ℕ) (c : Component)
  | removing (p v i : ℕ) (k : Caller)
  | undefining (p v : ℕ) (k : Caller)
  | releasing (p v : ℕ) (k : Caller)
  | unlinking (p v : ℕ) (k : Caller)
  | checking (p : ℕ)
  | clearing (p : ℕ) (k : Clear)
  | popping (p : ℕ) (k : Clear)
  | retiring (p : ℕ)
  | leaving (p : ℕ)
  | undefined
deriving DecidableEq, Repr

/-- The session that a thread has a pointer to. The destructor has none. -/
def VmPlace.session : VmPlace → Option ℕ
  | adding p _ | assigning p _ | pushing p _ | configuring p _ _ | plugging p _ _ | ending p _ | starting p _ _
  | locking p _ | deleting p _ | checking p | retiring p | leaving p => some p
  | removing p _ _ k | undefining p _ k | releasing p _ k | unlinking p _ k =>
    match k with
    | .clear ⟨true,_,_⟩ => none
    | _ => some p
  | clearing p k | popping p k => if k.destructor then none else some p
  | _ => none

/-- `vmnames` are the keys of the map and `inUse` its values. `cleared` records the calls of `clear` that have
returned. -/
structure VmDaemon (T : Type) where
  vmnames : List VmName
  inUse : VmName → Bool
  activeSessions : List ℕ
  session : ℕ → Session
  vm : ℕ → VmInfo
  next : ℕ
  sessionLock : Option T
  threads : Finset T
  place : T → VmPlace
  cleared : List (List ℕ × List ℕ)

/-- `ok`: a script that the step runs succeeds. -/
inductive VmAct (T : Type)
  | arrive (t : T) (r : VmRequest)
  | go (t : T) (ok : Bool)
deriving DecidableEq, Repr

/-- `vm12c`, the number of the host, `v` and two digits. -/
def vmname (id : List Char) (i : ℕ) : VmName :=
  ['v','m','1','2','c'] ++ id ++ ['v'] ++ (if i < 10 then ['0'] else []) ++ Nat.toDigits 10 i

namespace VmDaemon

variable {T : Type} [DecidableEq T]

def init (id : List Char) : VmDaemon T where
  vmnames := (List.range' 1 24).map (vmname id)
  inUse _ := false
  activeSessions := []
  session _ := ⟨⟨.empty,.empty,.empty⟩,[],[]⟩
  vm _ := ⟨[],⟨.empty,0,0,.empty,.empty,false⟩,[]⟩
  next := 0
  sessionLock := none
  threads := ∅
  place _ := .idle
  cleared := []

def goto (s : VmDaemon T) (t : T) (p : VmPlace) : VmDaemon T :=
  { s with threads := insert t s.threads, place := Function.update s.place t p }

def modifySession (s : VmDaemon T) (p : ℕ) (f : Session → Session) : VmDaemon T :=
  { s with session := Function.update s.session p (f (s.session p)) }

def modifyVm (s : VmDaemon T) (v : ℕ) (f : VmInfo → VmInfo) : VmDaemon T :=
  { s with vm := Function.update s.vm v (f (s.vm v)) }

def getSession (s : VmDaemon T) (e : ExperimentInfo) : Option ℕ :=
  s.activeSessions.find? fun p => expKey (s.session p).expInfo = expKey e

/-- `session::getVM`. -/
def getVM (s : VmDaemon T) (p : ℕ) (c : Component) : Option ℕ :=
  (s.session p).vms.find? fun v => (s.vm v).comp.id = c.id

/-- The second half of `addSession`. -/
def createSession (s : VmDaemon T) (t : T) (c : Component) (e : ExperimentInfo) : VmDaemon T :=
  goto
    { s with
      session := Function.update s.session s.next ⟨e,[],[]⟩
      activeSessions := s.activeSessions ++ [s.next]
      next := s.next + 1 }
    t (.adding s.next c)

/-- `addVM` up to the call of `assignVM`. -/
def addVM (s : VmDaemon T) (t : T) (p : ℕ) (c : Component) : VmDaemon T :=
  match s.getVM p c with
  | some _ => s.goto t (.leaving p)
  | none =>
    goto
      { s with
        vm := Function.update s.vm s.next ⟨[],c,[]⟩
        next := s.next + 1 }
      t (.assigning p s.next)

def takeName (s : VmDaemon T) (v : ℕ) (nm : VmName) : VmDaemon T :=
  { s.modifyVm v fun vm => { vm with name := nm } with
    inUse := Function.update s.inUse nm true }

/-- `assignVM` takes the first name that is not in use. -/
def assignVM (s : VmDaemon T) (t : T) (p v : ℕ) : VmDaemon T :=
  match s.vmnames.find? fun nm => !s.inUse nm with
  | some nm => (s.takeName v nm).goto t (.pushing p v)
  | none => (s.modifyVm v fun vm => { vm with name := [] }).goto t (.leaving p)

/-- `configureVM` after its search for the VM. -/
def configureVM (s : VmDaemon T) (t : T) (p v : ℕ) (ninfo : NodeInfo) : VmDaemon T :=
  if (s.vm v).interfaces.any fun itf => itf.ninfo.port = ninfo.port then s.goto t (.leaving p)
  else
    goto
      { s.modifyVm v fun vm => { vm with interfaces := vm.interfaces ++ [⟨s.next,ninfo⟩] } with
        next := s.next + 1 }
      t (.leaving p)

/-- `releaseVMname`. The map gets the key if it has not got it. -/
def releaseVMname (s : VmDaemon T) (nm : VmName) : VmDaemon T :=
  { s with
    vmnames := if nm ∈ s.vmnames then s.vmnames else s.vmnames.orderedInsert (· < ·) nm
    inUse := Function.update s.inUse nm false }

def unlock (s : VmDaemon T) : VmDaemon T := { s with sessionLock := none }

/-- `removeVM` has returned false, as the script `undefine_vm.sh` has failed. -/
def removeFailed (s : VmDaemon T) (t : T) (p : ℕ) : Caller → VmDaemon T
  | .deleteVM => s.unlock.goto t (.leaving p)
  | .clear k => s.goto t (.popping p k)

/-- `removeVM` has returned true. -/
def removed (s : VmDaemon T) (t : T) (p : ℕ) : Caller → VmDaemon T
  | .deleteVM => s.goto t (.checking p)
  | .clear k => s.goto t (.popping p k)

/-- What the session manager does with a request before or after the search for its session. -/
def lookup (s : VmDaemon T) (t : T) (r : VmRequest) : VmDaemon T :=
  match s.getSession r.expInfo, r with
  | some p, .startExperiment c _ => s.goto t (.adding p c)
  | some p, .configureNode c _ ninfo => s.goto t (.configuring p c ninfo)
  | some p, .endConfigureNode c _ => s.goto t (.ending p c)
  | some p, .refresh c _ => s.goto t (.locking p c)
  | none, .startExperiment c e => s.goto t (.creating c e)
  | none, .configureNode .. => s.goto t .idle
  -- `getVM` is called before the test of the pointer
  | none, .endConfigureNode .. => s.goto t .undefined
  | none, .refresh .. => s.goto t .idle

/-- A round of the loop of `session::clear`. -/
def clearRound (s : VmDaemon T) (t : T) (p : ℕ) (k : Clear) : VmDaemon T :=
  match (s.session p).vms with
  | [] =>
    goto { s with cleared := s.cleared ++ [(k.all,k.ran)] } t (if k.destructor then .idle else .retiring p)
  | v :: _ => s.goto t (.removing p v 0 (.clear { k with ran := k.ran ++ [v] }))

/-- The pointer to a session is dropped, and the session destroyed if there is no other. -/
def leave (s : VmDaemon T) (t : T) (p : ℕ) : VmDaemon T :=
  if p ∈ s.activeSessions ∨ ∃ t' ∈ s.threads, t' ≠ t ∧ (s.place t').session = some p then s.goto t .idle
  else s.goto t (.clearing p ⟨true,(s.session p).vms,[]⟩)

def advance (s : VmDaemon T) (t : T) (ok : Bool) : VmPlace → Option (VmDaemon T)
  | .idle | .undefined => none
  | .arrived r =>
    if r.reboots then some (s.goto t .idle)
    else if s.sessionLock = none then some (s.lookup t r) else none
  | .creating c e => if s.sessionLock = none then some (s.createSession t c e) else none
  | .adding p c => some (s.addVM t p c)
  | .assigning p v => some (s.assignVM t p v)
  | .pushing p v =>
    some ((s.modifySession p fun x => { x with vms := x.vms ++ [v] }).goto t (.leaving p))
  | .configuring p c ninfo =>
    match s.getVM p c with
    | some v => some (s.goto t (.plugging p v ninfo))
    | none => some (s.goto t (.leaving p))
  | .plugging p v ninfo => some (s.configureVM t p v ninfo)
  | .ending p c =>
    match s.getVM p c with
    | some v => some (s.goto t (.starting p v 0))
    | none => some (s.goto t .undefined)
  | .starting p v i =>
    match (s.vm v).interfaces[i]? with
    | some itf =>
      some ((s.modifySession p fun x => { x with vlans := plug itf x.vlans }).goto t (.starting p v (i + 1)))
    -- the scripts that start the VM decide on the answer only
    | none => some (s.goto t (.leaving p))
  | .locking p c =>
    if s.sessionLock = none then some (goto { s with sessionLock := some t } t (.deleting p c)) else none
  | .deleting p c =>
    match s.getVM p c with
    | some v => some (s.goto t (.removing p v 0 .deleteVM))
    | none => some (s.goto t (.checking p))
  | .removing p v i k =>
    match (s.vm v).interfaces[i]? with
    | some itf =>
      some ((s.modifySession p fun x => { x with vlans := unplug itf x.vlans }).goto t (.removing p v (i + 1) k))
    | none => some (s.goto t (.undefining p v k))
  | .undefining p v k => if ok then some (s.goto t (.releasing p v k)) else some (s.removeFailed t p k)
  | .releasing p v k => some ((s.releaseVMname (s.vm v).name).goto t (.unlinking p v k))
  | .unlinking p v k =>
    some ((s.modifySession p fun x => { x with vms := x.vms.filter (· ≠ v) }).removed t p k)
  | .checking p =>
    if (s.session p).vms = [] then some (s.goto t (.clearing p ⟨false,(s.session p).vms,[]⟩))
    else some (s.unlock.goto t (.leaving p))
  | .clearing p k => some (s.clearRound t p k)
  | .popping p k =>
    match (s.session p).vms with
    | [] => some (s.goto t .undefined)
    | _ :: l => some ((s.modifySession p fun x => { x with vms := l }).goto t (.clearing p k))
  | .retiring p =>
    some (goto { s.unlock with activeSessions := s.activeSessions.filter (· ≠ p) } t (.leaving p))
  | .leaving p => some (s.leave t p)

def step (s : VmDaemon T) : VmAct T → Option (VmDaemon T)
  | .arrive t r =>
    match s.place t with
    | .idle => some (s.goto t (.arrived r))
    | _ => none
  | .go t ok => s.advance t ok (s.place t)

/-- No request is in progress. -/
def Quiet (s : VmDaemon T) : Prop := ∀ t, s.place t = .idle

end VmDaemon
end OnlDaemons.Vmbase

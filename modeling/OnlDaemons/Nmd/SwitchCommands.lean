import OnlDaemons.Nmd.VlanSet

/-!
# The switch commands of nmd

`create_vlans_threaded` and `clear_session_threaded` go through the switches of their session
with the session's lock held. For each switch they make one command and start a thread that sends
it, and then they wait until all their commands have returned. What the commands do to the
switches happens in between, while other requests are handled.

## Main definitions

- `Net` — the VLAN set, the calls that hold or wait for the lock of a session, the commands that
  were sent and not executed, and the ports that each switch has in each VLAN
- `NetStep` — a request up to the lock of its session, one switch of a loop, a command executed
- `Isolated`, `HandedOver` — the ports a VLAN has in the switches are those of one session, and a
  VLAN is handed to a session when no switch has ports of another one in it any more
- `Orderly` — the steps that keep it so
-/

namespace OnlDaemons.Nmd

open OnlDaemons.Lib

/-- A port in a VLAN of a switch, with the session that put it there. -/
structure Member where
  port : SwitchPort
  putBy : String
deriving DecidableEq

/-- What a command says about VLANs: no port of the switch is in `v`, some ports are, no port is
in any VLAN. -/
inductive Line where
  | removeVlan (v : ℕ)
  | addVlan (v : ℕ) (ports : List Member)
  | allowNone
deriving DecidableEq

def Line.run (m : ℕ → List Member) : Line → ℕ → List Member
  | removeVlan v => Function.update m v []
  | addVlan v ports => Function.update m v (m v ++ ports)
  | allowNone => fun _ => []

/-- The loop a command comes from, with its session object. -/
inductive Sender where
  | create (r : ℕ)
  | clear (r : ℕ)
  | initSwitch
deriving DecidableEq

structure SwitchCmd where
  sender : Sender
  lines : List Line
deriving DecidableEq

/-- A loop over the switches that has these switches still to go through. -/
inductive Job where
  | create (todo : List String)
  | clear (todo : List String)
deriving DecidableEq

/-- The methods of a session that take its lock. -/
inductive Call where
  | addVlan (v : ℕ)
  | addSwitch (swid : String)
  | removeVlan (v : ℕ)
  | createVlans
  | clearSession
deriving DecidableEq

structure Net where
  set : VlanSet
  /-- The switches with a number of ports in `switch_info_set`. -/
  ethSwitches : List String
  /-- The calls that have a session object and wait for its lock. -/
  waiting : List (ℕ × Call)
  job : ℕ → Option Job
  queue : String → List SwitchCmd
  members : String → ℕ → List Member
  /-- The session whose `add_to_vlan` put the port in the VLAN last. -/
  putBy : ℕ → SwitchPort → String

namespace VlanSet

/-- `vlan_set::alloc_vlan` up to `session::add_vlan`, with the object and the VLAN for that. -/
def takeVlan (s : VlanSet) (sid : String) : VlanSet × Option (ℕ × ℕ) :=
  match s.freeVlans with
  | [] => (s, none)
  | v :: rest =>
    let s := { s with freeVlans := rest }
    if s.InPool v ∧ (s.vlans v).inUse = false then
      let s := s.setVlan v { s.vlans v with inUse := true, sessionID := sid }
      match s.getSession sid with
      | some r => (s, some (r, v))
      | none => (s.newSession sid, some (s.made, v))
    else (s, none)

/-- `session::clear_session` up to its loop over the switches. -/
def beginClear (s : VlanSet) (r : ℕ) : VlanSet :=
  let o := s.object r
  { s.setSession r { o with removedVlans := allRemoved o, cleared := true } with
    clearing := r :: s.clearing }

/-- `vlan::get_switch_ports`. -/
def switchPorts (s : VlanSet) (switchId : String) (v : ℕ) : List SwitchPort :=
  (s.vlans v).ports.filter (fun p => p.switchId == switchId)

end VlanSet

namespace Net

variable (n : Net)

/-- The daemon as it starts. -/
def new (numVlans : ℕ) : Net where
  set := VlanSet.new numVlans
  ethSwitches := []
  waiting := []
  job := fun _ => none
  queue := fun _ => []
  members := fun _ _ => []
  putBy := fun _ _ => ""

/-- `set_switch_vlan_membership`: first all ports of the switch leave the VLAN, then the given
ones enter it. A switch without a number of ports gets nothing. -/
def setSwitchVlanMembership (switchPorts : List Member) (switchId : String) (v : ℕ) : List Line :=
  if switchId ∈ n.ethSwitches then
    .removeVlan v :: if switchPorts = [] then [] else [.addVlan v switchPorts]
  else []

/-- `vlan::get_add_ports_cmd`. -/
def getAddPortsCmd (switchId : String) (v : ℕ) : List Line :=
  n.setSwitchVlanMembership
    ((n.set.switchPorts switchId v).map fun p => ⟨p, n.putBy v p⟩) switchId v

/-- The command of `create_vlans` for one switch. -/
def createCmd (r : ℕ) (switchId : String) : SwitchCmd where
  sender := .create r
  lines := (n.set.object r).activeVlans.flatMap (n.getAddPortsCmd switchId)

/-- One round of the inner loop of `clear_session`, with the lines and the number of ports that
`get_clear_vlan_cmd` adds to the command and to `num_rm`. -/
def clearRound (switchId : String) (acc : VlanSet × List Line × ℕ) (v : ℕ) :
    VlanSet × List Line × ℕ :=
  let pvidPorts := acc.1.switchPorts switchId v
  (acc.1.getClearVlanCmd switchId v,
    if pvidPorts = [] then acc.2.1 else acc.2.1 ++ n.setSwitchVlanMembership [] switchId v,
    acc.2.2 + pvidPorts.length)

/-- The inner loop of `clear_session`, for one switch. -/
def clearLoop (r : ℕ) (switchId : String) : VlanSet × List Line × ℕ :=
  (n.set.object r).removedVlans.foldl (n.clearRound switchId) (n.set,[],0)

/-- A thread sends the command to the switch. -/
def send (switchId : String) (c : SwitchCmd) : Net :=
  { n with queue := Function.update n.queue switchId (n.queue switchId ++ [c]) }

/-- The command of `clear_session` for one switch, which is not sent when no port is left. -/
def clearSwitch (r : ℕ) (switchId : String) : Net :=
  let loop := n.clearLoop r switchId
  let t := { n with set := loop.1 }
  if 0 < loop.2.2 then t.send switchId ⟨.clear r, loop.2.1⟩ else t

/-- What a call does when it gets the lock of its session. -/
def perform (r : ℕ) : Call → Net
  | .addVlan v => { n with set := n.set.addVlanTo r v }
  | .addSwitch swid => { n with set := n.set.addSwitch r swid }
  | .removeVlan v =>
    let t := n.set.removeVlan r v
    { n with
      set := t
      waiting := if (t.object r).activeVlans = [] then n.waiting ++ [(r,.clearSession)]
        else n.waiting }
  | .createVlans =>
    if (n.set.object r).cleared then n
    else { n with job := Function.update n.job r (some (.create (n.set.object r).switches)) }
  | .clearSession =>
    if (n.set.object r).cleared then n
    else { n with
      set := n.set.beginClear r
      job := Function.update n.job r (some (.clear (n.set.object r).switches)) }

/-- Every command of the loop of this session has returned. -/
def Returned (r : ℕ) : Prop :=
  ∀ sw, ∀ c ∈ n.queue sw, c.sender ≠ .create r ∧ c.sender ≠ .clear r

end Net

inductive Event where
  | addVlan (sid : String)
  | deleteVlan (v : ℕ) (sid : String)
  | addToVlan (v : ℕ) (port : SwitchPort) (sid : String)
  | startSession (sid : String)
  | endSession (sid : String)
  | initSwitches (switches : List String)
  | initVlans
  | enter (r : ℕ) (call : Call)
  | nextSwitch (r : ℕ)
  | finish (r : ℕ)
  | removeSession (r : ℕ)
  | execute (sw : String)
  | fail (sw : String)
deriving DecidableEq

inductive NetStep : Net → Event → Net → Prop
  -- a request goes as far as the lock of its session object, if there is one
  | addVlan {n : Net} {sid : String} :
    NetStep n (.addVlan sid)
      { n with
        set := (n.set.takeVlan sid).1
        waiting := n.waiting ++ (n.set.takeVlan sid).2.toList.map fun x => (x.1,.addVlan x.2) }
  | deleteVlan {n : Net} {v : ℕ} {sid : String} :
    NetStep n (.deleteVlan v sid)
      { n with waiting := n.waiting ++ (n.set.getSession sid).toList.map (·,.removeVlan v) }
  | addToVlan {n : Net} {v r : ℕ} {port : SwitchPort} {sid : String}
    (hr : n.set.getSession sid = some r) (hv : n.set.InPool v)
    (hu : (n.set.vlans v).inUse = true) (hsid : (n.set.vlans v).sessionID = sid) :
    NetStep n (.addToVlan v port sid)
      { n with
        set := n.set.setVlan v { n.set.vlans v with ports := (n.set.vlans v).ports ++ [port] }
        waiting := n.waiting ++ [(r,.addSwitch port.switchId)]
        putBy := Function.update n.putBy v (Function.update (n.putBy v) port sid) }
  | addToVlanFails {n : Net} {v : ℕ} {port : SwitchPort} {sid : String}
    (h : n.set.getSession sid = none ∨ n.set.InPool v ∧
      ((n.set.vlans v).inUse = false ∨ (n.set.vlans v).sessionID ≠ sid)) :
    NetStep n (.addToVlan v port sid) n
  | startSession {n : Net} {sid : String} :
    NetStep n (.startSession sid)
      { n with waiting := n.waiting ++ (n.set.getSession sid).toList.map (·,.createVlans) }
  | endSession {n : Net} {sid : String} :
    NetStep n (.endSession sid)
      { n with waiting := n.waiting ++ (n.set.getSession sid).toList.map (·,.clearSession) }
  -- the two parts of `initialize_req`; its threads wait for the switches in between
  | initSwitches {n : Net} {switches : List String} :
    NetStep n (.initSwitches switches)
      { n with
        ethSwitches := switches
        queue := fun sw => if sw ∈ switches then n.queue sw ++ [⟨.initSwitch,[.allowNone]⟩]
          else n.queue sw }
  | initVlans {n : Net} (h : ∀ sw, ∀ c ∈ n.queue sw, c.sender ≠ .initSwitch) :
    NetStep n .initVlans
      { n with
        set := n.set.initializeVlans
        waiting := n.waiting ++ n.set.sessions.map (·,.clearSession) }
  -- the lock of a session is free when no loop of it runs
  | enter {n : Net} {r : ℕ} {call : Call} (hw : (r,call) ∈ n.waiting) (hj : n.job r = none) :
    NetStep n (.enter r call) ({ n with waiting := n.waiting.erase (r,call) }.perform r call)
  | createSwitch {n : Net} {r : ℕ} {sw : String} {todo : List String}
    (hj : n.job r = some (.create (sw :: todo))) :
    NetStep n (.nextSwitch r)
      { n.send sw (n.createCmd r sw) with job := Function.update n.job r (some (.create todo)) }
  | clearSwitch {n : Net} {r : ℕ} {sw : String} {todo : List String}
    (hj : n.job r = some (.clear (sw :: todo))) :
    NetStep n (.nextSwitch r)
      { n.clearSwitch r sw with job := Function.update n.job r (some (.clear todo)) }
  | created {n : Net} {r : ℕ} (hj : n.job r = some (.create [])) (hq : n.Returned r) :
    NetStep n (.finish r) { n with job := Function.update n.job r none }
  | cleared {n : Net} {r : ℕ} (hj : n.job r = some (.clear [])) (hq : n.Returned r) :
    NetStep n (.finish r)
      { n with
        set := n.set.clearIfEmpty r
        job := Function.update n.job r none }
  | removeSession {n : Net} {r : ℕ} (h : (n.set.object r).cleared = true) :
    NetStep n (.removeSession r) { n with set := n.set.removeSession r }
  -- a switch takes its commands in the order they were sent; of a command that fails, any of its
  -- lines may have taken effect
  | execute {n : Net} {sw : String} {c : SwitchCmd} {cs : List SwitchCmd}
    (hq : n.queue sw = c :: cs) :
    NetStep n (.execute sw)
      { n with
        queue := Function.update n.queue sw cs
        members := Function.update n.members sw (c.lines.foldl Line.run (n.members sw)) }
  | fail {n : Net} {sw : String} {c : SwitchCmd} {cs : List SwitchCmd} {lines : List Line}
    (hq : n.queue sw = c :: cs) (hl : lines.Sublist c.lines) :
    NetStep n (.fail sw)
      { n with
        queue := Function.update n.queue sw cs
        members := Function.update n.members sw (lines.foldl Line.run (n.members sw)) }

/-- A command of a clear that takes the switch's ports off the VLAN. -/
def SwitchCmd.Clears (c : SwitchCmd) (r v : ℕ) : Prop :=
  c.sender = .clear r ∧ .removeVlan v ∈ c.lines

/-- `add_vlan` does not take a VLAN that a clear still under way has on its removed list, the
commands of a clear do not fail, and `initialize` does not leave out a switch. -/
def Orderly (n : Net) : Event → Prop
  | .addVlan _ => ∀ v, n.set.freeVlans.head? = some v →
      ∀ r ∈ n.set.clearing, v ∉ (n.set.object r).removedVlans
  | .fail sw => ∀ c, (n.queue sw).head? = some c → ∀ r, c.sender ≠ .clear r
  | .initSwitches switches => n.ethSwitches ⊆ switches
  | _ => True

end OnlDaemons.Nmd

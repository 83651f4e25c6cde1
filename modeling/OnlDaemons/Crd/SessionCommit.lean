import Mathlib.Data.List.Basic
import Mathlib.Tactic.Common

/-!
# Committing and clearing a session

The requests of a topology are put on the lists of their session by the threads that handle them.
`session::commit` waits until they are all there, without its lock, and then assigns the resources,
makes the components and links, and asks for the VLANs. `session::clear` may be called by anyone at
any time; it gives everything back.

What the topology, the reservation database and the network management daemon say is part of the
step that asks them. The components and links do their work in threads of their own, of which only
what the links do with their VLANs is followed.

## Main definitions

- `CrdSession` — a session with the threads that work on it and what others hold for it
- `CrdSession.step` — the steps of these threads
-/

namespace OnlDaemons.Crd

/-- The requests that are put together to a topology. -/
inductive TopologyReq where
  | cluster
  | component
  | link
deriving DecidableEq, Repr

/-- The statuses that the requests of a topology are answered with. -/
inductive AddStatus where
  | fine
  | testing
  | operationIncomplete
  | allocFailed
  | failed
deriving DecidableEq, Repr

/-- The states of the reservation of the session's user, as far as they are told apart. -/
inductive ReservationState where
  | pending
  | active
  | used
  | cancelled
deriving DecidableEq, Repr

/-- What the database and the topology say of the node of a component. -/
structure NodeInfo where
  name : String
  isVirtual : Bool
  adminMode : Bool
deriving DecidableEq, Repr

structure CrdComponent (R : Type) where
  node : NodeInfo
  compreq : Option R
deriving DecidableEq, Repr

structure SessionLink (R : Type) where
  linkreq : R
  vlanid : ℕ := 0
  /-- its components are being initialized -/
  started : Bool := false
deriving DecidableEq, Repr

/-- The thread that has `req_lock`, and what it is about to do. -/
inductive ReqLock where
  | free
  /-- `commit`: build the topology and assign the resources -/
  | assign
  /-- `commit`: go through the assigned components and links -/
  | place
  /-- `commit`: allocate the VLANs and initialize the components -/
  | allocate
  /-- `clear`: return the resources -/
  | giveBack
  /-- `clear`: have the VLANs cleared -/
  | endVlans
  /-- `clear`: remove the links and components -/
  | remove
deriving DecidableEq, Repr

/-- A call of `commit` that sleeps until all requests are there. -/
structure WaitingCommit where
  numReqs : ℕ
  numAttempts : ℕ
deriving DecidableEq, Repr

/-- `inFlight` are the requests whose thread has looked the session up but has not got the lock.
`active` are the session's entries of `active_components`, `experiments` the number of its
experiments that the database takes to be running, and `vlans` what is allocated to it. -/
structure CrdSession (R : Type) where
  beginReq : Option ℕ
  cleared : Bool := false
  clusterReqs : List R := []
  componentReqs : List R := []
  linkReqs : List R := []
  components : List (CrdComponent R) := []
  links : List (SessionLink R) := []
  responses : List (R × AddStatus) := []
  lock : ReqLock := .free
  waiting : List WaitingCommit := []
  inFlight : List (TopologyReq × R) := []
  active : List (CrdComponent R) := []
  reservation : ReservationState
  experiments : ℕ := 0
  vlans : List ℕ := []
deriving DecidableEq, Repr

/-- The steps that are not about a commit or a clear come from handlers of requests, from the
threads of links, and from the user, who may cancel the reservation. -/
inductive SessionAct (R : Type) where
  /-- `handle`, up to the session -/
  | receive (kind : TopologyReq) (req : R)
  /-- `add_component`, `add_cluster` or `add_link` for a request in flight -/
  | append (i : ℕ)
  | commit
  /-- 50 ms have passed for a waiting commit -/
  | wake (i : ℕ)
  | assign (accepts : R → Bool) (assigned : Bool)
  | place (testing isAdmin : Bool) (node : R → NodeInfo)
  /-- the VLANs that are allocated, and the one each link is in -/
  | allocate (granted : List ℕ) (vlan : R → ℕ)
  | clear
  | giveBack (returned : Bool)
  | endVlans (ended : Bool)
  | remove
  /-- a link without a VLAN asks for one in `do_initialize` -/
  | linkVlan (i : ℕ) (granted : ℕ)
  /-- `do_refresh` of a link or a virtual switch -/
  | deleteVlan (vlan : ℕ)
  | cancelReservation

namespace CrdSession

variable {R : Type}

/-- A session of a user with a reservation, after `set_begin_request`. -/
def init (numReqs : ℕ) (reservation : ReservationState) : CrdSession R where
  beginReq := some numReqs
  reservation := reservation

def addComponent (s : CrdSession R) (req : R) : CrdSession R :=
  { s with componentReqs := s.componentReqs ++ [req] }

def addCluster (s : CrdSession R) (req : R) : CrdSession R :=
  { s with clusterReqs := s.clusterReqs ++ [req] }

def addLink (s : CrdSession R) (req : R) : CrdSession R :=
  { s with linkReqs := s.linkReqs ++ [req] }

def respond (s : CrdSession R) (reqs : List R) (status : AddStatus) : CrdSession R :=
  { s with responses := s.responses ++ reqs.map (·,status) }

def numReqsRxed (s : CrdSession R) : ℕ :=
  s.componentReqs.length + s.clusterReqs.length + s.linkReqs.length

/-- The response of a handler that does not find its session. -/
def notFound : TopologyReq → AddStatus
  | .component => .operationIncomplete
  | .cluster => .failed
  | .link => .failed

/-- `while(num_reqs_rxed < num_reqs)`, with the lock: go on, give up or sleep. -/
def awaitReqs (s : CrdSession R) (w : WaitingCommit) : CrdSession R :=
  if s.numReqsRxed < w.numReqs then
    if 1200 < w.numAttempts then s
    else { s with waiting := s.waiting ++ [{ w with numAttempts := w.numAttempts + 1 }] }
  else { s with lock := .assign }

/-- Build the topology: a request it does not take is answered and dropped. -/
def buildTopology (s : CrdSession R) (accepts : R → Bool) : CrdSession R :=
  let s := { s.respond (s.clusterReqs.filter (!accepts ·)) .allocFailed with
    clusterReqs := s.clusterReqs.filter accepts }
  let s := { s.respond (s.componentReqs.filter (!accepts ·)) .allocFailed with
    componentReqs := s.componentReqs.filter accepts }
  { s.respond (s.linkReqs.filter (!accepts ·)) .failed with
    linkReqs := s.linkReqs.filter accepts }

/-- `onldb::assign_resources`, which succeeds only for a reservation that is not cancelled. -/
def assignResources (s : CrdSession R) (assigned : Bool) : CrdSession R :=
  if assigned ∧ s.reservation ≠ .cancelled then
    { s with
      reservation := .active
      experiments := s.experiments + 1
      lock := .place }
  else { s with lock := .free }

/-- `onldb::return_resources`: an experiment of an active reservation is ended. -/
def returnResources (s : CrdSession R) (returned : Bool) : CrdSession R :=
  if returned ∧ s.reservation = .active ∧ 0 < s.experiments then
    { s with
      reservation := .used
      experiments := s.experiments - 1 }
  else s

/-- One round of the loop over `component_reqs`; `session_manager::add_component` leaves virtual
components out. -/
def placeComponent (isAdmin : Bool) (node : R → NodeInfo) (s : CrdSession R) (req : R) :
    CrdSession R :=
  if (node req).adminMode ∧ isAdmin = false then
    { s.respond [req] .failed with components := s.components ++ [⟨node req,none⟩] }
  else
    { s with
      components := s.components ++ [⟨node req,some req⟩]
      active := if (node req).isVirtual then s.active else s.active ++ [⟨node req,some req⟩] }

def placeComponents (s : CrdSession R) (isAdmin : Bool) (node : R → NodeInfo) : CrdSession R :=
  { s.componentReqs.foldl (placeComponent isAdmin node) s with componentReqs := [] }

def placeClusters (s : CrdSession R) (testing : Bool) : CrdSession R :=
  { s.respond s.clusterReqs (if testing then .testing else .fine) with clusterReqs := [] }

def placeLinks (s : CrdSession R) : CrdSession R :=
  { s with
    links := s.links ++ s.linkReqs.map ({ linkreq := · })
    linkReqs := [] }

/-- The VLANs are there, and the components are initialized. -/
def allocateVlans (s : CrdSession R) (granted : List ℕ) (vlan : R → ℕ) : CrdSession R :=
  { s with
    vlans := s.vlans ++ granted
    links := s.links.map fun l =>
      { l with
        vlanid := if l.started then l.vlanid else vlan l.linkreq
        started := true } }

/-- The queued requests are answered. -/
def failReqs (s : CrdSession R) : CrdSession R :=
  { s.respond (s.clusterReqs ++ s.componentReqs ++ s.linkReqs) .failed with
    clusterReqs := []
    componentReqs := []
    linkReqs := [] }

/-- `session_manager::remove_component` for every component. -/
def removeComponents [DecidableEq R] (s : CrdSession R) : CrdSession R :=
  { s with active := s.active.filter fun c => c.node.isVirtual || !s.components.contains c }

def step [DecidableEq R] (s : CrdSession R) : SessionAct R → Option (CrdSession R)
  | .receive kind req =>
    if s.cleared then some (s.respond [req] (notFound kind))
    else some { s with inFlight := s.inFlight ++ [(kind,req)] }
  | .append i =>
    if s.lock = .free then
      (s.inFlight[i]?).map fun (kind,req) =>
        let s := { s with inFlight := s.inFlight.eraseIdx i }
        match kind with
        | .component => s.addComponent req
        | .cluster => s.addCluster req
        | .link => s.addLink req
    else none
  | .commit =>
    if s.lock = .free then
      if s.cleared then some s else s.beginReq.map fun n => s.awaitReqs ⟨n,0⟩
    else none
  | .wake i =>
    if s.lock = .free then
      (s.waiting[i]?).map fun w => { s with waiting := s.waiting.eraseIdx i }.awaitReqs w
    else none
  | .assign accepts assigned =>
    if s.lock = .assign then some ((s.buildTopology accepts).assignResources assigned) else none
  | .place testing isAdmin node =>
    if s.lock = .place then
      some { ((s.placeClusters testing).placeComponents isAdmin node).placeLinks with
        lock := .allocate }
    else none
  | .allocate granted vlan =>
    if s.lock = .allocate then some { s.allocateVlans granted vlan with lock := .free } else none
  | .clear =>
    if s.lock = .free then
      if s.cleared then some s
      else some { s.failReqs with
        cleared := true
        lock := .giveBack }
    else none
  | .giveBack returned =>
    if s.lock = .giveBack then some { s.returnResources returned with lock := .endVlans } else none
  | .endVlans ended =>
    if s.lock = .endVlans then some { s with
      vlans := if ended then [] else s.vlans
      lock := .remove }
    else none
  | .remove =>
    if s.lock = .remove then some { s.removeComponents with
      beginReq := none
      lock := .free }
    else none
  | .linkVlan i granted =>
    match s.links[i]? with
    | some l =>
      if l.started ∧ l.vlanid = 0 then some { s with
        links := s.links.set i { l with vlanid := granted }
        vlans := if granted = 0 then s.vlans else s.vlans ++ [granted] }
      else none
    | none => none
  | .deleteVlan vlan => some { s with vlans := s.vlans.filter (· ≠ vlan) }
  | .cancelReservation =>
    if s.reservation = .pending ∨ s.reservation = .used then
      some { s with reservation := .cancelled }
    else none

/-- No thread is in `commit` or `clear`. -/
structure Idle (s : CrdSession R) : Prop where
  lock : s.lock = .free
  waiting : s.waiting = []

/-- Nothing is held for the session, and no request is left in its lists. -/
structure HoldsNothing (s : CrdSession R) : Prop where
  experiments : s.experiments = 0
  vlans : s.vlans = []
  active : ∀ c ∈ s.components, c ∉ s.active
  clusterReqs : s.clusterReqs = []
  componentReqs : s.componentReqs = []
  linkReqs : s.linkReqs = []

end CrdSession

end OnlDaemons.Crd

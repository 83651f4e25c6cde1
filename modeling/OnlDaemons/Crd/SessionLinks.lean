import Mathlib.Data.List.Perm.Basic
import Mathlib.Logic.Function.Basic
import Mathlib.Tactic.Common

/-!
# The links of a session

`session::commit` makes the links of a session and starts its components. A component that is
ready goes through its links, and the second one to reach a link starts the thread that adds the
link to its VLAN and reports to the session. The last link to report has the switches set up and
the answers sent. Meanwhile the session may be cleared, which refreshes the links, and components
may fail.

The threads of `do_refresh` only give back VLANs, so they are not followed.

## Main definitions

- `CrdLink` — `crd_link` with the thread of its `do_initialize`
- `LinkSession`, `LinkSession.step` — a session from the end of `commit` on
-/

namespace OnlDaemons.Crd

/-- `crd_link::state`. -/
inductive LinkStatus where
  | new
  | initializing
  | active
  | failed
  | refreshing
deriving DecidableEq, Repr

/-- The values of `NCCP_StatusType` that links use. -/
inductive NccpStatus where
  | operationIncomplete
  | fine
  | failed
deriving DecidableEq, Repr

/-- What the thread of `do_initialize` is about to do. -/
inductive LinkThread where
  | none
  | addPorts
  | readRefresh
  | report
  | complete
deriving DecidableEq, Repr

/-- `linkreq` says whether the request is still there, and `answers` has the responses that were
sent to it. -/
structure CrdLink where
  state : LinkStatus := .new
  needsRefresh : Bool := false
  vlanid : ℕ
  allocVlan : Bool
  vlanStatus : NccpStatus := .operationIncomplete
  numCompsDone : ℕ := 0
  linkreq : Bool := true
  answers : List NccpStatus := []
  thread : LinkThread := .none
deriving DecidableEq, Repr

namespace CrdLink

/-- Send a response and delete the request. -/
def respond (l : CrdLink) (status : NccpStatus) : CrdLink :=
  { l with
    answers := l.answers ++ [status]
    linkreq := false }

def cleanupReqs (l : CrdLink) : CrdLink :=
  let l := { l with state := .failed }
  if l.linkreq then l.respond .failed else l

/-- `crd_link::initialize`, where the thread is created or not. -/
def initLink (l : CrdLink) (created : Bool) : CrdLink :=
  if l.state ≠ .new then l
  else
    let l := { l with state := .initializing }
    if created then { l with thread := .addPorts } else l.cleanupReqs

/-- A component has come to the link: `if(both_comps_done()) initialize()`. -/
def compDone (l : CrdLink) (created : Bool) : CrdLink :=
  let l := { l with numCompsDone := l.numCompsDone + 1 }
  if l.numCompsDone = 2 then l.initLink created else l

/-- `do_initialize` up to `vlan_status = status`; `newVlan` is what `add_vlan` gives, and `added`
says whether every port is added. -/
def addPorts (testing : Bool) (newVlan : ℕ) (added : Bool) (l : CrdLink) : CrdLink :=
  if testing then { l with vlanStatus := .fine, thread := .readRefresh }
  else
    let l := if l.allocVlan ∧ l.vlanid = 0 then { l with vlanid := newVlan } else l
    { l with
      vlanStatus := if l.vlanid = 0 ∨ added = false then .failed else .fine
      thread := .readRefresh }

/-- `if(needs_refresh) complete_initialization(..) else sess->link_vlanports_added(..)`. -/
def readRefresh (l : CrdLink) : CrdLink :=
  { l with thread := if l.needsRefresh then .complete else .report }

def refresh (l : CrdLink) : CrdLink :=
  if l.state = .failed ∧ l.vlanid = 0 then l
  else if l.state = .new ∧ l.vlanid = 0 then { l with state := .refreshing }
  else if l.state = .initializing then { l with needsRefresh := true }
  else if l.state ≠ .failed then { l with state := .refreshing }
  else l

def completeInitialization (l : CrdLink) (sessSt : NccpStatus) : CrdLink :=
  let status : NccpStatus := if sessSt ≠ .fine ∨ l.vlanStatus ≠ .fine then .failed else .fine
  let l := l.respond status
  let l := { l with
    vlanStatus := status
    state := if status = NccpStatus.fine then .active else .failed }
  if l.needsRefresh then l.refresh else l

end CrdLink

/-- The end of `link_vlanports_added`, when the last link has reported: `start_session_vlans` is
about to be called, or the links are completed one by one. -/
inductive Completion (L : Type) where
  | none
  | start
  | links (status : NccpStatus) (rest : List L)
deriving DecidableEq, Repr

/-- A session with the links `L` and the components `C`. `toStart` are the components that `commit`
has not come to; `pending` has the links of every component that is not through with them, and
`clearing` the links that `clear` has not refreshed yet. `starts` counts the calls of
`start_session_vlans`. -/
structure LinkSession (L C : Type) where
  links : List L
  link : L → CrdLink
  toStart : List C
  running : C → Bool := fun _ => false
  pending : List (C × L)
  unreported : List L
  vlansCreated : Bool := false
  completion : Completion L := .none
  starts : ℕ := 0
  cleared : Bool := false
  clearing : List L := []

inductive LinkAct (L C : Type) where
  /-- `commit` comes to the next component; it does not start one that is to be ignored -/
  | initializeComp (ignored : Bool)
  /-- a component takes the first of its links -/
  | takeLink (k : C) (created : Bool)
  /-- `cleanup_links(false)`, or a return of `do_initialize` without a look at the links -/
  | dropLinks (k : C)
  | addPorts (l : L) (newVlan : ℕ) (added : Bool)
  | readRefresh (l : L)
  /-- `complete_initialization` by the link itself -/
  | complete (l : L)
  | report (l : L)
  | startVlans (success : Bool)
  | completeNext
  | clear
  | refreshNext
deriving DecidableEq, Repr

namespace LinkSession

variable {L C : Type} [DecidableEq L] [DecidableEq C]

/-- The links as `commit` leaves them, each put on the lists of its two components. -/
def init (links : List L) (comps : List C) (ends : L → C × C) (vlan : L → ℕ × Bool) :
    LinkSession L C where
  links := links
  link := fun l => { vlanid := (vlan l).1, allocVlan := (vlan l).2 }
  toStart := comps
  pending := links.flatMap fun l => [((ends l).1,l),((ends l).2,l)]
  unreported := links

def setLink (s : LinkSession L C) (l : L) (f : CrdLink → CrdLink) : LinkSession L C :=
  { s with link := Function.update s.link l (f (s.link l)) }

/-- The first part of `link_vlanports_added`, under its lock. -/
def linkVlanportsAdded (s : LinkSession L C) (l : L) : LinkSession L C :=
  let s := { s with unreported := s.unreported.filter (· ≠ l) }
  if s.unreported = [] ∧ s.vlansCreated = false then
    { s with
      vlansCreated := true
      completion := .start }
  else s

def step (testing : Bool) (s : LinkSession L C) : LinkAct L C → Option (LinkSession L C)
  | .initializeComp ignored =>
    match s.toStart with
    | [] => none
    | k :: rest =>
      if ignored then some { s with
        toStart := rest
        pending := s.pending.filter (·.1 ≠ k) }
      else some { s with
        toStart := rest
        running := Function.update s.running k true }
  | .takeLink k created =>
    if s.running k then
      match s.pending.find? (·.1 = k) with
      | none => none
      | some p => some ({ s with pending := s.pending.erase p }.setLink p.2 (·.compDone created))
    else none
  | .dropLinks k => some { s with pending := s.pending.filter (·.1 ≠ k) }
  | .addPorts l newVlan added =>
    if (s.link l).thread = .addPorts then some (s.setLink l (·.addPorts testing newVlan added))
    else none
  | .readRefresh l =>
    if (s.link l).thread = .readRefresh then some (s.setLink l (·.readRefresh)) else none
  | .complete l =>
    if (s.link l).thread = .complete then
      some (s.setLink l fun k => { k.completeInitialization k.vlanStatus with thread := .none })
    else none
  | .report l =>
    if (s.link l).thread = .report then
      some ((s.linkVlanportsAdded l).setLink l ({ · with thread := .none }))
    else none
  | .startVlans success =>
    if s.completion = .start then some { s with
      completion := .links (if success then NccpStatus.fine else .failed) s.links
      starts := s.starts + 1 }
    else none
  | .completeNext =>
    match s.completion with
    | .links status (l :: rest) =>
      some ({ s with completion := .links status rest }.setLink l (·.completeInitialization status))
    | _ => none
  | .clear =>
    if s.cleared = false ∧ s.toStart = [] then some { s with
      cleared := true
      clearing := s.links }
    else none
  | .refreshNext =>
    match s.clearing with
    | [] => none
    | l :: rest => some ({ s with clearing := rest }.setLink l (·.refresh))

/-- No thread is running. -/
structure Quiet (s : LinkSession L C) : Prop where
  toStart : s.toStart = []
  pending : s.pending = []
  thread : ∀ l ∈ s.links, (s.link l).thread = .none
  completion : s.completion = .none ∨ ∃ status, s.completion = .links status []
  clearing : s.clearing = []

end LinkSession

end OnlDaemons.Crd

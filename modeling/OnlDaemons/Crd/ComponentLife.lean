import Mathlib.Data.List.Range
import Mathlib.Logic.Function.Basic
import Mathlib.Tactic.Common

/-!
# The life of a component

`session::commit` makes a component and calls `initialize`, whose thread runs `do_initialize`. When the
session is cleared `refresh` is called, in whatever state the component is then, and may start a thread
for `do_refresh`. These functions call each other: `do_initialize` calls `do_refresh` and `refresh`, and
`do_refresh` calls itself and, when the node fails, `cleanup_reqs`, which may call `refresh`.

What a function has still to do is a list of sections, the sections of the functions it has called in
front. A section under `state_lock` that calls nothing is one step.

## Main definitions

- `Section` — the sections of `refresh`, `do_refresh` and the clean-up functions
- `InitPlace` — how far `initialize` and `do_initialize` have come
- `Life`, `Life.step` — a component with its threads
- `Life.Good` — nobody waits for a lock that he has, the request is answered once and each end of a link is
  counted once
- `Life.Orderly` — a dependent that is fine, a database that returns the state that was set, and a request
  that is not answered from two sides
-/

namespace OnlDaemons.Crd

/-- The state of a node, as `get_state` returns it. A state that the code does not ask for is
`other`. -/
inductive NodeState
  | free
  | repair
  | refreshing
  | initializing
  | active
  | testing
  | other
deriving DecidableEq, Repr

/-- `local_state`. -/
inductive LocalState
  | new
  | notUsed
  | initializing
  | refreshing
  | repair
  | done
deriving DecidableEq, Repr

/-- What does not change. `virtual` is a `crd_virtual_machine`, whose `get_type` takes no lock. -/
structure CompInfo where
  hasCP : Bool := true
  testing : Bool := false
  keeboot : Bool := false
  isDependent : Bool := false
  hasDependent : Bool := false
  virtual : Bool := false

/-- `failed` and `doInit` are the arguments of `cleanup_reqs` and `cleanup_links`. From `connect` on to
`setFree` the sections are those of `do_refresh`. -/
inductive Section
  | refresh
  | cleanupReqs (failed : Bool)
  | sendFailed
  | deleteReq (failed : Bool)
  | setRepair
  | cleanupLinks (doInit : Bool)
  | bothCompsDone (link : ℕ)
  | clearComponent
  | connect
  | sendRefresh (depFailed : Bool)
  | getType
  | waitForUpMsg
  | dependent
  | keebootConnect
  | keebootSend
  | keebootUpMsg
  | setFree
deriving DecidableEq, Repr

/-- `created` is before `initialize`, `createFailed` the rest of it when there is no thread, and from
`start` on it is `do_initialize`. The sections `dependentRefresh` to `setUnlocked` come after the call
of `do_refresh` for a dependent that is not free. -/
inductive InitPlace
  | created
  | createFailed
  | start
  | waiting (dependent : NodeState)
  | repairing
  | dependentRefresh
  | checkUnlocked
  | setUnlocked
  | keebootTest
  | keebootRefresh
  | contact
  | startExp
  | configure
  | failing
  | respond
  | deleteReq
  | setActive
  | countLinks
  | leaving
  | finished
deriving DecidableEq, Repr

/-- Before the state `initializing` is set or the node is found in repair. -/
def InitPlace.begun : InitPlace → Bool
  | created | start | waiting _ | dependentRefresh | checkUnlocked | setUnlocked => false
  | _ => true

/-- What a step is told: the states that the database returns for the node and its dependent, `later` for
the dependent after the last wait, whether a connection, a message or a test succeeds, the thread that
`pthread_create` makes, and `ignore()`. -/
structure Told (T : Type) where
  state : NodeState := .free
  dependent : NodeState := .free
  later : NodeState := .free
  ok : Bool := true
  thread : Option T := none
  ignore : Bool := false

/-- `known` is the state that was set last, or the repair that `local_state` was set for, and `links` has
the ends of links in the order of the list. `held` says that the thread of `do_initialize` keeps the lock
from one step to the next. -/
structure Life (T : Type) where
  internalState : NodeState := .free
  known : Option NodeState := none
  localState : LocalState := .new
  needsRefresh : Bool := false
  keebootingNow : Bool := false
  compreq : Bool := true
  links : List ℕ := []
  counted : ℕ → ℕ := fun _ => 0
  answers : ℕ := 0
  held : Bool := false
  selfLocked : Bool := false
  crashed : Bool := false
  cleared : Bool := false
  place : InitPlace := .created
  call : List Section := []
  todo : T → List Section := fun _ => []

/-- `callInitialize` is the call of `initialize`, `clear` is `session::clear`, `init` and `thread` a
step of the thread of `do_initialize` and of another. -/
inductive LifeAct (T : Type)
  | callInitialize (told : Told T)
  | clear (t : T)
  | init (told : Told T)
  | thread (t : T) (told : Told T)

namespace Life

variable {T : Type} [DecidableEq T] (info : CompInfo)

/-- The database says that the node is tested by an administrator. -/
def getState (s : Life T) (db : NodeState) : NodeState :=
  if db = .testing then s.internalState else db

def dependentState (db : NodeState) : NodeState :=
  if info.isDependent || !info.hasDependent then .free else db

def setState (s : Life T) (x : NodeState) : Life T :=
  { s with
    internalState := x
    known := some x
    needsRefresh := if x = .repair then false else s.needsRefresh }

/-- A section under `state_lock`, by the thread of `do_initialize` if `mine`. -/
def locked (mine : Bool) (s : Life T) (result : Life T × List Section) :
    Option (Life T × List Section) :=
  if s.held then
    if mine then some ({ s with selfLocked := true }, []) else none
  else some result

/-- The node does not answer, in `do_refresh`. -/
def nodeFailed : List Section := [.cleanupReqs true, .cleanupLinks false]

/-- The section of `refresh` under the lock. -/
def refresh (s : Life T) (told : Told T) : Option (Life T × List Section) :=
  let cur := s.getState told.state
  if s.localState = .notUsed then some (s, [])
  else if cur = .repair then
    if s.localState ≠ .repair then
      some ({ s with localState := .repair, known := some .repair },
        [.cleanupLinks false, .cleanupReqs false, .clearComponent])
    else some (s, [.clearComponent])
  else if s.localState = .new ∧ cur ≠ .free then
    some ({ s with localState := .done }, [.clearComponent])
  else if cur = .initializing then some ({ s with needsRefresh := true }, [])
  else if cur = .refreshing ∨ s.localState = .refreshing then
    some ({ s with needsRefresh := false }, [])
  else
    let s := { s with localState := .refreshing }.setState .refreshing
    let s := { s with needsRefresh := false }
    match told.thread with
    | none => some (s, [.cleanupReqs true, .cleanupLinks false, .clearComponent])
    | some t =>
      if s.todo t = [] then
        some ({ s with todo := Function.update s.todo t [.connect, .clearComponent] }, [])
      else none

/-- What a section does, and what it goes on with. -/
def exec (mine : Bool) (told : Told T) (s : Life T) : Section → Option (Life T × List Section)
  | .refresh => (s.refresh told).bind (locked mine s)
  | .cleanupReqs failed =>
    if s.compreq then some (s, [if failed then .sendFailed else .deleteReq false])
    else some (s, if failed then [.setRepair] else [])
  | .sendFailed => some ({ s with answers := s.answers + 1 }, [.deleteReq true])
  | .deleteReq failed => some ({ s with compreq := false }, if failed then [.setRepair] else [])
  | .setRepair =>
    locked mine s ({ s.setState .repair with localState := .repair },
      if s.needsRefresh && !s.keebootingNow && !told.ignore then [.refresh] else [])
  | .cleanupLinks true =>
    match s.links with
    | [] => some (s, [])
    | link :: links =>
      some ({ s with links := links }, [.bothCompsDone link, .cleanupLinks true])
  | .cleanupLinks false => some ({ s with links := [] }, [])
  | .bothCompsDone link =>
    some ({ s with counted := Function.update s.counted link (s.counted link + 1) }, [])
  | .clearComponent => if info.virtual then some (s, []) else locked mine s (s, [])
  | .connect =>
    if info.hasCP && !info.testing then
      if told.ok then some (s, [.sendRefresh false])
      else some (s, if info.isDependent then [.sendRefresh true] else nodeFailed)
    else some (s, [.setFree])
  | .sendRefresh _ =>
    some (s, if info.isDependent || told.ok then [.getType] else nodeFailed)
  | .getType => if info.virtual then some (s, [.setFree]) else locked mine s (s, [.waitForUpMsg])
  | .waitForUpMsg => some (s, if told.ok then [.dependent] else nodeFailed)
  | .dependent =>
    -- `do_refresh` calls itself
    let x := dependentState info told.dependent
    some (s, if x = .refreshing ∨ x = .repair then [.connect, .keebootConnect] else [.keebootConnect])
  | .keebootConnect =>
    if info.keeboot then some (s, if told.ok then [.keebootSend] else nodeFailed)
    else some (s, [.setFree])
  | .keebootSend => some (s, if told.ok then [.keebootUpMsg] else nodeFailed)
  | .keebootUpMsg => some (s, if told.ok then [.setFree] else nodeFailed)
  | .setFree => if s.keebootingNow then some (s, []) else locked mine s (s.setState .free, [])

/-- `while(cur_state != "free" && cur_state != "repair" && local_state == "new")` -/
def waits (s : Life T) (cur : NodeState) : Bool :=
  cur ≠ .free && cur ≠ .repair && s.localState = .new

/-- The state of the dependent after `do_initialize` has waited for it. -/
def afterWait (dependent : NodeState) (told : Told T) : NodeState :=
  if dependent = .refreshing then dependentState info told.later else dependent

/-- `refresh` was called before. -/
def leave (s : Life T) : Life T :=
  { s with place := .leaving, call := [.cleanupReqs false, .cleanupLinks false, .clearComponent] }

def clearAndLeave (s : Life T) : Life T := { s with place := .leaving, call := [.clearComponent] }

def setInitializing (s : Life T) : Life T :=
  { { s with localState := .initializing }.setState .initializing with place := .keebootTest }

def fail (s : Life T) : Life T :=
  { s with place := .failing, call := [.cleanupReqs true, .cleanupLinks true] }

/-- The first section of `do_initialize` under the lock. -/
def begin (s : Life T) (dependent : NodeState) (told : Told T) : Life T :=
  let cur := s.getState told.state
  if s.waits cur then { s with place := .waiting dependent }
  else if cur = .repair then
    if s.localState ≠ .repair then
      { s with
        localState := .repair
        known := some .repair
        place := .repairing
        call := [.cleanupLinks true, .cleanupReqs true] }
    else s.clearAndLeave
  else
    let dependent := afterWait info dependent told
    if dependent = .refreshing ∨ dependent = .repair then
      -- with the lock
      { s with held := true, keebootingNow := true, place := .dependentRefresh, call := [.connect] }
    else if s.localState ≠ .new then s.leave
    else s.setInitializing

/-- `do_initialize` goes on, when the function it has called has returned. -/
def advance (s : Life T) (told : Told T) : Option (Life T) :=
  match s.place with
  | .start => some (s.begin info (dependentState info told.dependent) told)
  | .waiting dependent => some (s.begin info dependent told)
  | .dependentRefresh =>
    -- the lock is there already, and given back after the state is read
    let s := { s with keebootingNow := false, held := false }
    if s.getState told.state = .repair then some s.clearAndLeave
    else some { s with place := .checkUnlocked }
  | .checkUnlocked =>
    if s.localState ≠ .new then some s.leave else some { s with place := .setUnlocked }
  | .setUnlocked => some s.setInitializing
  | .keebootTest =>
    if !info.testing && info.keeboot && told.ok then
      some { s with keebootingNow := true, place := .keebootRefresh, call := [.connect] }
    else some { s with place := .contact }
  | .keebootRefresh =>
    let s := { s with keebootingNow := false }
    if s.getState told.state = .repair then some s.clearAndLeave
    else some { s with place := .contact }
  | .contact =>
    if info.hasCP && !info.testing then
      if told.ok then some { s with place := .startExp } else some s.fail
    else some { s with place := .respond }
  | .startExp => if told.ok then some { s with place := .configure } else some s.fail
  | .configure => some { s with place := .respond }
  | .respond =>
    -- the response is made from the request
    if s.compreq then some { s with answers := s.answers + 1, place := .deleteReq }
    else some { s with crashed := true }
  | .deleteReq => some { s with compreq := false, place := .setActive }
  | .setActive =>
    if s.held then some { s with selfLocked := true }
    else some { s.setState .active with place := .countLinks, call := [.cleanupLinks true] }
  | .countLinks =>
    some { s with place := .leaving, call := if s.needsRefresh then [.refresh] else [] }
  | .createFailed | .repairing | .failing | .leaving => some { s with place := .finished }
  | .created | .finished => none

def step (s : Life T) : LifeAct T → Option (Life T)
  | .callInitialize told =>
    match s.place with
    | .created =>
      if s.compreq then
        if told.ok then some { s with place := .start }
        else some { s with place := .createFailed, call := [.cleanupReqs true, .cleanupLinks true] }
      else some { s with localState := .notUsed, place := .leaving, call := [.cleanupLinks true] }
    | _ => none
  | .clear t =>
    if s.todo t = [] then
      some { s with
        todo := Function.update s.todo t [.refresh]
        cleared := s.cleared || !s.place.begun }
    else none
  | .init told =>
    if s.selfLocked || s.crashed then none
    else
      match s.call with
      | [] => s.advance info told
      | i :: rest =>
        match s.exec info true told i with
        | none => none
        | some (s', next) => some { s' with call := next ++ rest }
  | .thread t told =>
    match s.todo t with
    | [] => none
    | i :: rest =>
      match s.exec info false told i with
      | none => none
      | some (s', next) => some { s' with todo := Function.update s'.todo t (next ++ rest) }

/-- A component of a session that is committed, with the ends of `n` links. Its request is already answered
if the node is in an admin mode and the user is not an administrator. -/
def start (compreq : Bool) (n : ℕ) : Life T :=
  { compreq := compreq, links := List.range n, answers := if compreq then 0 else 1 }

/-- Nobody waits for a lock that he has; the request is answered at most once, and once when
`do_initialize` has ended or can not go on, unless the session was cleared first; and each end of a link
is counted at most once. -/
structure Good (s : Life T) : Prop where
  selfLocked : s.selfLocked = false
  once : s.answers ≤ 1
  answered : s.place = .finished ∨ s.crashed = true → s.cleared = true ∨ s.answers = 1
  counted : ∀ link, s.counted link ≤ 1

/-- The step reads the state of the node. -/
def Reads (s : Life T) : LifeAct T → Bool
  | .thread t _ => (s.todo t).head? = some .refresh
  | .init _ =>
    match s.call, s.place with
    | [], .start | [], .waiting _ | [], .dependentRefresh | [], .keebootRefresh => true
    | [], _ => false
    | i :: _, _ => i = .refresh
  | _ => false

def LifeAct.told : LifeAct T → Told T
  | .callInitialize told | .init told | .thread _ told => told
  | .clear _ => {}

/-- The state of the dependent that `do_initialize` is about to act on. -/
def dependentAt (s : Life T) (told : Told T) : Option NodeState :=
  let cur := s.getState told.state
  if s.call ≠ [] ∨ s.waits cur = true ∨ cur = .repair then none
  else
    match s.place with
    | .start => some (afterWait info (dependentState info told.dependent) told)
    | .waiting dependent => some (afterWait info dependent told)
    | _ => none

/-- The database returns the state that was set last, or the repair that was found; the dependent is not
being refreshed or in repair when `do_initialize` goes on; and if `initialize` can not make its thread,
no refresh has begun, and none begins before the request is answered. -/
def Orderly (s : Life T) (a : LifeAct T) : Prop :=
  (s.Reads a → ∀ x ∈ s.known, s.getState (LifeAct.told a).state = x) ∧
  match a with
  | .callInitialize told => s.compreq = true → told.ok = false → s.localState = .new
  | .init told => ∀ x ∈ s.dependentAt info told, x ≠ .refreshing ∧ x ≠ .repair
  | .thread t _ => (s.todo t).head? = some .refresh → s.place = .createFailed → s.compreq = false
  | .clear _ => True

end Life

end OnlDaemons.Crd

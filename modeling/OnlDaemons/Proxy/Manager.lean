import OnlDaemons.Lib.Run
import Mathlib.Logic.Function.Basic

/-!
# The manager of the proxy and its sessions

The manager accepts clients and starts a thread for the session of each. Each session has two pipes to
the manager, and the manager keeps the sessions in a vector that a lock guards. A session that is to
observe another one asks the manager, which asks the other session and passes its answer on.

## Main definitions

- `Sess` — a session with its pipes
- `MgrPc` — where the thread of the manager is
- `ProxyState.step` — a step of one thread
-/

namespace OnlDaemons.Proxy

/-- `sessionCmd`. The session that was asked about is not in the answer on the pipe. -/
inductive SessionCmd
  | shutdown
  | closeConn (arg : ℕ)
  | slave (arg : ℕ)
  | slaveResp (arg sid : ℕ)
  | master (arg : ℕ)
  | masterResp (arg : ℕ)
deriving DecidableEq

namespace SessionCmd

def arg : SessionCmd → ℕ
  | shutdown => 0
  | closeConn a | slave a | slaveResp a _ | master a | masterResp a => a

def masterOK : ℕ := 1

def masterNotExist : ℕ := 2

def masterReject : ℕ := 3

def masterError : ℕ := 4

def slaveOK : ℕ := 1

def slaveReject : ℕ := 2

end SessionCmd

/-- `Session::Status`. -/
inductive ShareStatus
  | normal
  | master
  | slavePending
  | slave
deriving DecidableEq

/-- Where the thread of a session is: `start` and `ending` wait for the lock, `adding` and `leaving` hold
it. `answer` is in `do_slave` before the answer is written and `grant` behind it. -/
inductive SessPc
  | unborn
  | start
  | adding
  | run
  | answer (sid : ℕ)
  | grant
  | ending
  | leaving
  | done
deriving DecidableEq

/-- A session. Its ends of the pipes are open or closed together; `rcfd` is the end the manager reads.
`overwritten` says that it was given another observer while it had one. -/
structure Sess where
  cid : ℕ := 0
  pc : SessPc := .unborn
  toSess : List SessionCmd := []
  toMgr : List SessionCmd := []
  isOpen : Bool := true
  rcfd : Bool := true
  status : ShareStatus := .normal
  master : Option ℕ := none
  slave : Option ℕ := none
  closing : Bool := false
  removing : Bool := false
  deleted : Bool := false
  overwritten : Bool := false

inductive Thread
  | manager
  | session (i : ℕ)
deriving DecidableEq

/-- The control commands that look a session up. -/
inductive ControlCmd
  | remSession (sid : ℕ)
  | remConnection (cid : ℕ)
deriving DecidableEq

/-- Where the thread of the manager is. A name with `want` waits for the lock; of the others, all but `select`,
`wait` and `off` hold it. `todo` are the sessions whose pipes are still to be read, and `own` says that an
answer is to the request of the session that gets it. -/
inductive MgrPc
  | select
  | wantAccept
  | accept
  | wantRecv (ready : List ℕ)
  | scan (todo : List ℕ)
  | master (i sid : ℕ) (todo : List ℕ)
  | await (i m : ℕ) (todo : List ℕ)
  | reply (i res : ℕ) (own : Bool) (todo : List ℕ)
  | wantSessions
  | sessions
  | wantControl (c : ControlCmd)
  | control (c : ControlCmd)
  | wantShutdown
  | shutdown (todo : List ℕ)
  | wait
  | wantWait
  | off
deriving DecidableEq

structure ProxyState where
  lock : Option Thread := none
  svec : List ℕ := []
  sess : ℕ → Sess := fun _ => {}
  mgr : MgrPc := .select

/-- What `select` of the manager returns with. -/
inductive MgrEvent
  | client
  | sessions
  | getSessions
  | control (c : ControlCmd)
  | term
deriving DecidableEq

/-- The steps of the manager, from `select` on, and of the sessions, from `lock` on for both. `close` is the
end of a session's client, and of a session for any other reason; `release` is a master whose client has
the observer removed. -/
inductive ProxyAct
  | select (e : MgrEvent)
  | mkSession (i cid : ℕ) (made : Bool)
  | recv
  | askMaster
  | readAnswer
  | sendAnswer
  | command (target : Option ℕ)
  | tellShutdown (timeout : Bool)
  | lock (t : Thread)
  | added (i : ℕ)
  | share (i sid : ℕ)
  | cmd (i : ℕ) (valid : Bool)
  | answer (i : ℕ)
  | grant (i : ℕ)
  | close (i : ℕ)
  | release (i : ℕ)
  | dropSlave (i : ℕ)
  | leave (i : ℕ)
  | removed (i : ℕ)
deriving DecidableEq

namespace Sess

/-- `writeCmd` of the manager. -/
def tell (x : Sess) (c : SessionCmd) : Sess :=
  if x.isOpen then { x with toSess := x.toSess ++ [c] } else x

/-- `writeCmd` of the session. -/
def send (x : Sess) (c : SessionCmd) : Sess := { x with toMgr := x.toMgr ++ [c] }

/-- `select` has the pipe of the session. -/
def ready (x : Sess) : Bool := x.rcfd && (!x.toMgr.isEmpty || !x.isOpen)

/-- `Session::close`. -/
def close (x : Sess) : Sess :=
  if x.closing then x
  else { x with closing := true, isOpen := false, removing := x.removing || x.status = .master }

/-- `Session::do_masterresp`. -/
def masterResp (x : Sess) (res : ℕ) : Sess :=
  if res = 0 then x
  else if res = SessionCmd.masterOK then { x with status := .slave }
  else { x with status := .normal, master := none }

end Sess

namespace ProxyState

def setSess (s : ProxyState) (i : ℕ) (x : Sess) : ProxyState :=
  { s with sess := Function.update s.sess i x }

/-- `getSession` and `getSessionObj`. -/
def getSession (s : ProxyState) (sid : ℕ) : Option ℕ := s.svec.find? fun i => (s.sess i).cid = sid

/-- `recvFromSess` for the first session of those that are ready. -/
def recvFromSess (s : ProxyState) (i : ℕ) (todo : List ℕ) : Option ProxyState :=
  let x := s.sess i
  if !x.rcfd then some { s.setSess i (x.tell .shutdown) with mgr := .scan todo }
  else
    match x.toMgr with
    | c :: l =>
      let s := s.setSess i { x with toMgr := l }
      match c with
      | .master sid => some { s with mgr := if sid = 0 then .scan todo else .master i sid todo }
      -- an answer that nobody waits for any more, or no command for the manager
      | _ => some { s with mgr := .scan todo }
    | [] => if x.isOpen then none else some { s.setSess i { x with rcfd := false } with mgr := .scan todo }

/-- `do_master` up to the question to the other session. -/
def doMaster (s : ProxyState) (i sid : ℕ) (todo : List ℕ) : ProxyState :=
  match s.getSession sid with
  | none => { s with mgr := .reply i SessionCmd.masterNotExist true todo }
  | some m =>
    if (s.sess m).isOpen then
      { s.setSess m ((s.sess m).tell (.slave (s.sess i).cid)) with mgr := .await i m todo }
    else { s with mgr := .reply i SessionCmd.masterError true todo }

/-- The answer is the first message on the pipe, whatever it is. -/
def readAnswer (s : ProxyState) (i m : ℕ) (todo : List ℕ) : Option ProxyState :=
  let x := s.sess m
  if !x.rcfd then some { s with mgr := .reply i SessionCmd.masterError true todo }
  else
    match x.toMgr with
    | c :: l =>
      let res := if c.arg = SessionCmd.slaveOK then SessionCmd.masterOK
        else if c.arg = SessionCmd.slaveReject then SessionCmd.masterReject
        else SessionCmd.masterError
      let own := match c with
        | .slaveResp _ sid => decide (sid = (s.sess i).cid)
        | _ => false
      some { s.setSess m { x with toMgr := l } with mgr := .reply i res own todo }
    | [] => if x.isOpen then none else some { s with mgr := .reply i SessionCmd.masterError true todo }

/-- The thread takes the lock. -/
def takeLock (s : ProxyState) : Thread → Option ProxyState
  | .manager =>
    let held : Option MgrPc := match s.mgr with
      | .wantAccept => some .accept
      | .wantRecv ready => some (.scan (s.svec.filter fun i => i ∈ ready))
      | .wantSessions => some .sessions
      | .wantControl c => some (.control c)
      | .wantShutdown => some (.shutdown s.svec)
      | .wantWait => some (.shutdown [])
      | _ => none
    held.map fun pc => { s with lock := some .manager, mgr := pc }
  | .session i =>
    let x := s.sess i
    match x.pc with
    | .start => some { s.setSess i { x with pc := .adding } with lock := some (.session i) }
    | .ending => some { s.setSess i { x with pc := .leaving } with lock := some (.session i) }
    | _ => none

/-- `Session::do_slave` up to the answer. -/
def doSlave (s : ProxyState) (i : ℕ) (x : Sess) (sid : ℕ) : ProxyState :=
  if sid = 0 then s.setSess i x
  else
    s.setSess i { x with
      pc := .answer sid
      slave := s.getSession sid
      overwritten := x.overwritten || x.slave.isSome }

/-- `Session::cmdHandler`. `valid` says that a connection to be closed is one of the session. -/
def cmdHandler (s : ProxyState) (i : ℕ) (valid : Bool) : Option ProxyState :=
  let x := s.sess i
  match x.toSess with
  | [] => none
  | c :: l =>
    let x := { x with toSess := l }
    match c with
    | .shutdown => some (s.setSess i x.close)
    | .closeConn a => some (s.setSess i (if a = 0 || valid then x else x.close))
    | .slave sid => some (s.doSlave i x sid)
    | .masterResp res => some (s.setSess i (x.masterResp res))
    | _ => some (s.setSess i x)

/-- The object of the observer is deleted. -/
def deleteSlave (s : ProxyState) (i : ℕ) : ProxyState :=
  match (s.sess i).slave with
  | none => s
  | some j =>
    let s := s.setSess j { (s.sess j).close with deleted := true }
    s.setSess i { s.sess i with status := .normal, slave := none, removing := false }

/-- The client of the session has gone, or the session ends for a reason of its own. The client of a
session with a master is served by the thread of the master. -/
def closeSession (s : ProxyState) (i : ℕ) : ProxyState :=
  let x := s.sess i
  let s := s.setSess i x.close
  if x.status = .slave then
    match x.master with
    | none => s
    | some m =>
      if (s.sess m).status = .master ∧ (s.sess m).slave = some i then
        s.setSess m { s.sess m with removing := true }
      else s
  else s

def step (s : ProxyState) : ProxyAct → Option ProxyState
  | .select e =>
    if s.mgr = .select then
      match e with
      | .client => some { s with mgr := .wantAccept }
      | .sessions => some { s with mgr := .wantRecv (s.svec.filter fun i => (s.sess i).ready) }
      | .getSessions => some { s with mgr := .wantSessions }
      | .control c => some { s with mgr := .wantControl c }
      | .term => some { s with mgr := .wantShutdown }
    else none
  | .mkSession i cid made =>
    if s.mgr = .accept ∧ (s.sess i).pc = .unborn ∧ cid ≠ 0 then
      let s := { s with lock := none, mgr := .select }
      some (if made then s.setSess i { cid := cid, pc := .start } else s)
    else none
  | .recv =>
    match s.mgr with
    | .scan [] => some { s with lock := none, mgr := .select }
    | .scan (i :: todo) => s.recvFromSess i todo
    | _ => none
  | .askMaster =>
    match s.mgr with
    | .master i sid todo => some (s.doMaster i sid todo)
    | _ => none
  | .readAnswer =>
    match s.mgr with
    | .await i m todo => s.readAnswer i m todo
    | _ => none
  | .sendAnswer =>
    match s.mgr with
    | .reply i res _ todo => some { s.setSess i ((s.sess i).tell (.masterResp res)) with mgr := .scan todo }
    | _ => none
  | .command target =>
    match s.mgr with
    | .control c =>
      let s' := { s with lock := none, mgr := .select }
      match c with
      | .remSession sid =>
        match s.getSession sid with
        | none => some s'
        | some i => some (s'.setSess i ((s.sess i).tell .shutdown))
      | .remConnection cid =>
        match target with
        | none => some s'
        | some i => if i ∈ s.svec then some (s'.setSess i ((s.sess i).tell (.closeConn cid))) else none
    | _ => none
  | .tellShutdown timeout =>
    match s.mgr with
    | .shutdown (i :: todo) =>
      some { s.setSess i ((s.sess i).tell .shutdown) with mgr := .shutdown todo }
    | .shutdown [] => some { s with lock := none, mgr := if s.svec = [] || timeout then .off else .wait }
    | .wait => some { s with mgr := .wantWait }
    | _ => none
  | .lock t => if s.lock = none then s.takeLock t else none
  | .added i =>
    if (s.sess i).pc = .adding then
      some { s.setSess i { s.sess i with pc := .run } with lock := none, svec := s.svec ++ [i] }
    else none
  | .share i sid =>
    let x := s.sess i
    if x.pc = .run ∧ x.closing = false ∧ x.status ≠ .slave ∧ x.status ≠ .slavePending then
      some (s.setSess i { x.send (.master sid) with status := .slavePending })
    else none
  | .cmd i valid =>
    if (s.sess i).pc = .run ∧ (s.sess i).closing = false ∧ (s.sess i).status ≠ .slave then
      s.cmdHandler i valid
    else none
  | .answer i =>
    let x := s.sess i
    match x.pc with
    | .answer sid =>
      let res := if x.slave.isSome then SessionCmd.slaveOK else SessionCmd.slaveReject
      if x.isOpen then
        let pc := if x.slave.isSome then .grant else .run
        some (s.setSess i { x.send (.slaveResp res sid) with pc := pc })
      else some (s.setSess i { { x with slave := none }.close with pc := .run })
    | _ => none
  | .grant i =>
    if (s.sess i).pc = .grant then
      match (s.sess i).slave with
      | none => none
      | some j =>
        let s := s.setSess j { s.sess j with master := some i }
        some (s.setSess i { s.sess i with status := .master, pc := .run })
    else none
  | .close i =>
    if (s.sess i).deleted = false ∧ ((s.sess i).pc = .run ∨ (s.sess i).master.isSome) then
      some (s.closeSession i)
    else none
  | .release i =>
    let x := s.sess i
    if x.pc = .run ∧ x.closing = false ∧ x.status = .master then
      some (s.setSess i { x with removing := true })
    else none
  | .dropSlave i =>
    let x := s.sess i
    if x.pc = .run ∧ x.closing = false ∧ x.removing = true then some (s.deleteSlave i) else none
  | .leave i =>
    let x := s.sess i
    if x.pc = .run ∧ (x.closing = true ∨ x.status = .slave) then
      let s := s.setSess i x.close
      let s := if x.close.removing then s.deleteSlave i else s
      some (s.setSess i { s.sess i with pc := .ending })
    else none
  | .removed i =>
    let x := s.sess i
    if x.pc = .leaving then
      some { s.setSess i { x with pc := .done, deleted := x.deleted || x.status ≠ .slave } with
        lock := none, svec := s.svec.erase i }
    else none

end ProxyState

end OnlDaemons.Proxy

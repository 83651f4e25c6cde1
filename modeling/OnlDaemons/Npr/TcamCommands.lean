import OnlDaemons.Lib.Wire
import Mathlib.Logic.Function.Basic

/-!
# The commands of the TCAM daemon

A command is one word, then what it is about. A response is one word, and a second one if a query was
answered. Neither says how long it is: what one `read` returns is taken as one message.

## Main definitions

- `TcamCommand`, `commands` — the commands, in the order of their codes
- `TcamRequest` — what a function of the NPR daemon writes
- `Tcamd`, `Tcamd.serve` — the TCAM daemon and what it does with what it has read
- `TcamCaller.accept` — what the caller makes of a response

## Main results

- `serve_request` — a whole command is executed on the database of the router that sent it
- `Tcamd.Sound.serve` — a router whose state is INIT has its databases
-/

namespace OnlDaemons.Npr
open OnlDaemons.Lib

inductive Npu
  | npra
  | nprb
deriving DecidableEq, Repr

inductive TcamTable
  | route
  | pfilter
  | afilter
  | arp
deriving DecidableEq, Repr

inductive TcamCommand
  | routerInit
  | routerStop
  | add (d : TcamTable)
  | del (d : TcamTable)
  | query (d : TcamTable)
deriving DecidableEq, Repr

/-- `ROUTERINIT` is 0, and `QUERYARP` 13. -/
def commands : List TcamCommand :=
  [.routerInit, .routerStop,
    .add .route, .del .route, .query .route,
    .add .pfilter, .del .pfilter, .query .pfilter,
    .add .afilter, .del .afilter, .query .afilter,
    .add .arp, .del .arp, .query .arp]

def TcamCommand.code (c : TcamCommand) : ℕ := commands.idxOf c

theorem commands_code (c : TcamCommand) : commands[c.code]? = some c := by
  rcases c with _ | _ | d | d | d
  · rfl
  · rfl
  · cases d <;> rfl
  · cases d <;> rfl
  · cases d <;> rfl

/-- `sizeof(route_key)` and so on. -/
def TcamTable.keySize : TcamTable → ℕ
  | .route | .arp => 12
  | .pfilter | .afilter => 20

/-- A key, a mask, the result and the index. -/
def TcamTable.infoSize (d : TcamTable) : ℕ := d.keySize + d.keySize + 4 + 4

def TcamCommand.payloadSize : TcamCommand → ℕ
  | .routerInit | .routerStop => 0
  | .add d => d.infoSize
  | .del _ => 4
  | .query d => d.keySize

/-- The database that the command is about. -/
def TcamCommand.table : TcamCommand → Option TcamTable
  | .routerInit | .routerStop => none
  | .add d | .del d | .query d => some d

/-! ### The TCAM daemon -/

def tcamSuccess : ℕ := 0
def tcamFailure : ℕ := 1
def tcamInUse : ℕ := 2
def tcamAlreadyInvalid : ℕ := 3
def tcamNotFound : ℕ := 4
def tcamUnknown : ℕ := 5

/-- What the TCAM library reports. -/
inductive LibStatus
  | success
  | resourceInUse
  | alreadyInvalid
  | error
  | other
deriving DecidableEq, Repr

/-- What the functions called for one command return: the result word of a lookup, and which databases
`create_db` made. `junk` is what stands in the response buffer. -/
structure LibOutcome where
  status : LibStatus := .success
  result : ℕ := 0
  created : TcamTable → Bool := fun _ => true
  junk : List UInt8 := [0, 0, 0]

/-- A database is made with the parameters of one router. -/
structure TcamDatabase where
  npu : Npu
  table : TcamTable
deriving DecidableEq, Repr

inductive TcamState
  | init
  | stop
deriving DecidableEq, Repr

/-- `db` is NULL for a database that has not been created. -/
structure Tcamd where
  tcamState : Npu → TcamState := fun _ => .stop
  db : Npu → TcamTable → Option TcamDatabase := fun _ _ => none

def word (code : ℕ) : List UInt8 := bytesOf 4 code

def allCreated (o : LibOutcome) : Bool :=
  o.created .route && o.created .pfilter && o.created .afilter && o.created .arp

namespace Tcamd

def routerInit (s : Tcamd) (n : Npu) (o : LibOutcome) : Tcamd × List UInt8 :=
  if s.tcamState n = .init then (s, word tcamSuccess)
  else if allCreated o then
    ({ tcamState := Function.update s.tcamState n .init
       db := Function.update s.db n fun d => some ⟨n, d⟩ }, word tcamSuccess)
  else ({ s with db := Function.update s.db n fun _ => none }, word tcamFailure)

def routerStop (s : Tcamd) (n : Npu) : Tcamd :=
  if s.tcamState n = .stop then s
  else
    { tcamState := Function.update s.tcamState n .stop
      db := Function.update s.db n fun _ => none }

/-- What `addroute`, `delroute`, `queryroute` and the others answer to a command that is long enough. -/
def answer : TcamCommand → LibOutcome → List UInt8
  | .add _, o =>
    match o.status with
    | .success => word tcamSuccess
    | .resourceInUse => word tcamInUse
    | _ => word tcamFailure
  | .del _, o =>
    match o.status with
    | .success => word tcamSuccess
    | .alreadyInvalid => word tcamAlreadyInvalid
    | _ => word tcamFailure
  | .query _, o =>
    match o.status with
    | .success => word tcamSuccess ++ word o.result
    | .error => word tcamNotFound
    | _ => word tcamFailure
  | .routerInit, _ | .routerStop, _ => word tcamSuccess

/-- The database that the bytes read make the daemon use. -/
def uses (buf : List UInt8) : Option TcamTable :=
  match commands[bigEndian (buf.take 4)]? with
  | none => none
  | some c => if buf.length < 4 + c.payloadSize then none else c.table

/-- One round of the loop in `main`, with at least four bytes read; `none` if a NULL pointer is used.
The state of the router is not looked at. -/
def serve (s : Tcamd) (n : Npu) (buf : List UInt8) (o : LibOutcome) :
    Option (Tcamd × List UInt8) :=
  match commands[bigEndian (buf.take 4)]? with
  -- only the first byte of the response is set
  | none => some (s, UInt8.ofNat tcamUnknown :: o.junk)
  | some .routerInit => some (s.routerInit n o)
  | some .routerStop => some (s.routerStop n, word tcamSuccess)
  | some c =>
    if buf.length < 4 + c.payloadSize then some (s, word tcamFailure)
    else
      match c.table.bind (s.db n) with
      | none => none
      | some _ => some (s, answer c o)

/-- A router whose state is INIT has its four databases. -/
def Sound (s : Tcamd) : Prop :=
  ∀ n, s.tcamState n = .init → ∀ d, s.db n d = some ⟨n, d⟩

variable {s u : Tcamd} {n : Npu} {o : LibOutcome} {buf bs : List UInt8}

theorem Sound.routerInit (h : s.Sound) : (s.routerInit n o).1.Sound := by
  unfold Tcamd.routerInit
  split
  · exact h
  · next hst =>
    split
    · intro m hm d
      by_cases hmn : m = n
      · subst hmn
        simp only [Function.update_self]
      · simp only [Function.update_of_ne hmn] at hm ⊢
        exact h m hm d
    · intro m hm d
      have hmn : m ≠ n := by
        rintro rfl
        exact hst hm
      simp only [Function.update_of_ne hmn]
      exact h m hm d

theorem Sound.routerStop (h : s.Sound) : (s.routerStop n).Sound := by
  unfold Tcamd.routerStop
  split
  · exact h
  · intro m hm d
    by_cases hmn : m = n
    · subst hmn
      simp only [Function.update_self] at hm
      cases hm
    · simp only [Function.update_of_ne hmn] at hm ⊢
      exact h m hm d

theorem routerInit_other {m : Npu} (hm : m ≠ n) :
    (s.routerInit n o).1.tcamState m = s.tcamState m := by
  unfold Tcamd.routerInit
  split
  · rfl
  · split
    · exact Function.update_of_ne hm ..
    · rfl

theorem routerStop_other {m : Npu} (hm : m ≠ n) :
    (s.routerStop n).tcamState m = s.tcamState m := by
  unfold Tcamd.routerStop
  split
  · rfl
  · exact Function.update_of_ne hm ..

theorem word_ne_nil (code : ℕ) : word code ≠ [] := by
  intro h
  have hlen : (word code).length = 4 := length_bytesOf 4 code
  rw [h] at hlen
  cases hlen

theorem answer_ne_nil (c : TcamCommand) : answer c o ≠ [] := by
  unfold answer
  split
  · split <;> exact word_ne_nil _
  · split <;> exact word_ne_nil _
  · split
    · exact List.append_ne_nil_of_left_ne_nil (word_ne_nil _) _
    · exact word_ne_nil _
    · exact word_ne_nil _
  · exact word_ne_nil _
  · exact word_ne_nil _

theorem routerInit_ne_nil : (s.routerInit n o).2 ≠ [] := by
  unfold Tcamd.routerInit
  split
  · exact word_ne_nil _
  · split <;> exact word_ne_nil _

/-- All that a round of the loop can do: every command gets a response. -/
theorem serve_cases (hs : s.serve n buf o = some (u, bs)) :
    bs ≠ [] ∧ (u = s ∨ u = (s.routerInit n o).1 ∨ u = s.routerStop n) := by
  unfold Tcamd.serve at hs
  split at hs
  · cases hs
    exact ⟨List.cons_ne_nil _ _, .inl rfl⟩
  · have hp : s.routerInit n o = (u, bs) := Option.some.inj hs
    refine ⟨?_, .inr (.inl (by rw [hp]))⟩
    have hne := routerInit_ne_nil (s := s) (n := n) (o := o)
    rwa [hp] at hne
  · cases hs
    exact ⟨word_ne_nil _, .inr (.inr rfl)⟩
  · split at hs
    · cases hs
      exact ⟨word_ne_nil _, .inl rfl⟩
    · split at hs <;> cases hs
      exact ⟨answer_ne_nil _, .inl rfl⟩

theorem Sound.serve (h : s.Sound) (hs : s.serve n buf o = some (u, bs)) : u.Sound := by
  obtain ⟨-, rfl | rfl | rfl⟩ := serve_cases hs
  · exact h
  · exact h.routerInit
  · exact h.routerStop

theorem serve_other {m : Npu} (hm : m ≠ n) (hs : s.serve n buf o = some (u, bs)) :
    u.tcamState m = s.tcamState m := by
  obtain ⟨-, rfl | rfl | rfl⟩ := serve_cases hs
  · rfl
  · exact routerInit_other hm
  · exact routerStop_other hm

end Tcamd

/-! ### The functions of the NPR daemon -/

/-- The calls that write a command. `delQuery` is the query that comes first in `del_route` and so
on. -/
inductive TcamCaller
  | startRouter
  | stopRouter
  | add (d : TcamTable)
  | query (d : TcamTable)
  | delQuery (d : TcamTable)
  | del (d : TcamTable)
deriving DecidableEq, Repr

/-- The word the exception texts use for an entry of the database. -/
def TcamTable.what : TcamTable → String
  | .route => "route"
  | .pfilter => "pfilter"
  | .afilter => "afilter"
  | .arp => "arp entry"

namespace TcamCaller

def command : TcamCaller → TcamCommand
  | startRouter => .routerInit
  | stopRouter => .routerStop
  | add d => .add d
  | query d | delQuery d => .query d
  | del d => .del d

def responseSize : TcamCaller → ℕ
  | query _ | delQuery _ => 8
  | _ => 4

def writeFailed : TcamCaller → String
  | startRouter => "write failed"
  | stopRouter => "TCAM daemon ROUTERSTOP failed"
  | _ => "write to tcamd failed!"

def readFailed : TcamCaller → String
  | stopRouter => "TCAM daemon ROUTERSTOP failed"
  | _ => "read failed"

def wrongSize : TcamCaller → String
  | stopRouter => "TCAM daemon ROUTERSTOP failed"
  | _ => "response from tcamd too small"

def queryFailed : TcamTable → String
  | .arp => "arp query failed!"
  | d => "querying the " ++ d.what ++ " failed!"

/-- What the first word of the response makes of the call. `stop_router` only logs its text. -/
def check (caller : TcamCaller) (code : ℕ) : Except String Unit :=
  match caller with
  | startRouter => if code ≠ tcamSuccess then .error "ROUTERINIT failed!" else .ok ()
  | stopRouter => if code ≠ tcamSuccess then .error "TCAM daemon ROUTERSTOP failed" else .ok ()
  | add d =>
    if code ≠ tcamSuccess then .error ("adding the " ++ d.what ++ " failed!") else .ok ()
  | query d =>
    if code = tcamFailure then .error (queryFailed d)
    else if code = tcamNotFound then .error ("no " ++ d.what ++ " matches that key!")
    else .ok ()
  | delQuery d =>
    if code = tcamFailure then .error ("deleting the " ++ d.what ++ " failed!")
    else if code = tcamNotFound then .error ("no " ++ d.what ++ " matches that key!")
    else .ok ()
  | del d =>
    if code = tcamFailure then .error ("deleting the " ++ d.what ++ " failed!") else .ok ()

/-- What the caller takes from the bytes that its `read` returned: the second word of a query. -/
def accept (caller : TcamCaller) (rbuf : List UInt8) : Except String ℕ :=
  if rbuf.length ≠ caller.responseSize then .error caller.wrongSize
  else
    match caller.check (bigEndian (rbuf.take 4)) with
    | .error text => .error text
    | .ok () => .ok (bigEndian ((rbuf.drop 4).take 4))

end TcamCaller

/-- What a caller writes: the whole structure of its command. -/
structure TcamRequest where
  caller : TcamCaller
  payload : List UInt8
  size : payload.length = caller.command.payloadSize

namespace TcamRequest

variable (r : TcamRequest)

def bytes : List UInt8 := word r.caller.command.code ++ r.payload

theorem length_bytes : r.bytes.length = 4 + r.caller.command.payloadSize := by
  rw [bytes, List.length_append, r.size]
  exact congrArg (· + _) (length_bytesOf 4 _)

theorem commands_bytes : commands[bigEndian (r.bytes.take 4)]? = some r.caller.command := by
  have hcode : ∀ c : TcamCommand, c.code < 256 ^ 4 := by
    rintro (_ | _ | d | d | d)
    · decide
    · decide
    · cases d <;> decide
    · cases d <;> decide
    · cases d <;> decide
  have htake : r.bytes.take 4 = bytesOf 4 r.caller.command.code :=
    List.take_left' (length_bytesOf 4 _)
  rw [htake, bigEndian_bytesOf, Nat.mod_eq_of_lt (hcode _), commands_code]

theorem uses_bytes : Tcamd.uses r.bytes = r.caller.command.table := by
  have hlen := r.length_bytes
  simp only [Tcamd.uses, r.commands_bytes]
  rw [if_neg (by omega)]

/-- A whole command is executed, on the database of the router that sent it. -/
theorem serve_request {s : Tcamd} {n : Npu} {o : LibOutcome}
    (h : ∀ d, r.caller.command.table = some d → s.db n d ≠ none) :
    ∃ u bs, s.serve n r.bytes o = some (u, bs) := by
  have hlen := r.length_bytes
  simp only [Tcamd.serve, r.commands_bytes]
  cases hc : r.caller.command with
  | routerInit => exact ⟨_, _, rfl⟩
  | routerStop => exact ⟨_, _, rfl⟩
  | add d | del d | query d =>
    rw [hc] at h hlen
    obtain ⟨x, hx⟩ := Option.ne_none_iff_exists'.mp (h d rfl)
    simp only [TcamCommand.table, Option.bind_some, hx]
    rw [if_neg (by omega)]
    exact ⟨_, _, rfl⟩

end TcamRequest

end OnlDaemons.Npr

import OnlDaemons.Lib.Run
import OnlDaemons.Shared.OnlResponses

/-!
# The relay of the base daemon

The base daemon passes requests it does not know on to the daemon that specialises it, under a rendezvous of its own,
and the answer back to where the request has come from. A periodic request is passed on at each firing. The same request
object is used for both directions: it is turned to the other daemon and, when that has answered or the time is over,
turned back.

## Main definitions

- `RelayRequest.ofMessage` — a request to relay, from the bytes of a message
- `SpecResponse.relay` — what is sent for an answer
- `Relay`, `Relay.step` — a request, its firings and the answers that arrive
- `Relay.Transparent` — the bytes go through, and each firing has its answers or a time-out
- `Relay.Careful` — the steps that keep it so

## Main result

- `transparent_of_careful`
-/

namespace OnlDaemons.Base
open OnlDaemons.Lib OnlDaemons.Shared

/-! ### The request -/

/-- The request that is made of a message of `size` bytes, and parsed. What is read behind them is garbage. -/
def requestOf (mem : ℕ → UInt8) (size : ℕ) : RelayRequest := (RelayRequest.parse size mem (Cursor.at 0)).1

/-- The bytes of the message behind its header. -/
def payload (mem : ℕ → UInt8) (size : ℕ) : List UInt8 :=
  let header := (requestOf mem size).wireSize
  window mem header (size - header)

/-- The header of a message has always the same size, and that of a periodic request the period behind it. -/
theorem pos_parse (mem : ℕ → UInt8) :
    (Request.parse mem (Cursor.at 0)).2.pos = (Request.parse mem (Cursor.at 0)).1.wireSize := by
  have hheader : (Message.parse mem (Cursor.at 0)).2.pos = 34 := rfl
  have hparse : Request.parse mem (Cursor.at 0) =
      (getWhen (Message.parse mem (Cursor.at 0)).1.periodic_message Timeval.get ⟨0,0⟩ >>= fun period =>
        pure { (Message.parse mem (Cursor.at 0)).1 with period := period }) mem (Message.parse mem (Cursor.at 0)).2 := rfl
  rw [hparse]
  show _ = 34 + if (Message.parse mem (Cursor.at 0)).1.periodic_message then 8 else 0
  unfold getWhen
  split
  · exact congrArg (· + 8) hheader
  · exact hheader

/-- The payload is all of the message that is kept beside the header. -/
theorem data_requestOf (mem : ℕ → UInt8) (size : ℕ) : (requestOf mem size).data = payload mem size := by
  show window mem (Request.parse mem (Cursor.at 0)).2.pos (size - (Request.parse mem (Cursor.at 0)).2.pos) = _
  rw [pos_parse]
  rfl

/-! ### The answers -/

def NCCP_Status_Fine : UInt32 := 1

def NCCP_Status_TimeoutRemote : UInt32 := 3

/-- `rli_response` or `crd_response`, as the operation of the message has it. -/
inductive SpecResponse
  | rli (r : RliResponse)
  | crd (r : CrdResponse)
deriving DecidableEq, Repr

/-- `experiment::operator=` -/
def copyExperiment (e : Experiment) : Experiment where
  addr := e.addr.copy
  port := e.port
  info := ⟨e.info.ID.copy,e.info.expName.copy,e.info.userName.copy⟩

/-- `component::operator=` -/
def copyComponent (c : Component) : Component :=
  { c with type := c.type.copy, label := c.label.copy, cp := c.cp.copy }

namespace SpecResponse

def encode : SpecResponse → List UInt8
  | rli r => r.encode
  | crd r => r.encode

def write : SpecResponse → Encoder
  | rli r => r.write
  | crd r => r.write

def status : SpecResponse → UInt32
  | rli r => r.status
  | crd r => r.status

def endOfMessage : SpecResponse → Bool
  | rli r => r.end_of_message
  | crd r => r.end_of_message

/-- The strings that are copied. -/
def strings : SpecResponse → List NccpString
  | rli r => [r.status_msg]
  | crd r => r.exp.strings ++ r.comp.strings

/-- The constructors of `rli_relay_resp` and `crd_relay_resp`, with the header of a response to the request.
`getStatusMsg` returns a copy. -/
def relay (head : Response) : SpecResponse → SpecResponse
  | rli r => rli {
      toResponse := { head with end_of_message := !(!r.end_of_message) }
      status := r.status
      time_stamp := r.time_stamp
      clock_rate := r.clock_rate
      value := r.value
      status_msg := r.status_msg.copy.copy }
  | crd r => crd {
      toResponse := { head with end_of_message := !(!r.end_of_message) }
      status := r.status
      exp := copyExperiment r.exp
      comp := copyComponent r.comp }

/-- The same answer under the header of the originator. -/
def readdress (head : Response) : SpecResponse → SpecResponse
  | rli r => rli { r with toResponse := { head with end_of_message := r.end_of_message } }
  | crd r => crd { r with toResponse := { head with end_of_message := r.end_of_message } }

/-- The response for a time-out. The experiment and component of a `crd_relay_req` are never parsed. -/
def timeoutRemote (fromCrd : Bool) (head : Response) : SpecResponse :=
  let head := { head with end_of_message := true }
  if fromCrd then
    crd {
      toResponse := head
      status := NCCP_Status_TimeoutRemote
      exp := ⟨.empty,0,⟨.empty,.empty,.empty⟩⟩
      comp := ⟨.empty,0,0,.empty,.empty,false⟩ }
  else
    rli {
      toResponse := head
      status := NCCP_Status_TimeoutRemote
      time_stamp := 0
      clock_rate := 0
      value := 0
      status_msg := .empty }

theorem relay_eq_readdress {head : Response} {r : SpecResponse} (h : ∀ s ∈ r.strings, s.copy = s) :
    r.relay head = r.readdress head := by
  cases r with
  | rli r =>
    have hmsg := h r.status_msg (List.mem_singleton_self _)
    simp [relay,readdress,hmsg]
  | crd r =>
    have hexp : copyExperiment r.exp = r.exp := by
      simp [strings,Experiment.strings,ExperimentInfo.strings] at h
      simp [copyExperiment,h]
    have hcomp : copyComponent r.comp = r.comp := by
      simp [strings,Component.strings] at h
      simp [copyComponent,h]
    simp [relay,readdress,hexp,hcomp]

end SpecResponse

/-- An answer: the fields of its class, and the bytes behind them. -/
abbrev Answer := RelayResponse SpecResponse

/-- The buffer of a new response. -/
def responseSize : ℕ := 2048

/-- `rli_relay_resp::write` and `crd_relay_resp::write` write behind the end of the buffer of the response if the answer
is too long for it. -/
theorem write_isSome (out : Answer) (garbage : ℕ → UInt8) :
    (out.write SpecResponse.write (ByteBuffer.new garbage)).isSome ↔
      out.resp.encode.length + out.rest.length ≤ responseSize := by
  have hwrite : ∀ r : SpecResponse, r.write = put r.encode := by
    intro r
    cases r with
    | rli r => exact RliResponse.write_eq r
    | crd r => exact CrdResponse.write_eq r
  rw [RelayResponse.write_eq hwrite,put_apply _ _ (Nat.zero_le _),List.length_append]
  show 0 + _ ≤ responseSize ↔ _
  rw [Nat.zero_add]

/-! ### The firings -/

inductive Peer
  | originator
  | spec
deriving DecidableEq, Repr

/-- Where the thread of the request is. Outside of `handle` it is idle. -/
inductive RelayPhase
  | idle
  | waiting
  | timedOut
  | waited (success : Bool)
  | cleared (success : Bool)
deriving DecidableEq, Repr

/-- A firing: the rendezvous of its own if it has one, the bytes that are sent with it, the answers to it that have come
while it was registered and those that have not, and what has been sent for it in the end. -/
structure Firing where
  rend : Option Rendezvous
  sent : Option (List UInt8) := none
  found : List Answer := []
  late : List Answer := []
  relayed : List (Peer × Answer) := []
deriving DecidableEq, Repr

/-- `calling` are the answers that a dispatcher thread has found the request for and not handed over yet. `broken` says
that a response that is deleted has been used, or a buffer written behind its end. -/
structure Relay where
  req : RelayRequest
  returnRend : Rendezvous
  fromCrd : Bool
  conn : Peer
  origRend : Rendezvous
  origPeriodic : Bool
  phase : RelayPhase
  registered : Option Rendezvous
  calling : List Answer
  receivedResponse : Bool
  resp : Option Answer
  receivedStop : Bool
  current : Option Firing
  past : List Firing
  deleted : Bool
  broken : Bool

/-- `fire` is `handle` up to its wait, with the rendezvous it gets and whether the message can be sent; without a
connection to the other daemon it is `unavailable`. -/
inductive RelayAct
  | unavailable
  | fire (rend : Rendezvous) (sent : Bool)
  | answer (rend : Rendezvous) (a : Answer)
  | deliver (a : Answer)
  | wake
  | timeout
  | giveUp
  | clear
  | respond
  | stop
  | delete
deriving DecidableEq, Repr

namespace Relay

/-- A request of a message, with the rendezvous it gets if it is periodic. -/
def init (mem : ℕ → UInt8) (size : ℕ) (returnRend : Rendezvous) (fromCrd : Bool) : Relay where
  req := requestOf mem size
  returnRend := returnRend
  fromCrd := fromCrd
  conn := .originator
  origRend := Rendezvous.new 0 0
  origPeriodic := false
  phase := .idle
  registered := none
  calling := []
  receivedResponse := false
  resp := none
  receivedStop := false
  current := none
  past := []
  deleted := false
  broken := false

/-- The constructor of `response`. -/
def head (s : Relay) : Response where
  type := NCCP_MessageResponse
  version := s.req.version
  op := s.req.op
  rend := s.req.rend
  periodic_message := s.req.periodic_message
  return_rend := s.returnRend
  end_of_message := true

/-- An answer to a rendezvous, in the books of a firing. -/
def note (rend : Rendezvous) (a : Answer) (registered : Bool) (f : Firing) : Firing :=
  if f.rend.map Rendezvous.key = some rend.key then
    if registered then { f with found := f.found ++ [a] } else { f with late := f.late ++ [a] }
  else f

/-- The end of `handle`: `out` is sent over the connection of the request. -/
def finish (s : Relay) (f : Firing) (out : Answer) : Relay :=
  { s with
    phase := .idle
    current := none
    past := s.past ++ [{ f with relayed := f.relayed ++ [(s.conn,out)] }] }

/-- `err` -/
def timeoutAnswer (s : Relay) : Answer := ⟨SpecResponse.timeoutRemote s.fromCrd s.head,[]⟩

def act (s : Relay) (a : RelayAct) : Option Relay :=
  match a with
  | .unavailable =>
    if s.phase = .idle ∧ !s.deleted then
      some ({ s with receivedStop := s.receivedStop || s.req.periodic_message }.finish
        { rend := none } s.timeoutAnswer)
    else none
  | .fire rend sent =>
    if s.phase = .idle ∧ !s.deleted then
      let req := { s.req with rend := rend, periodic_message := false }
      some { s with
        req := req
        conn := .spec
        origRend := s.req.rend
        origPeriodic := s.req.periodic_message
        registered := some rend
        current := some { rend := some rend, sent := if sent then some req.encode else none }
        phase := if sent then .waiting else .waited false }
    else none
  | .answer rend a =>
    let registered : Bool := s.registered.map Rendezvous.key = some rend.key
    some { s with
      calling := if registered then s.calling ++ [a] else s.calling
      current := s.current.map (note rend a registered)
      past := s.past.map (note rend a false) }
  | .deliver a =>
    if a ∈ s.calling then
      if s.deleted then some { s with broken := true }
      else some { s with calling := s.calling.erase a, resp := some a, receivedResponse := true }
    else none
  | .wake =>
    if s.phase = .waiting ∧ s.receivedResponse then
      some { s with receivedResponse := false, phase := .waited true }
    else none
  | .timeout => if s.phase = .waiting then some { s with phase := .timedOut } else none
  | .giveUp =>
    if s.phase = .timedOut then some { s with receivedResponse := false, phase := .waited false } else none
  | .clear =>
    match s.phase with
    | .waited success =>
      some { s with
        registered := none
        req := { s.req with rend := s.origRend, periodic_message := s.origPeriodic }
        conn := .originator
        phase := .cleared success }
    | _ => none
  | .respond =>
    match s.phase,s.current with
    | .cleared false,some f => some (s.finish f s.timeoutAnswer)
    | .cleared true,some f =>
      match s.resp with
      | none => some { s with broken := true }
      | some a =>
        let out : Answer := ⟨a.resp.relay s.head,a.rest⟩
        if out.resp.encode.length + out.rest.length ≤ responseSize then
          some ({ s with
            receivedStop := s.receivedStop || (a.resp.status ≠ NCCP_Status_Fine && s.req.periodic_message)
            resp := none }.finish f out)
        else some { s with broken := true }
    | _,_ => none
  | .stop => some { s with receivedStop := true }
  | .delete =>
    if s.phase = .idle ∧ !s.deleted ∧ (s.req.periodic_message → s.receivedStop) then some { s with deleted := true }
    else none

def step (s : Relay) (a : RelayAct) : Option Relay := if s.broken then none else s.act a

/-! ### What should hold -/

section Transparency

variable (mem : ℕ → UInt8) (size : ℕ) (returnRend : Rendezvous) (fromCrd : Bool)

/-- The header of a response to the originator. -/
def origHead : Response := (init mem size returnRend fromCrd).head

/-- The originator has got every answer, or there was none in time and it has got one time-out. -/
def Relayed (f : Firing) : Prop :=
  (f.found = [] ∧
    f.relayed = [(.originator,⟨SpecResponse.timeoutRemote fromCrd (origHead mem size returnRend fromCrd),[]⟩)]) ∨
  (f.found ≠ [] ∧ f.late = [] ∧
    f.relayed = f.found.map fun a => (.originator,⟨a.resp.readdress (origHead mem size returnRend fromCrd),a.rest⟩))

/-- The size of the header of a request that is not periodic. -/
def headerSize : ℕ := 34

structure Transparent (s : Relay) : Prop where
  sound : s.broken = false
  sent : ∀ f ∈ s.past ++ s.current.toList, ∀ bytes ∈ f.sent, bytes.drop headerSize = payload mem size
  relayed : ∀ f ∈ s.past, Relayed mem size returnRend fromCrd f
  restored : s.phase = .idle → s.req = requestOf mem size ∧ s.conn = .originator

/-- The strings of the answer have nothing behind a NUL, and it fits into the buffer of a response. -/
def Faithful (a : Answer) : Prop :=
  (∀ x ∈ a.resp.strings, x.copy = x) ∧
    (a.resp.readdress (origHead mem size returnRend fromCrd)).encode.length + a.rest.length ≤ responseSize

/-- A firing gets a rendezvous that no earlier one has had. There is at most one answer to it, which comes while it is
waited for, or after the rendezvous has been cleared because of a time-out. -/
def Careful (s : Relay) (a : RelayAct) (_ : Relay) : Prop :=
  match a with
  | .fire rend _ => ∀ f ∈ s.past, f.rend.map Rendezvous.key ≠ some rend.key
  | .answer rend a =>
    (s.registered.map Rendezvous.key = some rend.key → s.phase = .waiting ∧ (∀ f ∈ s.current, f.found = []) ∧
      Faithful mem size returnRend fromCrd a) ∧
    (s.registered.map Rendezvous.key ≠ some rend.key →
      ∀ f ∈ s.past ++ s.current.toList, f.rend.map Rendezvous.key = some rend.key → f.found = [])
  | .timeout => s.receivedResponse = false ∧ s.calling = []
  | _ => True

instance (a : Answer) : Decidable (Faithful mem size returnRend fromCrd a) :=
  inferInstanceAs (Decidable (_ ∧ _))

instance (s : Relay) (a : RelayAct) (u : Relay) : Decidable (Careful mem size returnRend fromCrd s a u) :=
  match a with
  | .fire rend _ => inferInstanceAs (Decidable (∀ f ∈ s.past, f.rend.map Rendezvous.key ≠ some rend.key))
  | .answer _ _ => inferInstanceAs (Decidable (_ ∧ _))
  | .timeout => inferInstanceAs (Decidable (_ ∧ _))
  | .unavailable | .deliver _ | .wake | .giveUp | .clear | .respond | .stop | .delete => .isTrue trivial

/-- An answer that has been found is on its way or has been handed over. -/
def Arriving (s : Relay) (f : Firing) : Prop :=
  (f.found = [] ∧ s.calling = [] ∧ s.receivedResponse = false) ∨
  ∃ a, f.found = [a] ∧ Faithful mem size returnRend fromCrd a ∧
    ((s.calling = [a] ∧ s.receivedResponse = false) ∨
      (s.calling = [] ∧ s.receivedResponse = true ∧ s.resp = some a))

/-- What the end of the wait has found out. -/
def Settled (s : Relay) (f : Firing) (success : Bool) : Prop :=
  s.calling = [] ∧ s.receivedResponse = false ∧
    (success = false ∧ f.found = [] ∨
      success = true ∧ f.late = [] ∧ ∃ a, f.found = [a] ∧ Faithful mem size returnRend fromCrd a ∧ s.resp = some a)

/-- The request is turned to the other daemon. -/
def Turned (s : Relay) : Prop :=
  s.origRend = (requestOf mem size).rend ∧ s.origPeriodic = (requestOf mem size).periodic_message ∧
    ∃ rend, s.req = { requestOf mem size with rend := rend, periodic_message := false }

/-- How far the current firing is. -/
def Progress (s : Relay) : Prop :=
  match s.phase,s.current with
  | .idle,none =>
    s.registered = none ∧ s.calling = [] ∧ s.receivedResponse = false ∧ s.req = requestOf mem size ∧
      s.conn = .originator
  | .waiting,some f =>
    s.registered = f.rend ∧ f.rend.isSome ∧ f.late = [] ∧ Arriving mem size returnRend fromCrd s f ∧ Turned mem size s
  | .timedOut,some f =>
    s.registered = f.rend ∧ f.rend.isSome ∧ f.found = [] ∧ s.calling = [] ∧ s.receivedResponse = false ∧
      Turned mem size s
  | .waited success,some f =>
    s.registered = f.rend ∧ f.rend.isSome ∧ Settled mem size returnRend fromCrd s f success ∧ Turned mem size s
  | .cleared success,some f =>
    s.registered = none ∧ Settled mem size returnRend fromCrd s f success ∧ s.req = requestOf mem size ∧
      s.conn = .originator
  | _,_ => False

structure Inv (s : Relay) : Prop where
  sound : s.broken = false
  made : s.returnRend = returnRend ∧ s.fromCrd = fromCrd
  sent : ∀ f ∈ s.past ++ s.current.toList, ∀ bytes ∈ f.sent, bytes.drop headerSize = payload mem size
  relayed : ∀ f ∈ s.past, Relayed mem size returnRend fromCrd f
  quiet : ∀ f ∈ s.current, f.relayed = []
  fresh : ∀ f ∈ s.past, ∀ g ∈ s.current, ∀ k ∈ g.rend.map Rendezvous.key, f.rend.map Rendezvous.key ≠ some k
  gone : s.deleted → s.phase = .idle
  progress : Progress mem size returnRend fromCrd s

/-! ### One step -/

variable {mem size returnRend fromCrd}
variable {s u : Relay}

theorem drop_encode {r : RelayRequest} (h : r.periodic_message = false) : r.encode.drop headerSize = r.data := by
  have hlen : r.toRequest.encode.length = headerSize := by simp [Request.wireSize,headerSize,h]
  simp [RelayRequest.encode,← hlen]

/-- Turned back, the request is the one that has been received. -/
theorem Turned.back (h : Turned mem size s) :
    { s.req with rend := s.origRend, periodic_message := s.origPeriodic } = requestOf mem size := by
  obtain ⟨hrend,hperiodic,rend,hreq⟩ := h
  rw [hreq,hrend,hperiodic]

theorem Inv.step_eq (h : Inv mem size returnRend fromCrd s) (a : RelayAct) : s.step a = s.act a := by
  rw [step,if_neg (by simp [h.sound])]

theorem Inv.head_eq (h : Inv mem size returnRend fromCrd s) (hreq : s.req = requestOf mem size) :
    s.head = origHead mem size returnRend fromCrd := by
  simp only [head,hreq,h.made.1,origHead,init]

/-- An answer that goes out for a firing leaves the request as it was before. -/
theorem Inv.finish {f : Firing} {out : Answer} (h : Inv mem size returnRend fromCrd s)
    (hreq : s.req = requestOf mem size) (hconn : s.conn = .originator) (hregistered : s.registered = none)
    (hcalling : s.calling = []) (hreceived : s.receivedResponse = false)
    (hsent : ∀ bytes ∈ f.sent, bytes.drop headerSize = payload mem size)
    (hrelayed : Relayed mem size returnRend fromCrd { f with relayed := f.relayed ++ [(.originator,out)] }) :
    Inv mem size returnRend fromCrd (s.finish f out) where
  sound := h.sound
  made := h.made
  sent := by
    intro g hg
    rcases List.mem_append.1 (show g ∈ (s.past ++ [_]) ++ [] from hg) with hg | hg
    · rcases List.mem_append.1 hg with hg | hg
      · exact h.sent g (List.mem_append_left _ hg)
      · rw [List.mem_singleton] at hg
        subst hg
        exact hsent
    · cases hg
  relayed := by
    intro g hg
    rcases List.mem_append.1 (show g ∈ s.past ++ [_] from hg) with hg | hg
    · exact h.relayed g hg
    · rw [List.mem_singleton] at hg
      subst hg
      rw [hconn]
      exact hrelayed
  quiet := by rintro g ⟨⟩
  fresh := by rintro _ _ g ⟨⟩
  gone _ := rfl
  progress := ⟨hregistered,hcalling,hreceived,hreq,hconn⟩

/-- A step that leaves the firings and the request alone keeps what does not depend on how far it is. -/
theorem Inv.moved (h : Inv mem size returnRend fromCrd s)
    (hbroken : u.broken = s.broken) (hmade : u.returnRend = s.returnRend ∧ u.fromCrd = s.fromCrd)
    (hpast : u.past = s.past) (hcurrent : u.current = s.current) (hgone : u.deleted → u.phase = .idle)
    (hprogress : Progress mem size returnRend fromCrd u) : Inv mem size returnRend fromCrd u where
  sound := hbroken.trans h.sound
  made := ⟨hmade.1.trans h.made.1,hmade.2.trans h.made.2⟩
  sent := by
    rw [hpast,hcurrent]
    exact h.sent
  relayed := by
    rw [hpast]
    exact h.relayed
  quiet := by
    rw [hcurrent]
    exact h.quiet
  fresh := by
    rw [hpast,hcurrent]
    exact h.fresh
  gone := hgone
  progress := hprogress

/-- While the request is handled it is not deleted. -/
theorem Inv.not_deleted (h : Inv mem size returnRend fromCrd s) (hphase : s.phase ≠ .idle) : s.deleted ≠ true :=
  fun hdeleted => hphase (h.gone hdeleted)

theorem Inv.unavailable (h : Inv mem size returnRend fromCrd s) (hu : s.step .unavailable = some u) :
    Inv mem size returnRend fromCrd u := by
  rw [h.step_eq] at hu
  dsimp only [act] at hu
  split at hu
  case isFalse => cases hu
  case isTrue hidle =>
    cases hu
    have hp := h.progress
    have hcurrent : s.current = none := by
      cases hc : s.current with
      | none => rfl
      | some f => simp [Progress,hidle.1,hc] at hp
    simp only [Progress,hidle.1,hcurrent] at hp
    obtain ⟨hregistered,hcalling,hreceived,hreq,hconn⟩ := hp
    have hfinish : Inv mem size returnRend fromCrd (s.finish { rend := none } s.timeoutAnswer) := by
      refine h.finish hreq hconn hregistered hcalling hreceived (fun _ h => by cases h) (.inl ⟨rfl,?_⟩)
      rw [timeoutAnswer,h.head_eq hreq,h.made.2]
      rfl
    exact hfinish.moved rfl ⟨rfl,rfl⟩ rfl rfl (fun _ => rfl) ⟨hregistered,hcalling,hreceived,hreq,hconn⟩

theorem Inv.fire {rend : Rendezvous} {sent : Bool} (h : Inv mem size returnRend fromCrd s)
    (hfresh : ∀ f ∈ s.past, f.rend.map Rendezvous.key ≠ some rend.key) (hu : s.step (.fire rend sent) = some u) :
    Inv mem size returnRend fromCrd u := by
  rw [h.step_eq] at hu
  dsimp only [act] at hu
  split at hu
  case isFalse => cases hu
  case isTrue hidle =>
    cases hu
    have hp := h.progress
    have hcurrent : s.current = none := by
      cases hc : s.current with
      | none => rfl
      | some f => simp [Progress,hidle.1,hc] at hp
    simp only [Progress,hidle.1,hcurrent] at hp
    obtain ⟨-,hcalling,hreceived,hreq,-⟩ := hp
    have hturned : s.req.rend = (requestOf mem size).rend ∧
        s.req.periodic_message = (requestOf mem size).periodic_message ∧
        ∃ r, { s.req with rend := rend, periodic_message := false } =
          { requestOf mem size with rend := r, periodic_message := false } := by
      rw [hreq]
      exact ⟨rfl,rfl,rend,rfl⟩
    constructor
    case sound => exact h.sound
    case made => exact h.made
    case sent =>
      intro f hf bytes hbytes
      rcases List.mem_append.1 hf with hf | hf
      · exact h.sent f (List.mem_append_left _ hf) bytes hbytes
      · obtain rfl := List.mem_singleton.1 hf
        cases sent with
        | false => cases hbytes
        | true =>
          cases hbytes
          rw [drop_encode rfl,hreq]
          exact data_requestOf mem size
    case relayed => exact h.relayed
    case quiet =>
      rintro f ⟨⟩
      rfl
    case fresh =>
      rintro f hf g ⟨⟩ k ⟨⟩
      exact hfresh f hf
    case gone =>
      intro hdeleted
      have hdeleted : s.deleted = true := hdeleted
      simp [hdeleted] at hidle
    case progress =>
      cases sent with
      | false => exact ⟨rfl,rfl,⟨hcalling,hreceived,.inl ⟨rfl,rfl⟩⟩,hturned⟩
      | true => exact ⟨rfl,rfl,rfl,.inl ⟨rfl,hcalling,hreceived⟩,hturned⟩

theorem note_of_ne {rend : Rendezvous} {a : Answer} {registered : Bool} {f : Firing}
    (h : f.rend.map Rendezvous.key ≠ some rend.key) : note rend a registered f = f := if_neg h

@[simp] theorem note_rend {rend : Rendezvous} {a : Answer} {registered : Bool} {f : Firing} :
    (note rend a registered f).rend = f.rend := by
  unfold note
  split <;> [split; skip] <;> rfl

@[simp] theorem note_sent {rend : Rendezvous} {a : Answer} {registered : Bool} {f : Firing} :
    (note rend a registered f).sent = f.sent := by
  unfold note
  split <;> [split; skip] <;> rfl

@[simp] theorem note_relayed {rend : Rendezvous} {a : Answer} {registered : Bool} {f : Firing} :
    (note rend a registered f).relayed = f.relayed := by
  unfold note
  split <;> [split; skip] <;> rfl

/-- An answer that is dropped is only missed where others have been found. -/
theorem Relayed.note {rend : Rendezvous} {a : Answer} {f : Firing} (h : Relayed mem size returnRend fromCrd f)
    (hfound : f.rend.map Rendezvous.key = some rend.key → f.found = []) :
    Relayed mem size returnRend fromCrd (note rend a false f) := by
  by_cases hkey : f.rend.map Rendezvous.key = some rend.key
  · rcases h with ⟨_,hrelayed⟩ | ⟨hne,-⟩
    · rw [Relay.note,if_pos hkey]
      exact .inl ⟨hfound hkey,hrelayed⟩
    · exact absurd (hfound hkey) hne
  · rwa [note_of_ne hkey]

/-- What an answer does not change. -/
theorem Inv.answered {rend : Rendezvous} {a : Answer} {registered : Bool} (calling : List Answer)
    (h : Inv mem size returnRend fromCrd s)
    (hpast : ∀ f ∈ s.past, f.rend.map Rendezvous.key = some rend.key → f.found = [])
    (hprogress : Progress mem size returnRend fromCrd { s with
      calling, current := s.current.map (note rend a registered), past := s.past.map (note rend a false) }) :
    Inv mem size returnRend fromCrd { s with
      calling, current := s.current.map (note rend a registered), past := s.past.map (note rend a false) } where
  sound := h.sound
  made := h.made
  sent := by
    intro f hf
    rcases List.mem_append.1 hf with hf | hf
    · obtain ⟨g,hg,rfl⟩ := List.mem_map.1 hf
      simpa only [note_sent] using h.sent g (List.mem_append_left _ hg)
    · obtain ⟨g,hg,rfl⟩ := Option.map_eq_some_iff.1 (Option.mem_toList.1 hf)
      simpa only [note_sent] using h.sent g (List.mem_append_right _ (Option.mem_toList.2 hg))
  relayed := by
    intro f hf
    obtain ⟨g,hg,rfl⟩ := List.mem_map.1 hf
    exact (h.relayed g hg).note (hpast g hg)
  quiet := by
    intro f hf
    obtain ⟨g,hg,rfl⟩ := Option.map_eq_some_iff.1 hf
    simpa only [note_relayed] using h.quiet g hg
  fresh := by
    intro f hf g hg
    obtain ⟨f,hf',rfl⟩ := List.mem_map.1 hf
    obtain ⟨g,hg',rfl⟩ := Option.map_eq_some_iff.1 hg
    simpa only [note_rend] using h.fresh f hf' g hg'
  gone := h.gone
  progress := hprogress

/-- The current firing gets an answer while it is registered. -/
theorem Inv.found {rend : Rendezvous} {a : Answer} (h : Inv mem size returnRend fromCrd s)
    (hkey : s.registered.map Rendezvous.key = some rend.key) (hphase : s.phase = .waiting)
    (hnone : ∀ f ∈ s.current, f.found = []) (ha : Faithful mem size returnRend fromCrd a) :
    Inv mem size returnRend fromCrd { s with
      calling := s.calling ++ [a], current := s.current.map (note rend a true), past := s.past.map (note rend a false) } := by
  have hp := h.progress
  cases hcurrent : s.current with
  | none => simp [Progress,hphase,hcurrent] at hp
  | some f =>
    simp only [Progress,hphase,hcurrent] at hp
    obtain ⟨hregistered,hsome,hlate,harriving,hturned⟩ := hp
    have hfound : f.found = [] := hnone f hcurrent
    have hcalling : s.calling = [] ∧ s.receivedResponse = false := by
      rcases harriving with ⟨-,hcalling,hreceived⟩ | ⟨b,hb,-⟩
      · exact ⟨hcalling,hreceived⟩
      · simp [hfound] at hb
    rw [hregistered] at hkey
    have hpast : ∀ g ∈ s.past, g.rend.map Rendezvous.key = some rend.key → g.found = [] := by
      intro g hg hg'
      exact absurd hg' (h.fresh g hg f hcurrent _ hkey)
    rw [← hcurrent]
    refine h.answered _ hpast ?_
    have hnote : note rend a true f = { f with found := [a] } := by
      rw [note,if_pos hkey,if_pos rfl,hfound,List.nil_append]
    simp only [Progress,hphase,hcurrent,Option.map_some,hnote]
    refine ⟨hregistered,hsome,hlate,.inr ⟨a,rfl,ha,.inl ⟨?_,hcalling.2⟩⟩,hturned⟩
    rw [hcalling.1,List.nil_append]

/-- An answer to a rendezvous that is not registered is dropped. -/
theorem Inv.dropped {rend : Rendezvous} {a : Answer} (h : Inv mem size returnRend fromCrd s)
    (hkey : s.registered.map Rendezvous.key ≠ some rend.key)
    (hfound : ∀ f ∈ s.past ++ s.current.toList, f.rend.map Rendezvous.key = some rend.key → f.found = []) :
    Inv mem size returnRend fromCrd { s with
      current := s.current.map (note rend a false), past := s.past.map (note rend a false) } := by
  refine h.answered s.calling (fun f hf => hfound f (List.mem_append_left _ hf)) ?_
  have hp := h.progress
  cases hcurrent : s.current with
  | none =>
    rw [Option.map_none]
    rw [Progress,hcurrent] at hp
    exact hp
  | some f =>
    rw [Option.map_some]
    by_cases hf : f.rend.map Rendezvous.key = some rend.key
    · have hnone := hfound f (by simp [hcurrent]) hf
      have hne : s.registered ≠ f.rend := by
        rintro heq
        exact hkey (heq ▸ hf)
      cases hphase : s.phase with
      | idle => simp [Progress,hphase,hcurrent] at hp
      | waiting =>
        simp only [Progress,hphase,hcurrent] at hp
        exact absurd hp.1 hne
      | timedOut =>
        simp only [Progress,hphase,hcurrent] at hp
        exact absurd hp.1 hne
      | waited success =>
        simp only [Progress,hphase,hcurrent] at hp
        exact absurd hp.1 hne
      | cleared success =>
        simp only [Progress,hphase,hcurrent] at hp ⊢
        obtain ⟨hregistered,⟨hcalling,hreceived,hsettled⟩,hback⟩ := hp
        have hnote : note rend a false f = { f with late := f.late ++ [a] } := by
          rw [note,if_pos hf]
          rfl
        rw [hnote]
        refine ⟨hregistered,⟨hcalling,hreceived,?_⟩,hback⟩
        rcases hsettled with ⟨hno,_⟩ | ⟨-,-,b,hb,-⟩
        · exact .inl ⟨hno,hnone⟩
        · simp [hnone] at hb
    · rw [note_of_ne hf]
      rw [Progress,hcurrent] at hp
      exact hp

theorem Inv.answer {rend : Rendezvous} {a : Answer} (h : Inv mem size returnRend fromCrd s)
    (hc : Careful mem size returnRend fromCrd s (.answer rend a) u) (hu : s.step (.answer rend a) = some u) :
    Inv mem size returnRend fromCrd u := by
  rw [h.step_eq] at hu
  dsimp only [act] at hu
  obtain ⟨hregistered,hdropped⟩ := hc
  cases hu
  by_cases hkey : s.registered.map Rendezvous.key = some rend.key
  · obtain ⟨hphase,hnone,ha⟩ := hregistered hkey
    simpa only [hkey,decide_true,if_true] using h.found hkey hphase hnone ha
  · simpa only [hkey,decide_false,Bool.false_eq_true,if_false] using h.dropped hkey (hdropped hkey)

theorem Inv.deliver {a : Answer} (h : Inv mem size returnRend fromCrd s) (hu : s.step (.deliver a) = some u) :
    Inv mem size returnRend fromCrd u := by
  rw [h.step_eq] at hu
  dsimp only [act] at hu
  split at hu
  case isFalse => cases hu
  case isTrue hmem =>
    have hp := h.progress
    have hwaiting : s.phase = .waiting ∧ ∃ f, s.current = some f ∧ Arriving mem size returnRend fromCrd s f := by
      unfold Progress at hp
      split at hp
      · simp [hp.2.1] at hmem
      · exact ⟨‹_›,_,‹_›,hp.2.2.2.1⟩
      · simp [hp.2.2.2.1] at hmem
      · simp [hp.2.2.1.1] at hmem
      · simp [hp.2.1.1] at hmem
      · exact hp.elim
    obtain ⟨hphase,f,hcurrent,harriving⟩ := hwaiting
    rw [if_neg (h.not_deleted (by simp [hphase]))] at hu
    cases hu
    simp only [Progress,hphase,hcurrent] at hp
    obtain ⟨hregistered,hsome,hlate,-,hturned⟩ := hp
    refine h.moved rfl ⟨rfl,rfl⟩ rfl rfl h.gone ?_
    simp only [Progress,hphase,hcurrent]
    refine ⟨hregistered,hsome,hlate,?_,hturned⟩
    rcases harriving with ⟨-,hcalling,-⟩ | ⟨b,hb,hfaithful,⟨hcalling,-⟩ | ⟨hcalling,-⟩⟩
    · simp [hcalling] at hmem
    · obtain rfl : a = b := by simpa [hcalling] using hmem
      exact .inr ⟨a,hb,hfaithful,.inr ⟨by simp [hcalling],rfl,rfl⟩⟩
    · simp [hcalling] at hmem

theorem Inv.wake (h : Inv mem size returnRend fromCrd s) (hu : s.step .wake = some u) :
    Inv mem size returnRend fromCrd u := by
  rw [h.step_eq] at hu
  dsimp only [act] at hu
  split at hu
  case isFalse => cases hu
  case isTrue hready =>
    cases hu
    have hp := h.progress
    cases hcurrent : s.current with
    | none => simp [Progress,hready.1,hcurrent] at hp
    | some f =>
      simp only [Progress,hready.1,hcurrent] at hp
      obtain ⟨hregistered,hsome,hlate,harriving,hturned⟩ := hp
      refine h.moved rfl ⟨rfl,rfl⟩ rfl hcurrent.symm (fun hd => absurd hd (h.not_deleted (by simp [hready.1]))) ?_
      simp only [Progress]
      refine ⟨hregistered,hsome,?_,hturned⟩
      rcases harriving with ⟨-,-,hno⟩ | ⟨b,hb,hfaithful,⟨-,hno⟩ | ⟨hcalling,-,hresp⟩⟩
      · simp [hno] at hready
      · simp [hno] at hready
      · exact ⟨hcalling,rfl,.inr ⟨rfl,hlate,b,hb,hfaithful,hresp⟩⟩

theorem Inv.timeout (h : Inv mem size returnRend fromCrd s) (hquiet : s.receivedResponse = false ∧ s.calling = [])
    (hu : s.step .timeout = some u) : Inv mem size returnRend fromCrd u := by
  rw [h.step_eq] at hu
  dsimp only [act] at hu
  split at hu
  case isFalse => cases hu
  case isTrue hphase =>
    cases hu
    have hp := h.progress
    cases hcurrent : s.current with
    | none => simp [Progress,hphase,hcurrent] at hp
    | some f =>
      simp only [Progress,hphase,hcurrent] at hp
      obtain ⟨hregistered,hsome,-,harriving,hturned⟩ := hp
      refine h.moved rfl ⟨rfl,rfl⟩ rfl hcurrent.symm (fun hd => absurd hd (h.not_deleted (by simp [hphase]))) ?_
      simp only [Progress]
      refine ⟨hregistered,hsome,?_,hquiet.2,hquiet.1,hturned⟩
      rcases harriving with ⟨hnone,-⟩ | ⟨b,-,-,⟨hcalling,-⟩ | ⟨-,hreceived,-⟩⟩
      · exact hnone
      · simp [hcalling] at hquiet
      · simp [hreceived] at hquiet

theorem Inv.giveUp (h : Inv mem size returnRend fromCrd s) (hu : s.step .giveUp = some u) :
    Inv mem size returnRend fromCrd u := by
  rw [h.step_eq] at hu
  dsimp only [act] at hu
  split at hu
  case isFalse => cases hu
  case isTrue hphase =>
    cases hu
    have hp := h.progress
    cases hcurrent : s.current with
    | none => simp [Progress,hphase,hcurrent] at hp
    | some f =>
      simp only [Progress,hphase,hcurrent] at hp
      obtain ⟨hregistered,hsome,hnone,hcalling,-,hturned⟩ := hp
      refine h.moved rfl ⟨rfl,rfl⟩ rfl hcurrent.symm (fun hd => absurd hd (h.not_deleted (by simp [hphase]))) ?_
      simp only [Progress]
      exact ⟨hregistered,hsome,⟨hcalling,rfl,.inl ⟨rfl,hnone⟩⟩,hturned⟩

/-- The request is turned back. -/
theorem Inv.clear (h : Inv mem size returnRend fromCrd s) (hu : s.step .clear = some u) :
    Inv mem size returnRend fromCrd u := by
  rw [h.step_eq] at hu
  dsimp only [act] at hu
  split at hu
  case h_2 => cases hu
  case h_1 success hphase =>
    cases hu
    have hp := h.progress
    cases hcurrent : s.current with
    | none => simp [Progress,hphase,hcurrent] at hp
    | some f =>
      simp only [Progress,hphase,hcurrent] at hp
      obtain ⟨-,-,hsettled,hturned⟩ := hp
      refine h.moved rfl ⟨rfl,rfl⟩ rfl hcurrent.symm (fun hd => absurd hd (h.not_deleted (by simp [hphase]))) ?_
      exact ⟨rfl,hsettled,hturned.back,rfl⟩

/-- The answer, or the time-out, goes to the originator. -/
theorem Inv.respond (h : Inv mem size returnRend fromCrd s) (hu : s.step .respond = some u) :
    Inv mem size returnRend fromCrd u := by
  rw [h.step_eq] at hu
  dsimp only [act] at hu
  have hp := h.progress
  have hsent : ∀ f, s.current = some f → ∀ bytes ∈ f.sent, bytes.drop headerSize = payload mem size := by
    intro f hf
    exact h.sent f (List.mem_append_right _ (Option.mem_toList.2 hf))
  split at hu
  case h_1 f hphase hcurrent =>
    cases hu
    simp only [Progress,hphase,hcurrent] at hp
    obtain ⟨hregistered,⟨hcalling,hreceived,hsettled⟩,hreq,hconn⟩ := hp
    refine h.finish hreq hconn hregistered hcalling hreceived (hsent f hcurrent) ?_
    rcases hsettled with ⟨-,hnone⟩ | ⟨htrue,-⟩
    · refine .inl ⟨hnone,?_⟩
      rw [timeoutAnswer,h.head_eq hreq,h.made.2]
      simp [h.quiet f hcurrent]
    · cases htrue
  case h_2 f hphase hcurrent =>
    simp only [Progress,hphase,hcurrent] at hp
    obtain ⟨hregistered,⟨hcalling,hreceived,hsettled⟩,hreq,hconn⟩ := hp
    rcases hsettled with ⟨hfalse,-⟩ | ⟨-,hlate,a,hfound,⟨hstrings,hfits⟩,hresp⟩
    · cases hfalse
    have hout : a.resp.relay s.head = a.resp.readdress (origHead mem size returnRend fromCrd) := by
      rw [h.head_eq hreq]
      exact SpecResponse.relay_eq_readdress hstrings
    rw [hresp] at hu
    dsimp only at hu
    rw [hout,if_pos hfits] at hu
    cases hu
    have hfinish : Inv mem size returnRend fromCrd
        (s.finish f ⟨a.resp.readdress (origHead mem size returnRend fromCrd),a.rest⟩) := by
      refine h.finish hreq hconn hregistered hcalling hreceived (hsent f hcurrent) (.inr ⟨?_,hlate,?_⟩)
      · simp [hfound]
      · simp [hfound,h.quiet f hcurrent]
    exact hfinish.moved rfl ⟨rfl,rfl⟩ rfl rfl (fun _ => rfl) ⟨hregistered,hcalling,hreceived,hreq,hconn⟩
  case h_3 => cases hu

theorem Inv.stop (h : Inv mem size returnRend fromCrd s) (hu : s.step .stop = some u) :
    Inv mem size returnRend fromCrd u := by
  rw [h.step_eq] at hu
  cases hu
  exact h.moved rfl ⟨rfl,rfl⟩ rfl rfl h.gone h.progress

theorem Inv.delete (h : Inv mem size returnRend fromCrd s) (hu : s.step .delete = some u) :
    Inv mem size returnRend fromCrd u := by
  rw [h.step_eq] at hu
  dsimp only [act] at hu
  split at hu
  case isFalse => cases hu
  case isTrue hidle =>
    cases hu
    exact h.moved rfl ⟨rfl,rfl⟩ rfl rfl (fun _ => hidle.1) h.progress

theorem Inv.step {a : RelayAct} (h : Inv mem size returnRend fromCrd s) (hu : s.step a = some u)
    (hc : Careful mem size returnRend fromCrd s a u) : Inv mem size returnRend fromCrd u := by
  cases a with
  | unavailable => exact h.unavailable hu
  | fire rend sent => exact h.fire hc hu
  | answer rend a => exact h.answer hc hu
  | deliver a => exact h.deliver hu
  | wake => exact h.wake hu
  | timeout => exact h.timeout hc hu
  | giveUp => exact h.giveUp hu
  | clear => exact h.clear hu
  | respond => exact h.respond hu
  | stop => exact h.stop hu
  | delete => exact h.delete hu

theorem inv_init : Inv mem size returnRend fromCrd (init mem size returnRend fromCrd) where
  sound := rfl
  made := ⟨rfl,rfl⟩
  sent := by rintro f ⟨⟩
  relayed := by rintro f ⟨⟩
  quiet := by rintro f ⟨⟩
  fresh := by rintro f ⟨⟩
  gone := by rintro ⟨⟩
  progress := ⟨rfl,rfl,rfl,rfl,rfl⟩

theorem Inv.transparent (h : Inv mem size returnRend fromCrd s) : Transparent mem size returnRend fromCrd s where
  sound := h.sound
  sent := h.sent
  relayed := h.relayed
  restored := by
    intro hphase
    have hp := h.progress
    cases hcurrent : s.current with
    | none =>
      simp only [Progress,hphase,hcurrent] at hp
      exact ⟨hp.2.2.2.1,hp.2.2.2.2⟩
    | some f => simp [Progress,hphase,hcurrent] at hp

end Transparency

/-- The relay is transparent in runs in which the rendezvous of a firing is not used again, at most one answer comes to
it, while it is waited for or after the rendezvous has been cleared for a time-out, and an answer has no characters
behind a NUL and is not too long for a response. -/
theorem transparent_of_careful (mem : ℕ → UInt8) (size : ℕ) (returnRend : Rendezvous) (fromCrd : Bool)
    (tr : List (RelayAct × Relay))
    (hr : IsRun (fun s a u => s.step a = some u) (init mem size returnRend fromCrd) tr)
    (hc : EveryStep (Careful mem size returnRend fromCrd) (init mem size returnRend fromCrd) tr) :
    EveryState (Transparent mem size returnRend fromCrd) (init mem size returnRend fromCrd) tr :=
  (hr.everyState (P := Inv mem size returnRend fromCrd) (fun _ _ _ h hu hcare => h.step hu hcare) inv_init hc).mono
    fun _ h => h.transparent

/-- A periodic request of 46 bytes. -/
def periodicRequest (i : ℕ) : UInt8 := if i = 33 then 1 else UInt8.ofNat i

/-- An answer to an `rli_relay_req` with two bytes behind its fields. -/
def answerWith (end_of_message : Bool) : Answer where
  resp := .rli {
    toMessage := (requestOf periodicRequest 46).toMessage
    return_rend := Rendezvous.new 0 0
    end_of_message
    status := NCCP_Status_Fine
    time_stamp := 5
    clock_rate := 6
    value := 7
    status_msg := .ofChars [111,107] }
  rest := [8,9]

/-- A firing is answered, and the next one is not. -/
def twoFirings : List (RelayAct × Relay) :=
  runOf step (init periodicRequest 46 (Rendezvous.new 3 1) false)
    [.fire (Rendezvous.new 8 1) true,.answer (Rendezvous.new 8 1) (answerWith true),.deliver (answerWith true),.wake,
      .clear,.respond,.fire (Rendezvous.new 8 2) true,.timeout,.giveUp,.clear,.respond]

theorem transparent_twoFirings : EveryState (Transparent periodicRequest 46 (Rendezvous.new 3 1) false)
    (init periodicRequest 46 (Rendezvous.new 3 1) false) twoFirings :=
  transparent_of_careful _ _ _ _ twoFirings (isRun_runOf _ _ _) (by decide +kernel)

/-- The second part of an answer finds no request that waits for it. -/
def twoParts : List (RelayAct × Relay) :=
  runOf step (init periodicRequest 46 (Rendezvous.new 3 1) false)
    [.fire (Rendezvous.new 8 1) true,.answer (Rendezvous.new 8 1) (answerWith false),.deliver (answerWith false),.wake,
      .clear,.answer (Rendezvous.new 8 1) (answerWith true),.respond]

theorem twoParts_not_transparent : ¬∀ (mem : ℕ → UInt8) (size : ℕ) (returnRend : Rendezvous) (fromCrd : Bool)
    (tr : List (RelayAct × Relay)), IsRun (fun s a u => s.step a = some u) (init mem size returnRend fromCrd) tr →
      EveryState (Transparent mem size returnRend fromCrd) (init mem size returnRend fromCrd) tr := by
  intro h
  have hlast := (h periodicRequest 46 (Rendezvous.new 3 1) false twoParts (isRun_runOf _ _ _)).last
  have hfirings : ∃ f ∈ (lastState (init periodicRequest 46 (Rendezvous.new 3 1) false) twoParts).past,
      f.found ≠ [] ∧ f.late ≠ [] := by decide +kernel
  obtain ⟨f,hf,hfound,hlate⟩ := hfirings
  rcases hlast.relayed f hf with ⟨hnone,-⟩ | ⟨-,hno,-⟩
  · exact hfound hnone
  · exact hlate hno

end Relay

end OnlDaemons.Base

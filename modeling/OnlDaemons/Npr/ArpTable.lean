import Mathlib
import OnlDaemons.Lib.Registry
import OnlDaemons.Lib.Run

/-!
# The ARP request table

A packet whose next hop has no MAC address comes to `send_arp_request`, each in a thread of its own.
The first one for an address makes a request and tries three times to have it answered; later ones
join the request and leave. `process_arp_packet` sends the waiting packets on, and writes the MAC
address to the SRAM result of every next hop entry that the request has a node for.

## Main definitions

- `RequestNode`, `NhrNode` — the table behind `request_list_lock`
- `recordPacket` — what `send_arp_request` does under the lock before it starts to try
- `failRequest` — what it does after the last attempt
- `processArpPacket` — what `process_arp_packet` does under the lock

## Main results

- `recordPacket_found`, `recordPacket_new`, `processArpPacket_found`, `processArpPacket_new` — what is
  done to the one request that is looked for
-/

namespace OnlDaemons.Npr
open OnlDaemons.Lib

inductive ArpNeeded where
  | dip
  | nhr
deriving DecidableEq, Repr

/-- The fields of `plc_to_xscale_data` that are looked at, and the type of the message. -/
structure DataPathMessage where
  type : ArpNeeded
  destValue : ℕ
  ucMcBits : ℕ
deriving DecidableEq, Repr

/-- What the message says of where the SRAM result is. -/
def DataPathMessage.sramAddr (msg : DataPathMessage) : ℕ := msg.destValue &&& 0x1fffff

/-- A message that is not for the multiplexer goes to one of five plugins. `writemsg` may still drop
it itself, when its ring is full. -/
def sendPacketToDataPath (msg : DataPathMessage) : Except String Unit :=
  if msg.ucMcBits >>> 6 &&& 1 = 0 then .ok ()
  else if msg.ucMcBits &&& 0x7 ≤ 4 then .ok ()
  else .error "packet bound for invalid plugin!"

inductive RequestState where
  | outstanding
  | finished
  | failed
deriving DecidableEq, Repr

structure NhrNode (M : Type) where
  nhrMsg : Option M
  sramAddr : ℕ
  sramId : ℕ
deriving DecidableEq, Repr

structure RequestNode (M : Type) where
  ipaddr : ℕ
  macaddrHi16 : ℕ
  macaddrLow32 : ℕ
  state : RequestState
  validArpDbEntry : Bool
  dipMsg : Option M
  nhrList : List (NhrNode M)
deriving DecidableEq, Repr

/-- A next hop result that is written to SRAM, and the id of the entry it is meant for. -/
structure SramWrite where
  addr : ℕ
  id : ℕ
  hi16 : ℕ
  low32 : ℕ
deriving DecidableEq, Repr

variable {M : Type}

def nhrMsgs (l : List (NhrNode M)) : List M := l.filterMap (·.nhrMsg)

/-- The SRAM addresses that wait for the request, or once did, each with the id of its entry. -/
def RequestNode.pairs (r : RequestNode M) : List (ℕ × ℕ) :=
  r.nhrList.map fun n => (n.sramAddr, n.sramId)

/-- The packets that wait for the request. -/
def RequestNode.msgs (r : RequestNode M) : List M := r.dipMsg.toList ++ nhrMsgs r.nhrList

def findRequest (addr : ℕ) (l : List (RequestNode M)) : Option (RequestNode M) :=
  l.find? fun r => r.ipaddr = addr

def findNhr (id : ℕ) (l : List (NhrNode M)) : Option (NhrNode M) :=
  l.find? fun n => n.sramId = id

/-- An assignment through a pointer that `find_request` returned. -/
def setRequest (addr : ℕ) (f : RequestNode M → RequestNode M) (l : List (RequestNode M)) :
    List (RequestNode M) :=
  modifyByKey (·.ipaddr) addr f l

/-- How `send_arp_request` goes on when it has released the lock. It declares no exception but its
own, so that the one of `get_sram_map` ends the daemon. -/
inductive RecordResult where
  | retry
  | returned
  | threw (text : String)
  | ended
deriving DecidableEq, Repr

/-- A call to the configuration for the entry of the address in the ARP database. -/
inductive ArpCall where
  | addArp
  | updateArp
deriving DecidableEq, Repr

/-- What is done with the lock: the new table, the packets that were sent on or dropped, the next hop
results that were written, and the call that was made, if any. -/
structure Recorded (M : Type) where
  result : RecordResult
  requests : List (RequestNode M)
  sent : List M := []
  dropped : List M := []
  writes : List SramWrite := []
  calls : Option ArpCall := none

/-- There is no request for the address yet. `id` is what `get_sram_map` returns, if it does. -/
def newRequest (msg : DataPathMessage) (m : M) (ipaddr : ℕ) (id : Option ℕ)
    (l : List (RequestNode M)) : Recorded M :=
  let req : RequestNode M := ⟨ipaddr, 0, 0, .outstanding, false, none, []⟩
  match msg.type with
  | .dip => { result := .retry, requests := { req with dipMsg := some m } :: l }
  | .nhr =>
    match id with
    | none =>
      { result := .ended, requests := { req with nhrList := [⟨some m, msg.sramAddr, 0⟩] } :: l }
    | some id =>
      { result := .retry, requests := { req with nhrList := [⟨some m, msg.sramAddr, id⟩] } :: l }

/-- The request has failed before; the state is set first of all. -/
def retryRequest (msg : DataPathMessage) (m : M) (ipaddr : ℕ) (id : Option ℕ)
    (req : RequestNode M) (l : List (RequestNode M)) : Recorded M :=
  match msg.type with
  | .dip =>
    { result := .retry
      requests := setRequest ipaddr
        (fun r => { r with state := .outstanding, dipMsg := some m }) l }
  | .nhr =>
    match id with
    | none =>
      { result := .ended
        requests := setRequest ipaddr (fun r => { r with state := .outstanding }) l }
    | some id =>
      let nhrList := match findNhr id req.nhrList with
        | none => ⟨some m, msg.sramAddr, id⟩ :: req.nhrList
        | some _ => modifyByKey (·.sramId) id (fun n => { n with nhrMsg := some m }) req.nhrList
      { result := .retry
        requests := setRequest ipaddr
          (fun r => { r with state := .outstanding, nhrList := nhrList }) l }

/-- The request is outstanding or finished. `conf` is how `add_arp` ends. -/
def joinRequest (msg : DataPathMessage) (m : M) (ipaddr : ℕ) (id : Option ℕ)
    (conf : Except String Unit) (req : RequestNode M) (l : List (RequestNode M)) : Recorded M :=
  match msg.type with
  | .dip =>
    if req.validArpDbEntry || req.dipMsg.isSome then
      { result := .returned, requests := l, dropped := [m] }
    else if req.state = .finished then
      match sendPacketToDataPath msg with
      | .error text => { result := .threw text, requests := l }
      | .ok () =>
        match conf with
        | .error text =>
          { result := .threw ("adding arp entry failed: " ++ text), requests := l, sent := [m],
            calls := some .addArp }
        | .ok () =>
          { result := .returned
            requests := setRequest ipaddr (fun r => { r with validArpDbEntry := true }) l
            sent := [m]
            calls := some .addArp }
    else
      { result := .returned
        requests := setRequest ipaddr (fun r => { r with dipMsg := some m }) l }
  | .nhr =>
    match id with
    | none => { result := .ended, requests := l }
    | some id =>
      if (findNhr id req.nhrList).isSome then
        { result := .returned, requests := l, dropped := [m] }
      else if req.state = .finished then
        let l := setRequest ipaddr
          (fun r => { r with nhrList := ⟨none, msg.sramAddr, id⟩ :: r.nhrList }) l
        match sendPacketToDataPath msg with
        | .error text => { result := .threw text, requests := l }
        | .ok () =>
          { result := .returned, requests := l, sent := [m],
            writes := [⟨msg.sramAddr, id, req.macaddrHi16, req.macaddrLow32⟩] }
      else
        { result := .returned
          requests := setRequest ipaddr
            (fun r => { r with nhrList := ⟨some m, msg.sramAddr, id⟩ :: r.nhrList }) l }

def recordPacket (msg : DataPathMessage) (m : M) (ipaddr : ℕ) (id : Option ℕ)
    (conf : Except String Unit) (l : List (RequestNode M)) : Recorded M :=
  match findRequest ipaddr l with
  | none => newRequest msg m ipaddr id l
  | some req =>
    if req.state = .failed then retryRequest msg m ipaddr id req l
    else joinRequest msg m ipaddr id conf req l

def clearNhr (n : NhrNode M) : NhrNode M := { n with nhrMsg := none }

def RequestNode.cleared (r : RequestNode M) : RequestNode M :=
  { r with dipMsg := none, nhrList := r.nhrList.map clearNhr }

/-- After the third attempt: the new table, and the packets that are dropped. -/
def failRequest (ipaddr : ℕ) (l : List (RequestNode M)) : List (RequestNode M) × List M :=
  (setRequest ipaddr (fun r => { r.cleared with state := .failed }) l,
    (findRequest ipaddr l).elim [] RequestNode.msgs)

/-- The loop over the waiting next hop packets stops where one cannot be sent. -/
def sendNhrs (msg : M → DataPathMessage) :
    List (NhrNode M) → Except String Unit × List M × List (NhrNode M)
  | [] => (.ok (), [], [])
  | n :: next =>
    match n.nhrMsg with
    | none =>
      let (result, sent, next) := sendNhrs msg next
      (result, sent, n :: next)
    | some m =>
      match sendPacketToDataPath (msg m) with
      | .error text => (.error text, [], n :: next)
      | .ok () =>
        let (result, sent, next) := sendNhrs msg next
        (result, m :: sent, clearNhr n :: next)

/-- The packets that wait for an outstanding request are sent to the data path. -/
def sendWaiting (msg : M → DataPathMessage) (r : RequestNode M) :
    Except String Unit × List M × RequestNode M :=
  match r.dipMsg.map fun m => (m, sendPacketToDataPath (msg m)) with
  | some (_, .error text) => (.error text, [], r)
  | some (m, .ok ()) =>
    let (result, sent, nhrs) := sendNhrs msg r.nhrList
    (result, m :: sent, { r with dipMsg := none, nhrList := nhrs })
  | none =>
    let (result, sent, nhrs) := sendNhrs msg r.nhrList
    (result, sent, { r with nhrList := nhrs })

def RequestNode.nhrWrites (r : RequestNode M) : List SramWrite :=
  r.nhrList.map fun n => ⟨n.sramAddr, n.sramId, r.macaddrHi16, r.macaddrLow32⟩

structure Processed (M : Type) where
  result : Except String Unit
  requests : List (RequestNode M)
  sent : List M := []
  writes : List SramWrite := []
  calls : Option ArpCall := none

/-- `conf` is how `update_arp` or `add_arp` ends, whichever is called. -/
def processRequest (msg : M → DataPathMessage) (conf : Except String Unit) (r : RequestNode M) :
    Except String Unit × List M × RequestNode M × List SramWrite × Option ArpCall :=
  let (result, sent, r) := if r.state = .outstanding then sendWaiting msg r else (.ok (), [], r)
  let call := if r.validArpDbEntry then ArpCall.updateArp else .addArp
  match result, conf with
  | .error text, _ => (.error text, sent, r, [], none)
  | .ok (), .error text =>
    let what := if r.validArpDbEntry then "updating" else "adding"
    (.error (what ++ " arp entry failed: " ++ text), sent, r, [], some call)
  | .ok (), .ok () =>
    (.ok (), sent, { r with validArpDbEntry := true, state := .finished }, r.nhrWrites, some call)

def processArpPacket (msg : M → DataPathMessage) (ipaddr hi16 low32 : ℕ)
    (conf : Except String Unit) (l : List (RequestNode M)) : Processed M :=
  match findRequest ipaddr l with
  | none =>
    let req : RequestNode M := ⟨ipaddr, hi16, low32, .finished, false, none, []⟩
    match conf with
    | .error text =>
      { result := .error ("adding arp entry failed: " ++ text), requests := req :: l,
        calls := some .addArp }
    | .ok () =>
      { result := .ok (), requests := { req with validArpDbEntry := true } :: l,
        calls := some .addArp }
  | some req =>
    let (result, sent, req, writes, calls) :=
      processRequest msg conf { req with macaddrHi16 := hi16, macaddrLow32 := low32 }
    { result := result, requests := setRequest ipaddr (fun _ => req) l, sent := sent,
      writes := writes, calls := calls }

/-! ### What is done to one request -/

section
variable {msg : DataPathMessage} {m : M} {ipaddr : ℕ} {id : Option ℕ} {conf : Except String Unit}
  {l : List (RequestNode M)} {req : RequestNode M}

theorem findRequest_ipaddr (h : findRequest ipaddr l = some req) : req.ipaddr = ipaddr := by
  simpa using List.find?_some h

theorem findRequest_mem (h : findRequest ipaddr l = some req) : req ∈ l := List.mem_of_find?_eq_some h

theorem setRequest_const {f : RequestNode M → RequestNode M} (h : findRequest ipaddr l = some req) :
    setRequest ipaddr f l = setRequest ipaddr (fun _ => f req) l :=
  modifyByKey_const h

theorem setRequest_self (h : findRequest ipaddr l = some req) :
    setRequest ipaddr (fun _ => req) l = l :=
  modifyByKey_self h

theorem setRequest_none {f : RequestNode M → RequestNode M} (h : findRequest ipaddr l = none) :
    setRequest ipaddr f l = l :=
  List.lookmap_of_forall_not _ fun r hr => if_neg (by simpa using List.find?_eq_none.mp h r hr)

theorem cleared_cleared (r : RequestNode M) : r.cleared.cleared = r.cleared := by
  unfold RequestNode.cleared
  rw [List.map_map]
  rfl

/-- The packet can be recorded: `get_sram_map` does not throw, and a packet that is sent on at once
can be sent. -/
def Recordable (msg : DataPathMessage) (id : Option ℕ) (req : Option (RequestNode M)) : Prop :=
  (msg.type = .nhr → id.isSome) ∧
    ((∃ r, req = some r ∧ r.state = .finished) → sendPacketToDataPath msg = .ok ())

/-- What `recordPacket` does to a request that it finds. -/
structure Joined [DecidableEq M] (msg : DataPathMessage) (m : M) (id : Option ℕ)
    (req req' : RequestNode M) (out : Recorded M) : Prop where
  ipaddr : req'.ipaddr = req.ipaddr
  state : req'.state = if req.state = .failed then .outstanding else req.state
  result : Recordable msg id (some req) →
    out.result ≠ .ended ∧ (req.state = .failed → out.result = .retry)
  count : (req.state ≠ .outstanding → req.msgs = []) → Recordable msg id (some req) →
    ∀ m', req'.msgs.count m' + out.sent.count m' + out.dropped.count m' =
      req.msgs.count m' + [m].count m'
  waiting : (req.state ≠ .outstanding → req.msgs = []) → req'.state ≠ .outstanding → req'.msgs = []
  pairs : ∀ p ∈ req'.pairs, p ∈ req.pairs ∨ p.1 = msg.sramAddr ∧ id = some p.2
  writes : ∀ w ∈ out.writes, w.addr = msg.sramAddr ∧ id = some w.id

theorem eq_outstanding {st : RequestState} (hf : st ≠ .failed) (hfin : st ≠ .finished) :
    st = .outstanding := by
  cases st with
  | outstanding => rfl
  | finished => exact absurd rfl hfin
  | failed => exact absurd rfl hf

theorem nhrMsgs_cons (n : NhrNode M) (l : List (NhrNode M)) :
    nhrMsgs (n :: l) = n.nhrMsg.toList ++ nhrMsgs l := by
  unfold nhrMsgs
  cases h : n.nhrMsg <;> simp [h]

theorem nhrMsgs_eq_nil {l : List (NhrNode M)} {n : NhrNode M} (h : nhrMsgs l = []) (hn : n ∈ l) :
    n.nhrMsg = none :=
  List.filterMap_eq_nil_iff.mp h n hn

/-- What `recordPacket` does when it finds no request. -/
theorem recordPacket_new (msg : DataPathMessage) (m : M) (id : Option ℕ)
    (conf : Except String Unit) (h : findRequest ipaddr l = none) :
    ∃ req, (recordPacket msg m ipaddr id conf l).requests = req :: l ∧ req.ipaddr = ipaddr ∧
      req.state = .outstanding ∧ req.msgs = [m] ∧
      (recordPacket msg m ipaddr id conf l).sent = [] ∧
      (recordPacket msg m ipaddr id conf l).dropped = [] ∧
      (recordPacket msg m ipaddr id conf l).writes = [] ∧
      (((recordPacket msg m ipaddr id conf l).result = .retry ∧ ∀ p ∈ req.pairs,
          p.1 = msg.sramAddr ∧ id = some p.2) ∨
        (recordPacket msg m ipaddr id conf l).result = .ended ∧ msg.type = .nhr ∧ id = none) := by
  unfold recordPacket newRequest
  rw [h]
  cases ht : msg.type with
  | dip => exact ⟨_,rfl,rfl,rfl,rfl,rfl,rfl,rfl,.inl ⟨rfl,nofun⟩⟩
  | nhr =>
    cases id with
    | none => exact ⟨_,rfl,rfl,rfl,rfl,rfl,rfl,rfl,.inr ⟨rfl,rfl,rfl⟩⟩
    | some k =>
      refine ⟨_,rfl,rfl,rfl,rfl,rfl,rfl,rfl,.inl ⟨rfl,fun n hn => ?_⟩⟩
      rw [List.mem_singleton.mp hn]
      exact ⟨rfl,rfl⟩

theorem nhrMsgs_clear (l : List (NhrNode M)) : nhrMsgs (l.map clearNhr) = [] := by
  induction l with
  | nil => rfl
  | cons n l ih => rw [List.map_cons,nhrMsgs_cons,ih]; rfl

theorem msgs_cleared (r : RequestNode M) : r.cleared.msgs = [] := nhrMsgs_clear r.nhrList

/-- If all are sent, none waits. -/
theorem sendNhrs_ok {msg : M → DataPathMessage} {l : List (NhrNode M)}
    (h : (sendNhrs msg l).1 = .ok ()) : nhrMsgs (sendNhrs msg l).2.2 = [] := by
  induction l with
  | nil => rfl
  | cons n l ih =>
    unfold sendNhrs at h ⊢
    split at h
    · next hn => simpa [nhrMsgs_cons,hn] using ih h
    · next m' hn =>
      split at h
      · cases h
      · next hs => simpa [nhrMsgs_cons,hs,clearNhr] using ih h

/-- Only the messages change. -/
theorem sendNhrs_nodes {msg : M → DataPathMessage} (l : List (NhrNode M)) :
    (sendNhrs msg l).2.2.map clearNhr = l.map clearNhr := by
  induction l with
  | nil => rfl
  | cons n l ih =>
    unfold sendNhrs
    split
    · simpa using ih
    · split
      · rfl
      · simpa [clearNhr] using ih

theorem sendNhrs_isOk {msg : M → DataPathMessage} {l : List (NhrNode M)} :
    (sendNhrs msg l).1 = .ok () ↔ ∀ m ∈ nhrMsgs l, sendPacketToDataPath (msg m) = .ok () := by
  induction l with
  | nil => exact ⟨fun _ => nofun,fun _ => rfl⟩
  | cons n l ih =>
    unfold sendNhrs
    rw [nhrMsgs_cons]
    split
    · next hn => simpa [hn] using ih
    · next m hn =>
      split
      · next hs => simp [hn,hs]
      · next hs => simpa [hn,hs] using ih

theorem sendWaiting_isOk (msg : M → DataPathMessage) (r : RequestNode M) :
    (sendWaiting msg r).1 = .ok () ↔ ∀ m ∈ r.msgs, sendPacketToDataPath (msg m) = .ok () := by
  unfold sendWaiting RequestNode.msgs
  cases hd : r.dipMsg with
  | none => simpa using sendNhrs_isOk
  | some m =>
    cases hs : sendPacketToDataPath (msg m) with
    | error text => simp [hs]
    | ok _ => simpa [hs] using sendNhrs_isOk

theorem sendWaiting_ok (msg : M → DataPathMessage) (r : RequestNode M)
    (h : (sendWaiting msg r).1 = .ok ()) : (sendWaiting msg r).2.2.msgs = [] := by
  unfold sendWaiting at h ⊢
  cases hd : r.dipMsg with
  | none =>
    simp only [hd,Option.map_none] at h
    simpa [RequestNode.msgs,hd] using sendNhrs_ok h
  | some m =>
    cases hs : sendPacketToDataPath (msg m) with
    | error text => simp [hd,hs] at h
    | ok _ =>
      simp only [hd,hs,Option.map_some] at h
      simpa [RequestNode.msgs,hs] using sendNhrs_ok h

/-- Only the messages of the request change. -/
theorem sendWaiting_cleared (msg : M → DataPathMessage) (r : RequestNode M) :
    (sendWaiting msg r).2.2.cleared = r.cleared := by
  unfold sendWaiting RequestNode.cleared
  cases r.dipMsg with
  | none => simp [sendNhrs_nodes]
  | some m => cases hs : sendPacketToDataPath (msg m) <;> simp [hs,sendNhrs_nodes]

theorem pairs_of_cleared {r r' : RequestNode M} (h : r'.cleared = r.cleared) : r'.pairs = r.pairs := by
  have hp : ∀ r : RequestNode M, r.pairs = r.cleared.pairs := fun r => by
    unfold RequestNode.pairs RequestNode.cleared
    rw [List.map_map]
    rfl
  rw [hp r',h,← hp r]

theorem RequestNode.map_nhrWrites (r : RequestNode M) :
    r.nhrWrites.map (fun w => (w.addr,w.id)) = r.pairs := by
  unfold nhrWrites pairs
  rw [List.map_map]
  rfl

theorem sendWaiting_ipaddr (msg : M → DataPathMessage) (r : RequestNode M) :
    (sendWaiting msg r).2.2.ipaddr = r.ipaddr :=
  congrArg (·.ipaddr) (sendWaiting_cleared msg r)

theorem sendWaiting_state (msg : M → DataPathMessage) (r : RequestNode M) :
    (sendWaiting msg r).2.2.state = r.state :=
  congrArg (·.state) (sendWaiting_cleared msg r)

theorem processArpPacket_new (msg : M → DataPathMessage) (hi16 low32 : ℕ)
    (conf : Except String Unit) (h : findRequest ipaddr l = none) :
    ∃ req, (processArpPacket msg ipaddr hi16 low32 conf l).requests = req :: l ∧
      req.ipaddr = ipaddr ∧ req.state = .finished ∧ req.msgs = [] ∧ req.pairs = [] ∧
      (processArpPacket msg ipaddr hi16 low32 conf l).sent = [] ∧
      (processArpPacket msg ipaddr hi16 low32 conf l).writes = [] := by
  unfold processArpPacket
  rw [h]
  cases conf <;> exact ⟨_,rfl,rfl,rfl,rfl,rfl,rfl,rfl⟩

theorem findRequest_of_mem {l : List (RequestNode M)} (hl : (l.map (·.ipaddr)).Nodup)
    (h : req ∈ l) : findRequest req.ipaddr l = some req :=
  firstOfKey_of_nodup hl h

variable [DecidableEq M]

theorem count_nhrMsgs (m : M) (l : List (NhrNode M)) :
    (nhrMsgs l).count m = (l.map fun n => n.nhrMsg.toList.count m).sum := by
  induction l with
  | nil => rfl
  | cons n l ih => rw [nhrMsgs_cons,List.count_append,ih,List.map_cons,List.sum_cons]

def held (l : List (RequestNode M)) (m : M) : ℕ := (l.map fun r => r.msgs.count m).sum

/-- The table has `req` for the address now, and is else as it was. -/
structure Changed (l l' : List (RequestNode M)) (ipaddr : ℕ) (req : RequestNode M) : Prop where
  find : ∀ ip, findRequest ip l' = if ip = ipaddr then some req else findRequest ip l
  unique : (l.map (·.ipaddr)).Nodup → (l'.map (·.ipaddr)).Nodup
  held : ∀ m, held l' m + (findRequest ipaddr l).elim 0 (fun r => r.msgs.count m) =
    held l m + req.msgs.count m

theorem changed_setRequest {req' : RequestNode M} (h : findRequest ipaddr l = some req)
    (hip : req'.ipaddr = ipaddr) : Changed l (setRequest ipaddr (fun _ => req') l) ipaddr req' := by
  have hfind : l.find? (fun r => r.ipaddr = ipaddr) = some req := h
  refine ⟨fun ip => ?_,fun hu => ?_,fun m => ?_⟩
  · split
    · next he =>
      subst he
      exact find_modifyByKey_self hfind hip
    · next he => exact find_modifyByKey_of_ne he fun _ => hip
  · have hmap : (setRequest ipaddr (fun _ => req') l).map (·.ipaddr) = l.map (·.ipaddr) := by
      refine List.lookmap_map_eq _ _ (fun a b hb => ?_) l
      simp only [Option.mem_def,Option.ite_none_right_eq_some,Option.some.injEq] at hb
      rw [← hb.2,hb.1,hip]
    rw [hmap]
    exact hu
  · rw [h]
    exact sum_modifyByKey (f := fun _ => req') (fun r => r.msgs.count m) hfind

theorem changed_cons (h : findRequest ipaddr l = none) (hip : req.ipaddr = ipaddr) :
    Changed l (req :: l) ipaddr req := by
  refine ⟨fun ip => ?_,fun hu => ?_,fun m => ?_⟩
  · unfold findRequest
    by_cases he : ip = ipaddr
    · rw [if_pos he,List.find?_cons_of_pos (by simpa [hip] using he.symm)]
    · rw [if_neg he,List.find?_cons_of_neg (by simpa [hip] using Ne.symm he)]
  · rw [List.map_cons,List.nodup_cons]
    refine ⟨fun hin => ?_,hu⟩
    obtain ⟨r,hr,he⟩ := List.mem_map.mp hin
    exact absurd (he.trans hip) (by simpa using List.find?_eq_none.mp h r hr)
  · rw [h]
    show held (req :: l) m + 0 = _
    unfold held
    rw [List.map_cons,List.sum_cons]
    omega

theorem changed_failRequest (h : findRequest ipaddr l = some req) :
    Changed l (failRequest ipaddr l).1 ipaddr { req.cleared with state := .failed } := by
  have hip : req.ipaddr = ipaddr := findRequest_ipaddr h
  unfold failRequest
  rw [setRequest_const h]
  exact changed_setRequest h hip

theorem RequestNode.count_msgs (r : RequestNode M) (m : M) :
    r.msgs.count m = r.dipMsg.toList.count m + (nhrMsgs r.nhrList).count m :=
  List.count_append

/-- A node that has no message gets one. -/
theorem count_setNhr {k : ℕ} {l : List (NhrNode M)} {n : NhrNode M} (h : findNhr k l = some n)
    (hn : n.nhrMsg = none) (m' : M) :
    (nhrMsgs (modifyByKey (·.sramId) k (fun n => { n with nhrMsg := some m }) l)).count m' =
      (nhrMsgs l).count m' + [m].count m' := by
  have hfind : l.find? (fun n => n.sramId = k) = some n := h
  have hsum := sum_modifyByKey (f := fun n => { n with nhrMsg := some m })
    (fun n => n.nhrMsg.toList.count m') hfind
  rw [← count_nhrMsgs,← count_nhrMsgs,hn] at hsum
  simpa using hsum

theorem retryRequest_spec (h : findRequest ipaddr l = some req) (hf : req.state = .failed) :
    ∃ req', (retryRequest msg m ipaddr id req l).requests = setRequest ipaddr (fun _ => req') l ∧
      Joined msg m id req req' (retryRequest msg m ipaddr id req l) := by
  have hnot : req.state ≠ .outstanding := by rw [hf]; decide
  unfold retryRequest
  cases ht : msg.type with
  | dip =>
    refine ⟨_,setRequest_const h,rfl,by simp [hf],fun _ => ⟨nofun,fun _ => rfl⟩,fun hm _ m' => ?_,
      fun _ hs => absurd rfl hs,fun _ => .inl,nofun⟩
    obtain ⟨hd,hn⟩ := List.append_eq_nil_iff.mp (hm hnot)
    simp [RequestNode.count_msgs,hn,Option.toList_eq_nil_iff.mp hd]
  | nhr =>
    cases id with
    | none =>
      refine ⟨_,setRequest_const h,rfl,by simp [hf],fun hr => absurd (hr.1 ht) nofun,
        fun _ hr => absurd (hr.1 ht) nofun,fun _ hs => absurd rfl hs,
        fun _ => .inl,nofun⟩
    | some k =>
      refine ⟨_,setRequest_const h,rfl,by simp [hf],fun _ => ⟨nofun,fun _ => rfl⟩,fun hm _ m' => ?_,
        fun _ hs => absurd rfl hs,fun p hn => ?_,nofun⟩
      · obtain ⟨hd,hn⟩ := List.append_eq_nil_iff.mp (hm hnot)
        simp only [RequestNode.count_msgs]
        cases hfind : findNhr k req.nhrList with
        | none =>
          simp only [nhrMsgs_cons,List.count_append,Option.toList_some,List.count_nil]
          omega
        | some n =>
          have hmem : n ∈ req.nhrList := List.mem_of_find?_eq_some hfind
          simp only [count_setNhr hfind (nhrMsgs_eq_nil hn hmem),List.count_nil]
          omega
      · revert hn
        unfold RequestNode.pairs
        cases findNhr k req.nhrList with
        | none =>
          intro hn
          rcases List.mem_cons.mp hn with rfl | hn
          · exact .inr ⟨rfl,rfl⟩
          · exact .inl hn
        | some _ =>
          intro hn
          have hmap := map_modifyByKey NhrNode.sramId (k := k) (l := req.nhrList)
            (f := fun n => { n with nhrMsg := some m }) (g := fun n => (n.sramAddr,n.sramId))
            fun _ => rfl
          exact .inl (hmap ▸ hn)

theorem joinRequest_spec (h : findRequest ipaddr l = some req) (hf : req.state ≠ .failed) :
    ∃ req', (joinRequest msg m ipaddr id conf req l).requests =
        setRequest ipaddr (fun _ => req') l ∧
      Joined msg m id req req' (joinRequest msg m ipaddr id conf req l) := by
  have hself := setRequest_self h
  have hstate : req.state = if req.state = .failed then .outstanding else req.state := by
    rw [if_neg hf]
  have hpairs : ∀ p ∈ req.pairs, p ∈ req.pairs ∨ p.1 = msg.sramAddr ∧ id = some p.2 :=
    fun _ => .inl
  unfold joinRequest
  cases ht : msg.type with
  | dip =>
    simp only
    split
    · exact ⟨req,hself.symm,rfl,hstate,fun _ => ⟨nofun,fun h => absurd h hf⟩,fun _ _ m' => by simp,
        fun h => h,hpairs,nofun⟩
    · next hb =>
      rw [Bool.or_eq_true,not_or,Option.not_isSome_iff_eq_none] at hb
      split
      · next hfin =>
        cases hsend : sendPacketToDataPath msg with
        | error text =>
          have hbad : ¬Recordable msg id (some req) := fun hr =>
            absurd (hsend.symm.trans (hr.2 ⟨req,rfl,hfin⟩)) nofun
          exact ⟨req,hself.symm,rfl,hstate,fun hr => absurd hr hbad,fun _ hr => absurd hr hbad,
            fun h => h,hpairs,nofun⟩
        | ok _ =>
          cases conf with
          | error text =>
            exact ⟨req,hself.symm,rfl,hstate,fun _ => ⟨nofun,fun h => absurd h hf⟩,
              fun _ _ m' => by simp,fun h => h,hpairs,nofun⟩
          | ok _ =>
            exact ⟨_,setRequest_const h,rfl,hstate,fun _ => ⟨nofun,fun h => absurd h hf⟩,
              fun _ _ m' => by simp [RequestNode.count_msgs],fun h => h,hpairs,nofun⟩
      · next hfin =>
        refine ⟨_,setRequest_const h,rfl,hstate,fun _ => ⟨nofun,fun h => absurd h hf⟩,
          fun _ _ m' => ?_,fun _ hs => ?_,hpairs,nofun⟩
        · simp only [RequestNode.count_msgs,hb.2,Option.toList_none,Option.toList_some,List.count_nil]
          omega
        · exact absurd (eq_outstanding hf hfin) hs
  | nhr =>
    cases id with
    | none =>
      have hbad : ¬Recordable msg none (some req) := fun hr => absurd (hr.1 ht) nofun
      exact ⟨req,hself.symm,rfl,hstate,fun hr => absurd hr hbad,fun _ hr => absurd hr hbad,
            fun h => h,hpairs,nofun⟩
    | some k =>
      simp only
      have hnew : ∀ p ∈ (msg.sramAddr,k) :: req.pairs,
          p ∈ req.pairs ∨ p.1 = msg.sramAddr ∧ some k = some p.2 := by
        intro p hp
        rcases List.mem_cons.mp hp with rfl | hp
        · exact .inr ⟨rfl,rfl⟩
        · exact .inl hp
      split
      · exact ⟨req,hself.symm,rfl,hstate,fun _ => ⟨nofun,fun h => absurd h hf⟩,fun _ _ m' => by simp,
          fun h => h,hpairs,nofun⟩
      · split
        · next hfin =>
          cases hsend : sendPacketToDataPath msg with
          | error text =>
            have hbad : ¬Recordable msg (some k) (some req) := fun hr =>
              absurd (hsend.symm.trans (hr.2 ⟨req,rfl,hfin⟩)) nofun
            refine ⟨_,setRequest_const h,rfl,hstate,fun hr => absurd hr hbad,
              fun _ hr => absurd hr hbad,fun hm hs => ?_,hnew,nofun⟩
            simpa [RequestNode.msgs,nhrMsgs_cons] using hm hs
          | ok _ =>
            refine ⟨_,setRequest_const h,rfl,hstate,fun _ => ⟨nofun,fun h => absurd h hf⟩,
              fun _ _ m' => ?_,fun hm hs => ?_,hnew,fun w hw => ?_⟩
            · simp [RequestNode.count_msgs,nhrMsgs_cons]
            · simpa [RequestNode.msgs,nhrMsgs_cons] using hm hs
            · rw [List.mem_singleton.mp hw]
              exact ⟨rfl,rfl⟩
        · next hfin =>
          refine ⟨_,setRequest_const h,rfl,hstate,fun _ => ⟨nofun,fun h => absurd h hf⟩,
            fun _ _ m' => ?_,fun _ hs => ?_,hnew,nofun⟩
          · simp only [RequestNode.count_msgs,nhrMsgs_cons,List.count_append,Option.toList_some,
              List.count_nil]
            omega
          · exact absurd (eq_outstanding hf hfin) hs

theorem recordPacket_found (msg : DataPathMessage) (m : M) (id : Option ℕ)
    (conf : Except String Unit) (h : findRequest ipaddr l = some req) :
    ∃ req', (recordPacket msg m ipaddr id conf l).requests = setRequest ipaddr (fun _ => req') l ∧
      Joined msg m id req req' (recordPacket msg m ipaddr id conf l) := by
  unfold recordPacket
  rw [h]
  simp only
  split
  · next hf => exact retryRequest_spec h hf
  · next hf => exact joinRequest_spec h hf

theorem sendNhrs_count (msg : M → DataPathMessage) (l : List (NhrNode M)) (m : M) :
    (sendNhrs msg l).2.1.count m + (nhrMsgs (sendNhrs msg l).2.2).count m = (nhrMsgs l).count m := by
  induction l with
  | nil => rfl
  | cons n l ih =>
    unfold sendNhrs
    split
    · next hn => simpa [nhrMsgs_cons,hn] using ih
    · next m' hn =>
      split
      · simp
      · rw [nhrMsgs_cons n l,hn]
        show (m' :: (sendNhrs msg l).2.1).count m +
          (nhrMsgs (clearNhr n :: (sendNhrs msg l).2.2)).count m = _
        rw [nhrMsgs_cons (clearNhr n),show (clearNhr n).nhrMsg = none from rfl]
        simp only [List.count_append,List.count_cons,Option.toList_some,Option.toList_none,
          List.count_nil]
        omega

theorem sendWaiting_count (msg : M → DataPathMessage) (r : RequestNode M) (m : M) :
    (sendWaiting msg r).2.1.count m + (sendWaiting msg r).2.2.msgs.count m = r.msgs.count m := by
  have hn := sendNhrs_count msg r.nhrList m
  unfold sendWaiting
  simp only [RequestNode.count_msgs]
  rcases hx : sendNhrs msg r.nhrList with ⟨result,sent,nhrs⟩
  simp only [hx] at hn
  cases hd : r.dipMsg with
  | none =>
    simp only [Option.map_none,Option.toList_none,List.count_nil]
    omega
  | some m' =>
    cases hs : sendPacketToDataPath (msg m') with
    | error text => simp [hs,hd]
    | ok _ =>
      simp only [hs,Option.map_some,List.count_cons,Option.toList_some,Option.toList_none,
        List.count_nil]
      omega

/-- What `processArpPacket` does to a request that it finds. -/
structure Answered (msg : M → DataPathMessage) (conf : Except String Unit) (req req' : RequestNode M)
    (result : Except String Unit) (sent : List M) (writes : List SramWrite) : Prop where
  ipaddr : req'.ipaddr = req.ipaddr
  isOk : result = .ok () ↔ conf = .ok () ∧
    (req.state = .outstanding → ∀ m ∈ req.msgs, sendPacketToDataPath (msg m) = .ok ())
  finished : result = .ok () → req'.state = .finished ∧
    writes.map (fun w => (w.addr,w.id)) = req.pairs
  failed : result ≠ .ok () → req'.state = req.state ∧ writes = []
  count : ∀ m, req'.msgs.count m + sent.count m = req.msgs.count m
  waiting : (req.state ≠ .outstanding → req.msgs = []) → req'.state ≠ .outstanding → req'.msgs = []
  pairs : req'.pairs = req.pairs

theorem processRequest_spec (msg : M → DataPathMessage) (conf : Except String Unit) (r : RequestNode M) :
    Answered msg conf r (processRequest msg conf r).2.2.1 (processRequest msg conf r).1
      (processRequest msg conf r).2.1 (processRequest msg conf r).2.2.2.1 := by
  unfold processRequest
  by_cases hs : r.state = .outstanding
  · have hip := sendWaiting_ipaddr msg r
    have hst := sendWaiting_state msg r
    have hcount := sendWaiting_count msg r
    have hpairs := pairs_of_cleared (sendWaiting_cleared msg r)
    have hisOk := sendWaiting_isOk msg r
    have hok := sendWaiting_ok msg r
    rw [if_pos hs]
    rcases hx : sendWaiting msg r with ⟨result,sent,r'⟩
    simp only [hx] at hip hst hcount hpairs hisOk hok
    have hc : ∀ m, r'.msgs.count m + sent.count m = r.msgs.count m := fun m => by
      have := hcount m
      omega
    have hwait : r'.state ≠ .outstanding → r'.msgs = [] := fun h => absurd (hst.trans hs) h
    cases result with
    | error text =>
      exact ⟨hip,⟨nofun,fun h => absurd (hisOk.mpr (h.2 hs)) nofun⟩,nofun,fun _ => ⟨hst,rfl⟩,hc,
        fun _ => hwait,hpairs⟩
    | ok _ =>
      cases conf with
      | error text =>
        exact ⟨hip,⟨nofun,fun h => absurd h.1 nofun⟩,nofun,fun _ => ⟨hst,rfl⟩,hc,fun _ => hwait,
          hpairs⟩
      | ok _ =>
        exact ⟨hip,⟨fun _ => ⟨rfl,fun _ => hisOk.mp rfl⟩,fun _ => rfl⟩,
          fun _ => ⟨rfl,r'.map_nhrWrites.trans hpairs⟩,fun h => absurd rfl h,hc,
          fun _ _ => hok rfl,hpairs⟩
  · rw [if_neg hs]
    cases conf with
    | error text =>
      exact ⟨rfl,⟨nofun,fun h => absurd h.1 nofun⟩,nofun,fun _ => ⟨rfl,rfl⟩,fun _ => rfl,fun h => h,
        rfl⟩
    | ok _ =>
      exact ⟨rfl,⟨fun _ => ⟨rfl,fun h => absurd h hs⟩,fun _ => rfl⟩,
        fun _ => ⟨rfl,r.map_nhrWrites⟩,fun h => absurd rfl h,fun _ => rfl,fun h _ => h hs,rfl⟩

theorem processArpPacket_found (msg : M → DataPathMessage) (hi16 low32 : ℕ)
    (conf : Except String Unit) (h : findRequest ipaddr l = some req) :
    ∃ req', (processArpPacket msg ipaddr hi16 low32 conf l).requests =
        setRequest ipaddr (fun _ => req') l ∧
      Answered msg conf req req' (processArpPacket msg ipaddr hi16 low32 conf l).result
        (processArpPacket msg ipaddr hi16 low32 conf l).sent
        (processArpPacket msg ipaddr hi16 low32 conf l).writes := by
  have hspec := processRequest_spec msg conf
    { req with macaddrHi16 := hi16, macaddrLow32 := low32 }
  unfold processArpPacket
  rw [h]
  exact ⟨_,rfl,hspec.ipaddr,hspec.isOk,hspec.finished,hspec.failed,hspec.count,hspec.waiting,
    hspec.pairs⟩

end

end OnlDaemons.Npr

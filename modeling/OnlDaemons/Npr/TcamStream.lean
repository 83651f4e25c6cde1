import OnlDaemons.Lib.Run
import OnlDaemons.Npr.TcamCommands

/-!
# The NPR daemons and the TCAM daemon

Each NPR daemon has one connection to the TCAM daemon. The calls that need the TCAM write their command
and `read` once, under `tcam_lock`, or under `conf_lock` in `start_router` and `stop_router`. A `read`
returns what is there.

## Main definitions

- `TcamLink` — the connection of one NPR daemon and the threads that use it; each byte is tagged with the
  command that it belongs to
- `TcamWorld.step` — the two NPR daemons and the TCAM daemon
- `TcamWorld.InStep` — a caller takes the bytes written for its own command, and a command is executed on
  a database of the router that sent it
- `TcamWorld.MayWrite`, `TcamWorld.Framed` — every `read` returns all that was written, no two commands are under way at once,
  and the router is initialised when it uses a database

## Main result

- `inStep_of_framed` — over runs
-/

namespace OnlDaemons.Npr
open OnlDaemons.Lib

inductive TcamLock
  | conf
  | tcam
deriving DecidableEq, Repr

def TcamLock.other : TcamLock → TcamLock
  | conf => tcam
  | tcam => conf

def TcamCaller.lock : TcamCaller → TcamLock
  | startRouter | stopRouter => .conf
  | _ => .tcam

/-- `booting` is the rest of `start_router`. -/
inductive ExchangePlace
  | out (result : Option (Except String ℕ))
  | locked (r : TcamRequest)
  | waiting (r : TcamRequest) (x : ℕ)
  | booting

def ExchangePlace.waits : ExchangePlace → Bool
  | waiting .. => true
  | _ => false

/-- The lock that the thread holds. -/
def ExchangePlace.lock : ExchangePlace → Option TcamLock
  | out _ => none
  | locked r | waiting r _ => some r.caller.lock
  | booting => some .conf

/-- The bytes of the command number `x`, or of a response to it. -/
def tag (x : ℕ) (bs : List UInt8) : List (ℕ × UInt8) := bs.map fun b => (x, b)

/-- `up` goes to the TCAM daemon and `down` to the NPR daemon. `answered` has what was written in response
to each command, and `started` stands for `state == START`. -/
structure TcamLink (T : Type) where
  connected : Bool := false
  up : List (ℕ × UInt8) := []
  down : List (ℕ × UInt8) := []
  next : ℕ := 0
  answered : ℕ → List UInt8 := fun _ => []
  started : Bool := false
  holder : TcamLock → Option T := fun _ => none
  place : T → ExchangePlace := fun _ => .out none

/-- `write`, `serve` and `read` have the number of bytes that the system call takes or returns; `sent` is
that of the daemon's `write`. -/
inductive TcamAct (T : Type)
  | connect
  | lock (t : T) (r : TcamRequest)
  | write (t : T) (k : ℕ)
  | serve (k : ℕ) (o : LibOutcome) (sent : ℕ)
  | read (t : T) (k : ℕ)
  | readFails (t : T)
  | boot (t : T) (failed : Option String)
  | hangUp

namespace TcamLink

variable {T : Type} [DecidableEq T]

/-- What a `read` of `k` bytes may return. -/
def Readable (k : ℕ) (bytes : List (ℕ × UInt8)) : Prop := 0 < k ∧ k ≤ 2000 ∧ k ≤ bytes.length

instance (k : ℕ) (bytes : List (ℕ × UInt8)) : Decidable (Readable k bytes) :=
  inferInstanceAs (Decidable (_ ∧ _))

def goTo (l : TcamLink T) (t : T) (p : ExchangePlace) : TcamLink T :=
  { l with place := Function.update l.place t p }

/-- The call returns or throws, and gives its lock back. -/
def leave (l : TcamLink T) (t : T) (x : TcamLock) (result : Except String ℕ) : TcamLink T :=
  { l with
    place := Function.update l.place t (.out (some result))
    holder := Function.update l.holder x none }

/-- After `read` has returned. `stop_router` goes on if the response has the right size. -/
def finish (l : TcamLink T) (t : T) (caller : TcamCaller) (rbuf : List UInt8) : TcamLink T :=
  match caller, caller.accept rbuf with
  | .startRouter, .ok _ => l.goTo t .booting
  | .stopRouter, result =>
    { l with started := l.started && rbuf.length != 4 }.leave t .conf result
  | caller, result => l.leave t caller.lock result

/-- The calls of one NPR daemon. -/
def step (l : TcamLink T) : TcamAct T → Option (TcamLink T)
  | .connect =>
    -- a new process
    if l.connected then none else some { connected := true, next := l.next, answered := l.answered }
  | .lock t r =>
    match l.place t with
    | .out _ =>
      if l.holder r.caller.lock = none ∧ (r.caller = .startRouter → ¬l.started) ∧
          (r.caller = .stopRouter → l.started) then
        some { l with
          place := Function.update l.place t (.locked r)
          holder := Function.update l.holder r.caller.lock (some t) }
      else none
    | _ => none
  | .write t k =>
    match l.place t with
    | .locked r =>
      if r.bytes.length < k then none
      else
        let l' := { l with
          next := l.next + 1
          up := if l.connected then l.up ++ tag l.next (r.bytes.take k) else l.up }
        if k = r.bytes.length then some (l'.goTo t (.waiting r l.next))
        else some (l'.leave t r.caller.lock (.error r.caller.writeFailed))
    | _ => none
  | .read t k =>
    match l.place t with
    | .waiting r _ =>
      if l.down = [] then
        if l.connected then none else some (l.leave t r.caller.lock (.error r.caller.readFailed))
      else if Readable k l.down then
        some ({ l with down := l.down.drop k }.finish t r.caller ((l.down.take k).map Prod.snd))
      else none
    | _ => none
  | .readFails t =>
    match l.place t with
    | .waiting r _ => some (l.leave t r.caller.lock (.error r.caller.readFailed))
    | _ => none
  | .boot t failed =>
    match l.place t, failed with
    | .booting, none => some ({ l with started := true }.leave t .conf (.ok 0))
    | .booting, some text => some (l.leave t .conf (.error text))
    | _, _ => none
  | .serve .. | .hangUp => none

/-- The bytes on the way to the daemon are lost. -/
def close (l : TcamLink T) : TcamLink T := { l with connected := false, up := [] }

/-- `k` bytes were read, and `bs` written in response to the command that they begin with. -/
def respond (l : TcamLink T) (k : ℕ) (bs : List UInt8) : TcamLink T :=
  let x := (l.up.head?.map Prod.fst).getD 0
  { l with
    up := l.up.drop k
    down := l.down ++ tag x bs
    answered := Function.update l.answered x (l.answered x ++ bs) }

end TcamLink

/-- `faulted` is set when the TCAM daemon has used a NULL pointer. -/
structure TcamWorld (T : Type) where
  daemon : Tcamd := {}
  faulted : Bool := false
  link : Npu → TcamLink T := fun _ => {}

namespace TcamWorld

variable {T : Type} [DecidableEq T]

def setLink (w : TcamWorld T) (n : Npu) (l : TcamLink T) : TcamWorld T :=
  { w with link := Function.update w.link n l }

/-- The TCAM daemon closes the connection, for which it stops the router. -/
def hangUp (w : TcamWorld T) (n : Npu) : TcamWorld T :=
  { w.setLink n (w.link n).close with daemon := w.daemon.routerStop n }

def fault (w : TcamWorld T) : TcamWorld T :=
  { w with faulted := true, link := fun n => (w.link n).close }

def step (w : TcamWorld T) (n : Npu) : TcamAct T → Option (TcamWorld T)
  | .serve k o sent =>
    let l := w.link n
    if l.connected ∧ TcamLink.Readable k l.up then
      if k < 4 then some (w.hangUp n)
      else
        match w.daemon.serve n ((l.up.take k).map Prod.snd) o with
        | none => some w.fault
        | some (daemon, bs) =>
          let w' := { w.setLink n (l.respond k (bs.take sent)) with daemon := daemon }
          if sent < bs.length then some (w'.hangUp n) else some w'
    else none
  | .hangUp => if (w.link n).connected then some (w.hangUp n) else none
  | .connect =>
    if w.faulted then none
    else
      match (w.link n).step .connect with
      | none => none
      | some l => some (w.setLink n l)
  | a =>
    match (w.link n).step a with
    | none => none
    | some l => some (w.setLink n l)

/-- What a step takes and executes. -/
def InStep (w : TcamWorld T) (na : Npu × TcamAct T) : Prop :=
  match na with
  | (n, .read t k) => ∀ r x, (w.link n).place t = .waiting r x →
      (w.link n).down.take k = tag x ((w.link n).answered x)
  | (n, .serve k _ _) => ∀ d, Tcamd.uses (((w.link n).up.take k).map Prod.snd) = some d →
      w.daemon.db n d = some ⟨n, d⟩
  | _ => True

/-- The call that holds the other lock is not waiting for a response. -/
def OthersQuiet (l : TcamLink T) (x : TcamLock) : Prop :=
  ∀ t ∈ l.holder x.other, (l.place t).waits = false

/-- A command is written whole or not at all, while no response is awaited under the other lock, and only
by an initialised router if it needs a database. -/
def MayWrite (w : TcamWorld T) (n : Npu) (k : ℕ) : ExchangePlace → Prop
  | .locked r =>
    ((w.link n).connected → k ≠ 0 → k = r.bytes.length ∧
      (r.caller.command.table ≠ none → w.daemon.tcamState n = .init)) ∧
    (k = r.bytes.length → OthersQuiet (w.link n) r.caller.lock)
  | _ => True

/-- A `read` returns all that was written, and fails only if the connection is closed. -/
def Framed (w : TcamWorld T) (na : Npu × TcamAct T) : Prop :=
  match na with
  | (n, .write t k) => w.MayWrite n k ((w.link n).place t)
  | (n, .serve k _ _) => (w.link n).up.length ≤ k
  | (n, .read _ k) => (w.link n).down.length ≤ k
  | (n, .readFails _) => ¬(w.link n).connected ∧ (w.link n).down = []
  | _ => True

instance OthersQuiet.decidable (l : TcamLink T) (x : TcamLock) : Decidable (OthersQuiet l x) :=
  match h : l.holder x.other with
  | none => .isTrue fun t ht => by rw [h] at ht; cases ht
  | some t => decidable_of_iff ((l.place t).waits = false) (by simp [OthersQuiet, h])

instance MayWrite.decidable (w : TcamWorld T) (n : Npu) (k : ℕ) :
    (p : ExchangePlace) → Decidable (w.MayWrite n k p)
  | .locked _ => inferInstanceAs (Decidable (_ ∧ _))
  | .out _ | .waiting .. | .booting => .isTrue trivial

instance Framed.decidable (w : TcamWorld T) : (na : Npu × TcamAct T) → Decidable (w.Framed na)
  | (n, .write t k) => MayWrite.decidable w n k ((w.link n).place t)
  | (_, .serve ..) | (_, .read ..) => inferInstanceAs (Decidable (_ ≤ _))
  | (_, .readFails _) => inferInstanceAs (Decidable (_ ∧ _))
  | (_, .connect) | (_, .lock ..) | (_, .boot ..) | (_, .hangUp) => .isTrue trivial

/-! ### The invariant -/

/-- At most one command is under way, and its bytes or those of its response are all that is there. -/
structure LinkInv (initialised : Prop) (l : TcamLink T) : Prop where
  holder : ∀ t x, (l.place t).lock = some x → l.holder x = some t
  alone : ∀ t t', (l.place t).waits → (l.place t').waits → t = t'
  quiet : (∀ t, (l.place t).waits = false) → l.up = [] ∧ l.down = []
  waiting : ∀ t r x, l.place t = .waiting r x → l.down = tag x (l.answered x) ∧
    (l.up = [] ∧ (l.connected → l.answered x ≠ []) ∨
      l.up = tag x r.bytes ∧ l.answered x = [] ∧ (r.caller.command.table ≠ none → initialised))
  numbered : ∀ t r x, l.place t = .waiting r x → x < l.next
  fresh : ∀ x, l.next ≤ x → l.answered x = []
  closed : ¬l.connected → l.up = []

structure Inv (w : TcamWorld T) : Prop where
  sound : w.daemon.Sound
  link : ∀ n, LinkInv (w.daemon.tcamState n = .init) (w.link n)

section Links

variable {i i' : Prop} {l : TcamLink T} {t : T} {p : ExchangePlace}

omit [DecidableEq T] in
/-- A connection that nobody uses. -/
theorem LinkInv.of_quiet (hholder : ∀ t x, (l.place t).lock = some x → l.holder x = some t)
    (hno : ∀ t, (l.place t).waits = false) (hup : l.up = []) (hdown : l.down = [])
    (hfresh : ∀ x, l.next ≤ x → l.answered x = []) : LinkInv i l := by
  have hnot : ∀ t r x, l.place t ≠ .waiting r x := by
    intro t r x ht
    have hw := hno t
    rw [ht] at hw
    cases hw
  refine ⟨hholder, ?_, fun _ => ⟨hup, hdown⟩, fun t r x ht => absurd ht (hnot t r x),
    fun t r x ht => absurd ht (hnot t r x), hfresh, fun _ => hup⟩
  intro t t' ht
  rw [hno t] at ht
  cases ht

omit [DecidableEq T] in
theorem LinkInv.congr (h : LinkInv i l) (hi : i → i') : LinkInv i' l := by
  refine ⟨h.holder, h.alone, h.quiet, ?_, h.numbered, h.fresh, h.closed⟩
  intro t r x ht
  obtain ⟨hd, hu | ⟨hu, ha, htab⟩⟩ := h.waiting t r x ht
  · exact ⟨hd, .inl hu⟩
  · exact ⟨hd, .inr ⟨hu, ha, fun hc => hi (htab hc)⟩⟩

/-- The thread `t` takes the lock that its new place needs, or gives back the one that it had. -/
theorem LinkInv.holder_update (h : LinkInv i l) {holder : TcamLock → Option T}
    (hself : ∀ x, p.lock = some x → holder x = some t)
    (hother : ∀ x, holder x ≠ l.holder x → l.holder x = none ∨ l.holder x = some t) :
    ∀ t' x, (Function.update l.place t p t').lock = some x → holder x = some t' := by
  intro t' x hx
  by_cases ht : t' = t
  · subst ht
    rw [Function.update_self] at hx
    exact hself x hx
  · rw [Function.update_of_ne ht] at hx
    have hold := h.holder t' x hx
    by_cases he : holder x = l.holder x
    · rw [he, hold]
    · rcases hother x he with hn | hn
      · rw [hn] at hold
        cases hold
      · rw [hn] at hold
        exact absurd (Option.some.inj hold).symm ht

/-- If nobody else waits, then nobody waits after `t` has gone to a place where it does not. -/
theorem nobody_waits (hp : p.waits = false) (h : ∀ t', t' ≠ t → (l.place t').waits = false) :
    ∀ t', (Function.update l.place t p t').waits = false := by
  intro t'
  by_cases ht : t' = t
  · rw [ht, Function.update_self, hp]
  · rw [Function.update_of_ne ht, h t' ht]

/-- A thread that does not wait goes on, and still does not. -/
theorem LinkInv.pass (h : LinkInv i l) (hold : (l.place t).waits = false) (hp : p.waits = false)
    {holder : TcamLock → Option T} {started : Bool} {next : ℕ} (hnext : l.next ≤ next)
    (hholder : ∀ t' x, (Function.update l.place t p t').lock = some x → holder x = some t') :
    LinkInv i { l with place := Function.update l.place t p, holder := holder, started := started,
                       next := next } := by
  have hwaits : ∀ t', (Function.update l.place t p t').waits = (l.place t').waits := by
    intro t'
    by_cases ht : t' = t
    · rw [ht, Function.update_self, hp, hold]
    · rw [Function.update_of_ne ht]
  have hsame : ∀ a r x, Function.update l.place t p a = .waiting r x → l.place a = .waiting r x := by
    intro a r x ha
    by_cases hat : a = t
    · subst hat
      rw [Function.update_self] at ha
      rw [ha] at hp
      cases hp
    · rwa [Function.update_of_ne hat] at ha
  refine ⟨hholder, ?_, ?_, fun a r x ha => h.waiting a r x (hsame a r x ha), ?_,
    fun x hx => h.fresh x (Nat.le_trans hnext hx), h.closed⟩
  · intro a b ha hb
    exact h.alone a b ((hwaits a) ▸ ha) ((hwaits b) ▸ hb)
  · intro hno
    exact h.quiet fun a => (hwaits a) ▸ hno a
  · intro a r x ha
    exact Nat.lt_of_lt_of_le (h.numbered a r x (hsame a r x ha)) hnext

/-- The thread that waits leaves, with all the bytes there are. -/
theorem LinkInv.settle (h : LinkInv i l) (ht : (l.place t).waits) (hp : p.waits = false)
    {holder : TcamLock → Option T} {started : Bool} {down : List (ℕ × UInt8)}
    (hdown : down = []) (hup : l.up = [])
    (hholder : ∀ t' x, (Function.update l.place t p t').lock = some x → holder x = some t') :
    LinkInv i { l with place := Function.update l.place t p, holder := holder, started := started,
                       down := down } := by
  refine .of_quiet hholder (nobody_waits hp ?_) hup hdown h.fresh
  intro t' hne
  cases hw : (l.place t').waits with
  | false => rfl
  | true => exact absurd (h.alone t' t hw ht) hne

theorem LinkInv.release (h : LinkInv i l) {x : TcamLock} (hx : (l.place t).lock = some x)
    {result : Option (Except String ℕ)} :
    ∀ t' y, (Function.update l.place t (.out result) t').lock = some y →
      Function.update l.holder x none y = some t' := by
  refine h.holder_update (fun _ hy => by cases hy) ?_
  intro y hy
  by_cases hyx : y = x
  · subst hyx
    exact .inr (h.holder t y hx)
  · rw [Function.update_of_ne hyx] at hy
    exact absurd rfl hy

theorem LinkInv.lock (h : LinkInv i l) {r : TcamRequest} (ht : (l.place t).waits = false)
    (hfree : l.holder r.caller.lock = none) :
    LinkInv i { l with
      place := Function.update l.place t (.locked r)
      holder := Function.update l.holder r.caller.lock (some t) } := by
  refine h.pass ht rfl (Nat.le_refl _) (h.holder_update ?_ ?_)
  · intro x hx
    cases hx
    exact Function.update_self ..
  · intro x hx
    by_cases hxl : x = r.caller.lock
    · rw [hxl]
      exact .inl hfree
    · rw [Function.update_of_ne hxl] at hx
      exact absurd rfl hx

omit [DecidableEq T] in
/-- The holder of a lock is at the head of a call, and the other one does not wait. -/
theorem LinkInv.others (h : LinkInv i l) {r : TcamRequest} (ht : l.place t = .locked r)
    (hq : OthersQuiet l r.caller.lock) : ∀ t', (l.place t').waits = false := by
  intro t'
  cases hp : l.place t' with
  | out => rfl
  | locked => rfl
  | booting => rfl
  | waiting r' x =>
    exfalso
    have hh := h.holder t' r'.caller.lock (by rw [hp]; rfl)
    by_cases he : r'.caller.lock = r.caller.lock
    · have hh' := h.holder t r.caller.lock (by rw [ht]; rfl)
      rw [he, hh'] at hh
      rw [Option.some.inj hh, hp] at ht
      cases ht
    · have ho : r'.caller.lock = r.caller.lock.other := by
        revert he
        cases r'.caller.lock <;> cases r.caller.lock <;> decide
      have hw := hq t' (ho ▸ hh)
      rw [hp] at hw
      cases hw

theorem LinkInv.write (h : LinkInv i l) {r : TcamRequest} {k : ℕ} (ht : l.place t = .locked r)
    (hc : (l.connected → k ≠ 0 → k = r.bytes.length ∧ (r.caller.command.table ≠ none → i)) ∧
      (k = r.bytes.length → OthersQuiet l r.caller.lock)) {u : TcamLink T}
    (hs : l.step (.write t k) = some u) : LinkInv i u := by
  simp only [TcamLink.step, ht] at hs
  split at hs
  · cases hs
  split at hs
  · next hk =>
    cases hs
    have hno := h.others ht (hc.2 hk)
    obtain ⟨hup, hdown⟩ := h.quiet hno
    have hne : k ≠ 0 := by
      have hlen := r.length_bytes
      omega
    have hmine : ∀ a r' x, Function.update l.place t (.waiting r l.next) a = .waiting r' x →
        r' = r ∧ x = l.next := by
      intro a r' x ha
      by_cases hat : a = t
      · rw [hat, Function.update_self] at ha
        cases ha
        exact ⟨rfl, rfl⟩
      · rw [Function.update_of_ne hat] at ha
        have hw := hno a
        rw [ha] at hw
        cases hw
    refine ⟨h.holder_update ?_ (fun _ hx => absurd rfl hx), ?_, ?_, ?_, ?_,
      fun x hx => h.fresh x (Nat.le_trans (Nat.le_succ _) hx), ?_⟩
    · intro x hx
      exact h.holder t x (by rw [ht]; exact hx)
    · have hself : ∀ a, (Function.update l.place t (.waiting r l.next) a).waits → a = t := by
        intro a ha
        by_contra hat
        rw [Function.update_of_ne hat, hno a] at ha
        cases ha
      exact fun a b ha hb => (hself a ha).trans (hself b hb).symm
    · intro hall
      have hw : (Function.update l.place t (.waiting r l.next) t).waits = false := hall t
      rw [Function.update_self] at hw
      cases hw
    · intro a r' x ha
      obtain ⟨rfl, rfl⟩ := hmine a r' x ha
      have hans := h.fresh l.next (Nat.le_refl _)
      refine ⟨by simp only [TcamLink.goTo, hdown, hans]; rfl, ?_⟩
      by_cases hconn : l.connected
      · refine .inr ⟨?_, hans, (hc.1 hconn hne).2⟩
        simp only [TcamLink.goTo, if_pos hconn, hup, hk, List.take_length, List.nil_append]
      · refine .inl ⟨?_, fun hconn' => absurd hconn' hconn⟩
        simp only [TcamLink.goTo, if_neg hconn, hup]
    · intro a r' x ha
      rw [(hmine a r' x ha).2]
      exact Nat.lt_succ_self _
    · intro hconn
      simp only [TcamLink.goTo] at hconn ⊢
      rw [if_neg hconn, hup]
  · next hk =>
    cases hs
    -- nothing was written, or it is lost
    have hup : (if l.connected then l.up ++ tag l.next (r.bytes.take k) else l.up) = l.up := by
      split
      · next hconn =>
        by_cases h0 : k = 0
        · rw [h0, List.take_zero]
          exact List.append_nil _
        · exact absurd (hc.1 hconn h0).1 hk
      · rfl
    simp only [TcamLink.leave, hup]
    exact h.pass (by rw [ht]; rfl) rfl (Nat.le_succ _) (h.release (by rw [ht]; rfl))

omit [DecidableEq T] in
/-- What is there for the thread that waits. -/
theorem LinkInv.down_eq (h : LinkInv i l) {r : TcamRequest} {x : ℕ} (ht : l.place t = .waiting r x) :
    l.down = tag x (l.answered x) ∧ (l.down ≠ [] → l.up = []) := by
  obtain ⟨hd, ⟨hu, -⟩ | ⟨-, ha, -⟩⟩ := h.waiting t r x ht
  · exact ⟨hd, fun _ => hu⟩
  · refine ⟨hd, fun hne => absurd ?_ hne⟩
    rw [hd, ha]
    rfl

theorem LinkInv.finish (h : LinkInv i l) {r : TcamRequest} {x : ℕ} (ht : l.place t = .waiting r x)
    (hup : l.up = []) {rbuf : List UInt8} :
    LinkInv i ({ l with down := [] }.finish t r.caller rbuf) := by
  have hw : (l.place t).waits := by rw [ht]; rfl
  have hlock : (l.place t).lock = some r.caller.lock := by rw [ht]; rfl
  unfold TcamLink.finish
  split
  · next hr _ =>
    refine h.settle hw rfl rfl hup (h.holder_update ?_ fun _ hx => absurd rfl hx)
    intro y hy
    cases hy
    rw [hr] at hlock
    exact h.holder t .conf hlock
  · next hr =>
    rw [hr] at hlock
    exact h.settle hw rfl rfl hup (h.release hlock)
  · exact h.settle hw rfl rfl hup (h.release hlock)

theorem LinkInv.read (h : LinkInv i l) {k : ℕ} {u : TcamLink T} (hc : l.down.length ≤ k)
    (hs : l.step (.read t k) = some u) : LinkInv i u := by
  simp only [TcamLink.step] at hs
  split at hs
  · next r x ht =>
    split at hs
    · next hdown =>
      split at hs <;> cases hs
      next hconn =>
      refine h.settle (by rw [ht]; rfl) rfl hdown (h.closed hconn) (h.release ?_)
      rw [ht]
      rfl
    · next hdown =>
      split at hs <;> cases hs
      rw [List.drop_eq_nil_of_le hc]
      exact h.finish ht ((h.down_eq ht).2 hdown)
  · cases hs

theorem LinkInv.readFails (h : LinkInv i l) {u : TcamLink T} (hc : ¬l.connected ∧ l.down = [])
    (hs : l.step (.readFails t) = some u) : LinkInv i u := by
  simp only [TcamLink.step] at hs
  split at hs <;> cases hs
  next r x ht =>
  refine h.settle (by rw [ht]; rfl) rfl hc.2 (h.closed hc.1) (h.release ?_)
  rw [ht]
  rfl

theorem LinkInv.boot (h : LinkInv i l) {failed : Option String} {u : TcamLink T}
    (hs : l.step (.boot t failed) = some u) : LinkInv i u := by
  simp only [TcamLink.step] at hs
  split at hs <;> cases hs
  · next ht =>
    exact h.pass (by rw [ht]; rfl) rfl (Nat.le_refl _) (h.release (by rw [ht]; rfl))
  · next ht =>
    exact h.pass (by rw [ht]; rfl) rfl (Nat.le_refl _) (h.release (by rw [ht]; rfl))

theorem LinkInv.connect (h : LinkInv i l) {u : TcamLink T} (hs : l.step .connect = some u) :
    LinkInv i u := by
  simp only [TcamLink.step] at hs
  split at hs <;> cases hs
  exact .of_quiet (fun _ _ hx => by cases hx) (fun _ => rfl) rfl rfl h.fresh

omit [DecidableEq T] in
theorem LinkInv.close (h : LinkInv i l) : LinkInv i' l.close := by
  refine ⟨h.holder, h.alone, fun hno => ⟨rfl, (h.quiet hno).2⟩, ?_, h.numbered, h.fresh,
    fun _ => rfl⟩
  intro t r x ht
  exact ⟨(h.down_eq ht).1, .inl ⟨rfl, nofun⟩⟩

omit [DecidableEq T] in
/-- The command whose bytes are there. -/
theorem LinkInv.under_way (h : LinkInv i l) (hup : l.up ≠ []) :
    ∃ t r x, l.place t = .waiting r x ∧ l.up = tag x r.bytes ∧ l.answered x = [] ∧ l.down = [] ∧
      (r.caller.command.table ≠ none → i) := by
  by_cases hno : ∀ t, (l.place t).waits = false
  · exact absurd (h.quiet hno).1 hup
  · rw [not_forall] at hno
    obtain ⟨t, ht⟩ := hno
    cases hp : l.place t with
    | out => exact absurd (by rw [hp]; rfl) ht
    | locked => exact absurd (by rw [hp]; rfl) ht
    | booting => exact absurd (by rw [hp]; rfl) ht
    | waiting r x =>
      obtain ⟨hd, ⟨hu, -⟩ | ⟨hu, ha, hi⟩⟩ := h.waiting t r x hp
      · exact absurd hu hup
      · exact ⟨t, r, x, hp, hu, ha, by rw [hd, ha]; rfl, hi⟩

omit [DecidableEq T] in
/-- The whole command was read, and `bs` written, before the connection was closed or not. -/
theorem LinkInv.respond (h : LinkInv i l) (hup : l.up ≠ []) {k : ℕ} {bs : List UInt8} {c : Bool}
    (hc : c → bs ≠ []) : LinkInv i' { l.respond k bs with connected := c, up := [] } := by
  obtain ⟨t, r, x, ht, hu, ha, hd, -⟩ := h.under_way hup
  have hx : (l.up.head?.map Prod.fst).getD 0 = x := by
    have hne : r.bytes ≠ [] := by
      intro hnil
      rw [hu, hnil] at hup
      exact hup rfl
    obtain ⟨b, bs', hb⟩ := List.exists_cons_of_ne_nil hne
    rw [hu, hb]
    rfl
  have hans : Function.update l.answered x (l.answered x ++ bs) x = bs := by
    rw [Function.update_self, ha, List.nil_append]
  simp only [TcamLink.respond, hx]
  refine ⟨h.holder, h.alone, ?_, ?_, h.numbered, ?_, fun _ => rfl⟩
  · intro hno
    have hw : (l.place t).waits = false := hno t
    rw [ht] at hw
    cases hw
  · intro t' r' x' ht'
    have heq : t' = t := h.alone t' t (by rw [show l.place t' = _ from ht']; rfl) (by rw [ht]; rfl)
    have hsame : ExchangePlace.waiting r x = .waiting r' x' := by
      rw [← ht, ← heq]
      exact ht'
    cases hsame
    refine ⟨?_, .inl ⟨rfl, fun hconn => ?_⟩⟩
    · show l.down ++ tag x bs = tag x (Function.update l.answered x (l.answered x ++ bs) x)
      rw [hd, hans, List.nil_append]
    · show Function.update l.answered x (l.answered x ++ bs) x ≠ []
      rw [hans]
      exact hc hconn
  · intro y hy
    have hne : y ≠ x := by
      rintro rfl
      exact Nat.lt_irrefl _ (Nat.lt_of_lt_of_le (h.numbered t r y ht) hy)
    exact (Function.update_of_ne hne ..).trans (h.fresh y hy)

end Links

variable {w u : TcamWorld T} {n : Npu} {l : TcamLink T}

omit [DecidableEq T] in
/-- The link of one router changes, and its state in the daemon. -/
theorem Inv.change (h : w.Inv) {daemon : Tcamd} (hsound : daemon.Sound)
    (hother : ∀ m, m ≠ n → daemon.tcamState m = w.daemon.tcamState m)
    (hl : LinkInv (daemon.tcamState n = .init) l) :
    Inv { w.setLink n l with daemon := daemon } := by
  refine ⟨hsound, fun m => ?_⟩
  by_cases hm : m = n
  · subst hm
    simpa only [setLink, Function.update_self] using hl
  · simp only [setLink, Function.update_of_ne hm, hother m hm]
    exact h.link m

omit [DecidableEq T] in
theorem Inv.setLink (h : w.Inv) (hl : LinkInv (w.daemon.tcamState n = .init) l) :
    Inv (w.setLink n l) :=
  h.change h.sound (fun _ _ => rfl) hl

omit [DecidableEq T] in
theorem Inv.hangUp (h : w.Inv) : Inv (w.hangUp n) :=
  h.change h.sound.routerStop (fun _ hm => Tcamd.routerStop_other hm) (h.link n).close

omit [DecidableEq T] in
/-- What was read is the command under way, and the router is initialised if that is about a
database. -/
theorem Inv.read_whole (h : w.Inv) {k : ℕ} (hr : TcamLink.Readable k (w.link n).up)
    (hk : (w.link n).up.length ≤ k) : (w.link n).up ≠ [] ∧ ∃ r : TcamRequest,
      ((w.link n).up.take k).map Prod.snd = r.bytes ∧
      ∀ d, r.caller.command.table = some d → w.daemon.db n d = some ⟨n, d⟩ := by
  have hup : (w.link n).up ≠ [] := by
    intro hnil
    have hlen := hr.2.2
    rw [hnil] at hlen
    exact absurd hr.1 (Nat.not_lt.mpr hlen)
  refine ⟨hup, ?_⟩
  obtain ⟨t, r, x, -, hu, -, -, hi⟩ := (h.link n).under_way hup
  refine ⟨r, ?_, fun d hd => h.sound n (hi (by rw [hd]; exact nofun)) d⟩
  rw [List.take_of_length_le hk, hu, tag, List.map_map]
  exact List.map_id _

omit [DecidableEq T] in
theorem hangUp_change {daemon : Tcamd} :
    { w.setLink n l with daemon := daemon }.hangUp n =
      { w.setLink n l.close with daemon := daemon.routerStop n } := by
  simp only [hangUp, TcamWorld.setLink, Function.update_self, Function.update_idem]

theorem Inv.serve (h : w.Inv) {k : ℕ} {o : LibOutcome} {sent : ℕ}
    (hk : (w.link n).up.length ≤ k) (hs : w.step n (.serve k o sent) = some u) : u.Inv := by
  simp only [step] at hs
  split at hs
  swap
  · cases hs
  next hc =>
  split at hs
  · cases hs
    exact h.hangUp
  obtain ⟨hup, r, hbytes, hdb⟩ := h.read_whole hc.2 hk
  have hnull : ∀ d, r.caller.command.table = some d → w.daemon.db n d ≠ none := by
    intro d hd
    rw [hdb d hd]
    exact nofun
  obtain ⟨daemon, bs, hserve⟩ := r.serve_request (o := o) hnull
  rw [hbytes, hserve] at hs
  simp only at hs
  have hsound := h.sound.serve hserve
  have hother : ∀ m, m ≠ n → daemon.tcamState m = w.daemon.tcamState m :=
    fun m hm => Tcamd.serve_other hm hserve
  have hrespond : (w.link n).respond k (bs.take sent) =
      { (w.link n).respond k (bs.take sent) with connected := (w.link n).connected, up := [] } := by
    simp only [TcamLink.respond, List.drop_eq_nil_of_le hk]
  split at hs <;> cases hs
  · rw [hangUp_change]
    refine h.change hsound.routerStop
      (fun m hm => (Tcamd.routerStop_other hm).trans (hother m hm)) ?_
    exact (h.link n).respond hup nofun
  · next hsent =>
    refine h.change hsound hother ?_
    rw [hrespond]
    refine (h.link n).respond hup fun _ => ?_
    rw [List.take_of_length_le (Nat.le_of_not_lt hsent)]
    exact (Tcamd.serve_cases hserve).1

/-- One step, in which the bytes of one command are all that is there. -/
theorem inv_of_framed {a : TcamAct T} (h : w.Inv) (hs : w.step n a = some u)
    (hc : w.Framed (n, a)) : u.Inv := by
  cases a with
  | serve k o sent => exact h.serve hc hs
  | hangUp =>
    simp only [step] at hs
    split at hs <;> cases hs
    exact h.hangUp
  | connect =>
    simp only [step] at hs
    split at hs
    · cases hs
    split at hs <;> cases hs
    next l hl =>
    exact h.setLink ((h.link n).connect hl)
  | lock t r =>
    simp only [step] at hs
    split at hs <;> cases hs
    next l hl =>
    simp only [TcamLink.step] at hl
    split at hl
    · next ht =>
      split at hl <;> cases hl
      next hfree =>
      exact h.setLink ((h.link n).lock (by rw [ht]; rfl) hfree.1)
    · cases hl
  | write t k =>
    simp only [step] at hs
    split at hs <;> cases hs
    next l hl =>
    refine h.setLink ?_
    have hmay : w.MayWrite n k ((w.link n).place t) := hc
    cases ht : (w.link n).place t with
    | locked r =>
      rw [ht] at hmay
      exact (h.link n).write ht hmay hl
    | out result =>
      simp only [TcamLink.step, ht] at hl
      cases hl
    | waiting r x =>
      simp only [TcamLink.step, ht] at hl
      cases hl
    | booting =>
      simp only [TcamLink.step, ht] at hl
      cases hl
  | read t k =>
    simp only [step] at hs
    split at hs <;> cases hs
    next l hl =>
    exact h.setLink ((h.link n).read hc hl)
  | readFails t =>
    simp only [step] at hs
    split at hs <;> cases hs
    next l hl =>
    exact h.setLink ((h.link n).readFails hc hl)
  | boot t failed =>
    simp only [step] at hs
    split at hs <;> cases hs
    next l hl =>
    exact h.setLink ((h.link n).boot hl)

theorem inStep_step {a : TcamAct T} (h : w.Inv) (hs : w.step n a = some u)
    (hc : w.Framed (n, a)) : w.InStep (n, a) := by
  cases a with
  | read t k =>
    intro r x ht
    rw [List.take_of_length_le hc]
    exact ((h.link n).down_eq ht).1
  | serve k o sent =>
    intro d hd
    simp only [step] at hs
    split at hs
    · next hr =>
      obtain ⟨-, r, hbytes, hdb⟩ := h.read_whole hr.2 hc
      rw [hbytes, r.uses_bytes] at hd
      exact hdb d hd
    · cases hs
  | connect => trivial
  | lock t r => trivial
  | write t k => trivial
  | readFails t => trivial
  | boot t failed => trivial
  | hangUp => trivial

omit [DecidableEq T] in
theorem inv_start : Inv ({} : TcamWorld T) :=
  ⟨fun _ hn => (by cases hn),
    fun _ => .of_quiet (fun _ _ hx => (by cases hx)) (fun _ => rfl) rfl rfl fun _ _ => rfl⟩

/-- Any number of calls of two NPR daemons, with any outcome of their commands: if every `read` returns
all that was written, no two commands are under way at once and the router is initialised whenever its
databases are needed, then every caller takes what was written for its own command, and commands are
executed on the databases of the router that sent them. -/
theorem inStep_of_framed (tr : List ((Npu × TcamAct T) × TcamWorld T))
    (hr : IsRun (fun w na u => w.step na.1 na.2 = some u) {} tr)
    (hc : EveryStep (fun w na _ => w.Framed na) {} tr) :
    EveryStep (fun w na _ => w.InStep na) {} tr :=
  hr.everyStep (fun _ _ _ h hs hc => inv_of_framed h hs hc)
    (fun _ _ _ h hs hc => inStep_step h hs hc) inv_start hc

def initRequest : TcamRequest := ⟨.startRouter, [], rfl⟩

def queryRequest : TcamRequest := ⟨.query .route, List.replicate 12 0, rfl⟩

def addRequest : TcamRequest := ⟨.add .route, List.replicate 32 0, rfl⟩

def startFirst : List (Npu × TcamAct ℕ) :=
  [(.npra, .connect), (.npra, .lock 0 initRequest), (.npra, .write 0 4), (.npra, .serve 4 {} 4),
    (.npra, .read 0 4), (.npra, .boot 0 none)]

/-- The thread 1 writes its query, and has it answered. -/
def querySecond : List (Npu × TcamAct ℕ) :=
  [(.npra, .lock 1 queryRequest), (.npra, .write 1 16), (.npra, .serve 16 {} 8)]

theorem started_query_inStep :
    EveryStep (fun (w : TcamWorld ℕ) na _ => w.InStep na) {}
      (runOf (fun w na => w.step na.1 na.2) {}
        (startFirst ++ querySecond ++ [(.npra, .read 1 8)])) :=
  inStep_of_framed _ (isRun_runOf ..) (by decide +kernel)

/-- Half of the response to a query is read, and the query fails: the other half is then the response to
an `add_route`. -/
theorem leftover_taken : ¬ ∀ tr : List ((Npu × TcamAct ℕ) × TcamWorld ℕ),
    IsRun (fun w na u => w.step na.1 na.2 = some u) {} tr →
    EveryStep (fun w na _ => w.InStep na) {} tr := by
  intro h
  have hs := h _ (isRun_runOf (fun (w : TcamWorld ℕ) na => w.step na.1 na.2) {} (startFirst ++ querySecond ++
    [(.npra, .read 1 4), (.npra, .lock 2 addRequest), (.npra, .write 2 36), (.npra, .read 2 4)]))
  obtain ⟨-, -, -, -, -, -, -, -, -, -, -, -, hlast, -⟩ := hs
  have htaken := hlast addRequest 2 rfl
  revert htaken
  decide +kernel

end TcamWorld

end OnlDaemons.Npr

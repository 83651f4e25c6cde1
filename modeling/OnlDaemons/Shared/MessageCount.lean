import Mathlib.Data.Int.Notation
import Mathlib.Data.List.Nodup
import Mathlib.Logic.Function.Basic
import OnlDaemons.Lib.Run

/-!
# The message count of a connection

A connection counts the messages that refer to it, and the listener deletes a finished connection when the count is zero. A
message counts from when it is bound to the connection until it is deleted. The receive loop counts each message that
comes as well, and nothing takes that back.

## Main definitions

- `NccpConnection`, `Connections` — connections, messages and the threads for what comes
- `Connections.step` — every interleaving of the loops, the threads and the rest of the daemon
- `Connections.Exact` — the count is that of the messages that refer to the connection

## Main results

- `count_eq`, `cleanup_safe` — what the count is in every run, and what clean-up makes of it
- `exact_iff_nothingReceived`
-/

namespace OnlDaemons.Shared
open OnlDaemons.Lib

/-- The fields of `nccp_connection` that are looked at. -/
structure NccpConnection where
  closed : Bool := false
  finished : Bool := false
  messageCount : ℤ := 0
deriving DecidableEq, Repr

namespace NccpConnection

def addCount (d : ℤ) (conn : NccpConnection) : NccpConnection := { conn with messageCount := conn.messageCount + d }

def incrementMsgCount : NccpConnection → NccpConnection := addCount 1

def decrementMsgCount : NccpConnection → NccpConnection := addCount (-1)

def hasOutstandingMsgs (conn : NccpConnection) : Bool := conn.messageCount ≠ 0

/-- What `cleanup` asks for. -/
def Deletable (conn : NccpConnection) : Prop := conn.finished = true ∧ conn.hasOutstandingMsgs = false

instance (conn : NccpConnection) : Decidable conn.Deletable := inferInstanceAs (Decidable (_ ∧ _))

end NccpConnection

/-- A thread of `nccp_connection_process_message_wrapper`. -/
inductive ProcessThread (C M : Type) where
  | received (conn : C)
  | created (conn : C) (msg : M)
  /-- `set_connection` is done -/
  | bound (msg : M)
  | ended
deriving DecidableEq, Repr

/-- `conn` has the connections that exist of those that were `made`, and `live` the messages that exist. `listed` is the
list of the listener, and `received` counts what the receive loops got. -/
structure Connections (C M : Type) where
  made : List C := []
  conn : C → Option NccpConnection := fun _ => none
  listed : List C := []
  live : List M := []
  nccpconn : M → Option C := fun _ => none
  threads : List (ProcessThread C M) := []
  received : C → ℕ := fun _ => 0

/-- A loop receives a message, and its thread can be started or not; `create` has the message that `create_message`
returns. Everything else in the daemon makes, binds and deletes messages, and closes and finishes connections. -/
inductive CountAct (C M : Type) where
  | connect (c : C) (listed : Bool)
  | receive (c : C) (spawned : Bool)
  | create (i : ℕ) (msg : Option M)
  | bind (i : ℕ)
  | handled (i : ℕ) (delete : Bool)
  | make (m : M)
  | setConnection (m : M) (c : Option C)
  | delete (m : M)
  | close (c : C)
  | setFinished (c : C)
  | loopEnds (c : C)
  | cleanup
deriving DecidableEq, Repr

namespace Connections

variable {C M : Type} [DecidableEq C] [DecidableEq M]

def modify (c : C) (f : NccpConnection → NccpConnection) (s : Connections C M) : Connections C M :=
  { s with conn := Function.update s.conn c ((s.conn c).map f) }

def modifyOpt (c : Option C) (f : NccpConnection → NccpConnection) (s : Connections C M) : Connections C M :=
  c.elim s fun c => s.modify c f

/-- `message::set_connection` -/
def setConnection (m : M) (c : Option C) (s : Connections C M) : Connections C M :=
  if s.nccpconn m = c then s
  else
    let s' := s.modifyOpt (s.nccpconn m) .decrementMsgCount
    modifyOpt c .incrementMsgCount { s' with nccpconn := Function.update s'.nccpconn m c }

/-- `message::~message` -/
def deleteMessage (m : M) (s : Connections C M) : Connections C M :=
  { s.modifyOpt (s.nccpconn m) .decrementMsgCount with live := s.live.erase m }

/-- `message::message` -/
def makeMessage (m : M) (s : Connections C M) : Connections C M :=
  { s with live := m :: s.live, nccpconn := Function.update s.nccpconn m none }

/-- `nccp_listener::cleanup` -/
def cleanup (s : Connections C M) : Connections C M :=
  let gone := s.listed.filter fun c => (s.conn c).any fun conn => conn.Deletable
  { s with
    conn := fun c => if c ∈ gone then none else s.conn c
    listed := s.listed.filter fun c => c ∉ gone }

/-- An object that is used exists; after the loop has looked at `closed` and `finished`, a message may still come. -/
def step (s : Connections C M) : CountAct C M → Option (Connections C M)
  | .connect c listed =>
    if c ∈ s.made then none
    else some { s with
      made := c :: s.made
      conn := Function.update s.conn c (some {})
      listed := if listed then s.listed ++ [c] else s.listed }
  | .receive c spawned =>
    if (s.conn c).isSome then
      some { s.modify c .incrementMsgCount with
        received := Function.update s.received c (s.received c + 1)
        threads := if spawned then s.threads ++ [.received c] else s.threads }
    else none
  | .create i msg =>
    match s.threads[i]?, msg with
    | some (.received _), none => some { s with threads := s.threads.set i .ended }
    | some (.received c), some m =>
      if m ∈ s.live then none else some { s.makeMessage m with threads := s.threads.set i (.created c m) }
    | _, _ => none
  | .bind i =>
    match s.threads[i]? with
    | some (.created c m) =>
      if m ∈ s.live ∧ (s.conn c).isSome then
        some { s.setConnection m (some c) with threads := s.threads.set i (.bound m) }
      else none
    | _ => none
  | .handled i delete =>
    match s.threads[i]? with
    | some (.bound m) =>
      if delete then
        if m ∈ s.live then some { s.deleteMessage m with threads := s.threads.set i .ended } else none
      else some { s with threads := s.threads.set i .ended }
    | _ => none
  | .make m => if m ∈ s.live then none else some (s.makeMessage m)
  | .setConnection m c =>
    if m ∈ s.live ∧ ∀ c' ∈ c, (s.conn c').isSome then some (s.setConnection m c) else none
  | .delete m => if m ∈ s.live then some (s.deleteMessage m) else none
  | .close c => if (s.conn c).isSome then some (s.modify c fun conn => { conn with closed := true }) else none
  | .setFinished c => if (s.conn c).isSome then some (s.modify c fun conn => { conn with finished := true }) else none
  | .loopEnds c =>
    match s.conn c with
    | none => none
    | some conn =>
      if conn.finished then some { s with conn := Function.update s.conn c none }
      else some (s.modify c fun conn => { conn with finished := true })
  | .cleanup => some s.cleanup

/-- The messages that refer to a connection. -/
def refs (s : Connections C M) (c : C) : ℕ := s.live.countP fun m => s.nccpconn m = some c

/-- The count is exact, so that clean-up deletes a finished connection when no message refers to it, and no other one. -/
structure Exact (s : Connections C M) : Prop where
  count : ∀ c conn, s.conn c = some conn → conn.messageCount = s.refs c
  deletable : ∀ c conn, s.conn c = some conn → (conn.Deletable ↔ conn.finished = true ∧ s.refs c = 0)

/-- The step is not that of a receive loop that got a message. -/
def NothingReceived (_ : Connections C M) (a : CountAct C M) (_ : Connections C M) : Prop :=
  ∀ c spawned, a ≠ .receive c spawned

/-! ### The invariant -/

structure Inv (s : Connections C M) : Prop where
  nodup : s.live.Nodup
  bound : ∀ m ∈ s.live, ∀ c, s.nccpconn m = some c → c ∈ s.made
  conn : ∀ c, (s.conn c).isSome → c ∈ s.made
  fresh : ∀ c, c ∉ s.made → s.received c = 0
  count : ∀ c conn, s.conn c = some conn → conn.messageCount = s.refs c + s.received c

variable {s t : Connections C M} {c : C} {o : Option C} {m : M} {f : NccpConnection → NccpConnection}

def countOf (s : Connections C M) (c : C) : Option ℤ := (s.conn c).map (·.messageCount)

/-- Whether a message refers to a connection. -/
def isRef (o : Option C) (c : C) : ℤ := if o = some c then 1 else 0

omit [DecidableEq M] in
theorem conn_modify (c : C) : (s.modify c f).conn = Function.update s.conn c ((s.conn c).map f) := rfl

omit [DecidableEq M] in
theorem countOf_modify (c c' : C) (d : ℤ) :
    (s.modify c' (.addCount d)).countOf c = (s.countOf c).map (· + d * isRef (some c') c) := by
  rw [countOf, countOf, conn_modify, isRef]
  by_cases hc : c = c'
  · subst hc
    rw [Function.update_self, if_pos rfl, Option.map_map, Option.map_map, Int.mul_one]
    rfl
  · have hne : ¬some c' = some c := fun h => hc (Option.some.inj h).symm
    have hadd : (fun k : ℤ => k + d * 0) = id := by
      funext k
      simp
    rw [Function.update_of_ne hc, if_neg hne, hadd, Option.map_id_fun, id]

omit [DecidableEq M] in
theorem countOf_modifyOpt (c : C) (o : Option C) (d : ℤ) :
    (s.modifyOpt o (.addCount d)).countOf c = (s.countOf c).map (· + d * isRef o c) := by
  cases o with
  | none => simp [modifyOpt, isRef]
  | some c' => exact countOf_modify c c' d

omit [DecidableEq M] in
theorem modifyOpt_eq (o : Option C) (f : NccpConnection → NccpConnection) :
    s.modifyOpt o f = { s with conn := (s.modifyOpt o f).conn } := by
  cases o <;> rfl

omit [DecidableEq M] in
theorem isSome_modify (c c' : C) : ((s.modify c' f).conn c).isSome = (s.conn c).isSome := by
  rw [conn_modify]
  by_cases hc : c = c'
  · subst hc
    rw [Function.update_self, Option.isSome_map]
  · rw [Function.update_of_ne hc]

omit [DecidableEq M] in
theorem isSome_modifyOpt (c : C) (o : Option C) : ((s.modifyOpt o f).conn c).isSome = (s.conn c).isSome := by
  cases o with
  | none => rfl
  | some c' => exact isSome_modify c c'

/-! ### Binding and deleting -/

/-- What `setConnection` changes besides counts. -/
theorem setConnection_eq (m : M) (o : Option C) (s : Connections C M) : s.setConnection m o =
    { s with nccpconn := Function.update s.nccpconn m o, conn := (s.setConnection m o).conn } := by
  unfold setConnection
  split
  · rename_i hsame
    rw [← hsame, Function.update_eq_self]
  · rw [modifyOpt_eq, modifyOpt_eq]

theorem countOf_setConnection (m : M) (o : Option C) (c : C) : (s.setConnection m o).countOf c =
    (s.countOf c).map (· + (isRef o c - isRef (s.nccpconn m) c)) := by
  unfold setConnection
  split
  · rename_i hsame
    rw [hsame, Int.sub_self]
    simp
  · have hfirst := @countOf_modifyOpt C M _ s c (s.nccpconn m) (-1)
    have hkept : ∀ g : M → Option C,
        countOf { s.modifyOpt (s.nccpconn m) .decrementMsgCount with nccpconn := g } c =
          (s.modifyOpt (s.nccpconn m) (.addCount (-1))).countOf c := fun _ => rfl
    rw [NccpConnection.incrementMsgCount, countOf_modifyOpt, hkept, hfirst, Option.map_map]
    congr 1
    funext k
    simp only [Function.comp_apply]
    omega

theorem isSome_setConnection (m : M) (o : Option C) (c : C) :
    ((s.setConnection m o).conn c).isSome = (s.conn c).isSome := by
  unfold setConnection
  split
  · rfl
  · rw [isSome_modifyOpt]
    exact isSome_modifyOpt ..

theorem refs_eq (hm : m ∈ s.live) (c : C) : (s.refs c : ℤ) =
    isRef (s.nccpconn m) c + (s.live.erase m).countP fun x => s.nccpconn x = some c := by
  rw [refs, (List.perm_cons_erase hm).countP_eq, List.countP_cons, isRef]
  simp only [decide_eq_true_eq]
  split <;> omega

theorem refs_setConnection (hm : m ∈ s.live) (hn : s.live.Nodup) (o : Option C) (c : C) :
    ((s.setConnection m o).refs c : ℤ) = s.refs c + (isRef o c - isRef (s.nccpconn m) c) := by
  have heq := setConnection_eq m o s
  have hlive : (s.setConnection m o).live = s.live := by rw [heq]
  have hself : (s.setConnection m o).nccpconn m = o := by rw [heq]; exact Function.update_self ..
  have hrest : ((s.live.erase m).countP fun x => (s.setConnection m o).nccpconn x = some c) =
      (s.live.erase m).countP fun x => s.nccpconn x = some c := by
    apply List.countP_congr
    intro x hx
    have hne : x ≠ m := ((List.Nodup.mem_erase_iff hn).1 hx).1
    have hother : (s.setConnection m o).nccpconn x = s.nccpconn x := by
      rw [heq]
      exact Function.update_of_ne hne ..
    rw [hother]
  rw [refs_eq (hlive ▸ hm) c, hself, hlive, hrest, refs_eq hm c]
  omega

theorem refs_deleteMessage (hm : m ∈ s.live) (c : C) :
    ((s.deleteMessage m).refs c : ℤ) = s.refs c - isRef (s.nccpconn m) c := by
  have hfield : (s.deleteMessage m).nccpconn = s.nccpconn := by
    unfold deleteMessage
    rw [modifyOpt_eq]
  have hlive : (s.deleteMessage m).live = s.live.erase m := rfl
  rw [refs_eq hm c, refs, hfield, hlive]
  omega

theorem refs_makeMessage (hm : m ∉ s.live) (c : C) : (s.makeMessage m).refs c = s.refs c := by
  have hnone : (s.makeMessage m).nccpconn m ≠ some c := by
    simp [makeMessage]
  have hlive : (s.makeMessage m).live = m :: s.live := rfl
  rw [refs, hlive, List.countP_cons, if_neg (by rwa [decide_eq_true_iff]), Nat.add_zero]
  apply List.countP_congr
  intro x hx
  have hne : x ≠ m := fun h => hm (h ▸ hx)
  have hother : (s.makeMessage m).nccpconn x = s.nccpconn x := Function.update_of_ne hne ..
  rw [hother]

/-! ### Steps -/

omit [DecidableEq M] in
/-- Counts change as the messages that refer to the connections do. -/
theorem Inv.change (h : Inv s) (hnodup : t.live.Nodup) (hmade : t.made = s.made) (hreceived : t.received = s.received)
    (hbound : ∀ m ∈ t.live, ∀ c, t.nccpconn m = some c → c ∈ s.made)
    (hconn : ∀ c, (t.conn c).isSome → (s.conn c).isSome)
    (hcount : ∀ c k, t.countOf c = some k → ∃ k₀, s.countOf c = some k₀ ∧ k - k₀ = (t.refs c : ℤ) - s.refs c) :
    Inv t where
  nodup := hnodup
  bound := by rwa [hmade]
  conn c hc := hmade ▸ h.conn c (hconn c hc)
  fresh c hc := by
    rw [hreceived]
    exact h.fresh c (hmade ▸ hc)
  count c conn hc := by
    obtain ⟨k₀, hk₀, hdiff⟩ := hcount c conn.messageCount (by rw [countOf, hc]; rfl)
    obtain ⟨conn₀, hconn₀, rfl⟩ := Option.map_eq_some_iff.1 hk₀
    have hbefore := h.count c conn₀ hconn₀
    rw [hreceived]
    omega

theorem Inv.setConnection (h : Inv s) (hm : m ∈ s.live) (ho : ∀ c ∈ o, (s.conn c).isSome) :
    Inv (s.setConnection m o) := by
  have heq := setConnection_eq m o s
  have hlive : (s.setConnection m o).live = s.live := by rw [heq]
  refine h.change (hlive ▸ h.nodup) (by rw [heq]) (by rw [heq]) ?_ ?_ ?_
  · intro x hx c hc
    rw [hlive] at hx
    have hupdate : Function.update s.nccpconn m o x = some c := by rwa [heq] at hc
    by_cases hxm : x = m
    · rw [hxm, Function.update_self] at hupdate
      exact h.conn c (ho c hupdate)
    · rw [Function.update_of_ne hxm] at hupdate
      exact h.bound x hx c hupdate
  · intro c hc
    rwa [isSome_setConnection] at hc
  · intro c k hk
    rw [countOf_setConnection, Option.map_eq_some_iff] at hk
    obtain ⟨k₀, hk₀, rfl⟩ := hk
    refine ⟨k₀, hk₀, ?_⟩
    rw [refs_setConnection hm h.nodup]
    omega

theorem Inv.deleteMessage (h : Inv s) (hm : m ∈ s.live) : Inv (s.deleteMessage m) := by
  have hfields : s.deleteMessage m = { s with live := s.live.erase m, conn := (s.deleteMessage m).conn } := by
    unfold Connections.deleteMessage
    rw [modifyOpt_eq]
  refine h.change (h.nodup.erase m) (by rw [hfields]) (by rw [hfields]) ?_ ?_ ?_
  · intro x hx c hc
    rw [hfields] at hc
    exact h.bound x (List.mem_of_mem_erase hx) c hc
  · intro c hc
    exact (isSome_modifyOpt c (s.nccpconn m)).symm ▸ hc
  · intro c k hk
    have hmod : (s.deleteMessage m).countOf c = (s.countOf c).map (· + -1 * isRef (s.nccpconn m) c) :=
      countOf_modifyOpt c _ (-1)
    rw [hmod, Option.map_eq_some_iff] at hk
    obtain ⟨k₀, hk₀, rfl⟩ := hk
    refine ⟨k₀, hk₀, ?_⟩
    rw [refs_deleteMessage hm]
    omega

theorem Inv.makeMessage (h : Inv s) (hm : m ∉ s.live) : Inv (s.makeMessage m) := by
  refine h.change (List.nodup_cons.2 ⟨hm, h.nodup⟩) rfl rfl ?_ (fun c hc => hc) ?_
  · intro x hx c hc
    have hxc : Function.update s.nccpconn m none x = some c := hc
    by_cases hxm : x = m
    · rw [hxm, Function.update_self] at hxc
      cases hxc
    · rw [Function.update_of_ne hxm] at hxc
      exact h.bound x ((List.mem_cons.1 hx).resolve_left hxm) c hxc
  · intro c k hk
    refine ⟨k, hk, ?_⟩
    rw [refs_makeMessage hm]
    omega

omit [DecidableEq M] in
/-- A connection is closed, finished or deleted. -/
theorem Inv.lose (h : Inv s) (ht : t = { s with conn := t.conn, listed := t.listed })
    (hcount : ∀ c k, t.countOf c = some k → s.countOf c = some k) : Inv t := by
  have hrefs : ∀ c, t.refs c = s.refs c := by
    intro c
    rw [ht]
    rfl
  refine h.change (by rw [ht]; exact h.nodup) (by rw [ht]) (by rw [ht]) (by rw [ht]; exact h.bound) ?_ ?_
  · intro c hc
    obtain ⟨conn, hconn⟩ := Option.isSome_iff_exists.1 hc
    have hk := hcount c conn.messageCount (by rw [countOf, hconn]; rfl)
    obtain ⟨conn₀, hconn₀, -⟩ := Option.map_eq_some_iff.1 hk
    rw [hconn₀]
    rfl
  · intro c k hk
    refine ⟨k, hcount c k hk, ?_⟩
    rw [hrefs]
    omega

omit [DecidableEq M] in
theorem Inv.connect (h : Inv s) (hc : c ∉ s.made) (listed : List C) :
    Inv { s with made := c :: s.made, conn := Function.update s.conn c (some {}), listed } := by
  have hrefs : s.refs c = 0 := by
    rw [refs, List.countP_eq_zero]
    intro x hx hr
    exact hc (h.bound x hx c (of_decide_eq_true hr))
  refine ⟨h.nodup, ?_, ?_, ?_, ?_⟩
  · intro x hx c' hx'
    exact List.mem_cons_of_mem _ (h.bound x hx c' hx')
  · intro c' hc'
    have hnew : (Function.update s.conn c (some {}) c').isSome := hc'
    by_cases heq : c' = c
    · exact heq ▸ List.mem_cons_self ..
    · rw [Function.update_of_ne heq] at hnew
      exact List.mem_cons_of_mem _ (h.conn c' hnew)
  · intro c' hc'
    exact h.fresh c' fun hin => hc' (List.mem_cons_of_mem _ hin)
  · intro c' conn hconn
    have hnew : Function.update s.conn c (some {}) c' = some conn := hconn
    by_cases heq : c' = c
    · rw [heq, Function.update_self] at hnew
      cases hnew
      show (0 : ℤ) = s.refs c' + s.received c'
      rw [heq, hrefs, h.fresh c hc]
      rfl
    · rw [Function.update_of_ne heq] at hnew
      exact h.count c' conn hnew

omit [DecidableEq M] in
theorem Inv.receive (h : Inv s) (hc : (s.conn c).isSome) (threads : List (ProcessThread C M)) :
    Inv { s.modify c .incrementMsgCount with
      received := Function.update s.received c (s.received c + 1), threads } := by
  have hmade := h.conn c hc
  refine ⟨h.nodup, h.bound, ?_, ?_, ?_⟩
  · intro c' hc'
    exact h.conn c' ((isSome_modify c' c).symm ▸ hc')
  · intro c' hc'
    have hne : c' ≠ c := fun heq => hc' (heq ▸ hmade)
    show Function.update s.received c _ c' = 0
    rw [Function.update_of_ne hne]
    exact h.fresh c' hc'
  · intro c' conn hconn
    show conn.messageCount = s.refs c' + (Function.update s.received c (s.received c + 1) c' : ℕ)
    have hconn' : Function.update s.conn c ((s.conn c).map .incrementMsgCount) c' = some conn := hconn
    by_cases heq : c' = c
    · rw [heq, Function.update_self, Option.map_eq_some_iff] at hconn'
      obtain ⟨conn₀, hconn₀, rfl⟩ := hconn'
      have hbefore := h.count c conn₀ hconn₀
      have hplus : conn₀.incrementMsgCount.messageCount = conn₀.messageCount + 1 := rfl
      rw [heq, Function.update_self, hplus, hbefore]
      push_cast
      omega
    · rw [Function.update_of_ne heq] at hconn' ⊢
      exact h.count c' conn hconn'

omit [DecidableEq M] in
/-- Threads and counts are apart. -/
theorem Inv.threads (h : Inv s) (threads : List (ProcessThread C M)) : Inv { s with threads } :=
  ⟨h.nodup, h.bound, h.conn, h.fresh, h.count⟩

/-- What a step does: besides connections and messages that come, it makes, binds or deletes a message, takes from the
connections, or only goes on with a thread. -/
inductive StepCase (s : Connections C M) : CountAct C M → Connections C M → Prop
  | connect (c : C) (l : Bool) (listed : List C) (hc : c ∉ s.made) :
    StepCase s (.connect c l) { s with made := c :: s.made, conn := Function.update s.conn c (some {}), listed }
  | receive (c : C) (spawned : Bool) (threads : List (ProcessThread C M)) (hc : (s.conn c).isSome) :
    StepCase s (.receive c spawned) { s.modify c .incrementMsgCount with
      received := Function.update s.received c (s.received c + 1), threads }
  | makes (a : CountAct C M) (m : M) (threads : List (ProcessThread C M)) (hm : m ∉ s.live) :
    StepCase s a { s.makeMessage m with threads }
  | binds (a : CountAct C M) (m : M) (o : Option C) (threads : List (ProcessThread C M)) (hm : m ∈ s.live)
    (ho : ∀ c ∈ o, (s.conn c).isSome) : StepCase s a { s.setConnection m o with threads }
  | deletes (a : CountAct C M) (m : M) (threads : List (ProcessThread C M)) (hm : m ∈ s.live) :
    StepCase s a { s.deleteMessage m with threads }
  | takes (a : CountAct C M) (t : Connections C M) (ht : t = { s with conn := t.conn, listed := t.listed })
    (hcount : ∀ c k, t.countOf c = some k → s.countOf c = some k) : StepCase s a t
  | goesOn (a : CountAct C M) (threads : List (ProcessThread C M)) : StepCase s a { s with threads }

omit [DecidableEq M] in
theorem countOf_modify_eq (hf : ∀ conn, (f conn).messageCount = conn.messageCount) (c' : C) (k : ℤ)
    (hk : (s.modify c f).countOf c' = some k) : s.countOf c' = some k := by
  rw [countOf, conn_modify] at hk
  by_cases hc : c' = c
  · rw [hc, Function.update_self, Option.map_map] at hk
    rw [hc, countOf, ← hk]
    congr 1
    funext conn
    exact (hf conn).symm
  · rwa [Function.update_of_ne hc] at hk

theorem step_cases {a : CountAct C M} (hs : s.step a = some t) : StepCase s a t := by
  cases a with
  | connect c listed =>
    simp only [step] at hs
    split at hs <;> cases hs
    exact .connect c listed _ ‹_›
  | receive c spawned =>
    simp only [step] at hs
    split at hs <;> cases hs
    exact .receive c spawned _ ‹_›
  | create i msg =>
    simp only [step] at hs
    split at hs
    · cases hs
      exact .goesOn ..
    · split at hs <;> cases hs
      exact .makes _ _ _ ‹_›
    · cases hs
  | bind i =>
    simp only [step] at hs
    split at hs
    · split at hs <;> cases hs
      rename_i hcond
      exact .binds _ _ _ _ hcond.1 fun c hc => Option.mem_some_iff.1 hc ▸ hcond.2
    · cases hs
  | handled i delete =>
    simp only [step] at hs
    split at hs
    · split at hs
      · split at hs <;> cases hs
        exact .deletes _ _ _ ‹_›
      · cases hs
        exact .goesOn ..
    · cases hs
  | make m =>
    simp only [step] at hs
    split at hs <;> cases hs
    exact .makes _ m s.threads ‹_›
  | setConnection m c =>
    simp only [step] at hs
    split at hs <;> cases hs
    rename_i hcond
    have hthreads : (s.setConnection m c).threads = s.threads := by rw [setConnection_eq]
    have hcase := StepCase.binds (.setConnection m c) m c s.threads hcond.1 hcond.2
    rwa [← hthreads] at hcase
  | delete m =>
    simp only [step] at hs
    split at hs <;> cases hs
    exact .deletes _ m _ ‹_›
  | close c =>
    simp only [step] at hs
    split at hs <;> cases hs
    exact .takes _ _ rfl (countOf_modify_eq fun _ => rfl)
  | setFinished c =>
    simp only [step] at hs
    split at hs <;> cases hs
    exact .takes _ _ rfl (countOf_modify_eq fun _ => rfl)
  | loopEnds c =>
    simp only [step] at hs
    split at hs
    · cases hs
    · split at hs
      · cases hs
        refine .takes _ _ rfl ?_
        intro c' k hk
        have hnew : (Function.update s.conn c none c').map (·.messageCount) = some k := hk
        by_cases heq : c' = c
        · rw [heq, Function.update_self] at hnew
          cases hnew
        · rwa [Function.update_of_ne heq] at hnew
      · cases hs
        exact .takes _ _ rfl (countOf_modify_eq fun _ => rfl)
  | cleanup =>
    cases hs
    refine .takes _ _ rfl ?_
    intro c k hk
    have hconn : s.cleanup.conn c =
        if c ∈ s.listed.filter (fun c => (s.conn c).any fun conn => conn.Deletable) then none else s.conn c := rfl
    rw [countOf, hconn] at hk
    split at hk
    · cases hk
    · exact hk

theorem Inv.step {a : CountAct C M} (h : Inv s) (hs : s.step a = some t) : Inv t := by
  cases step_cases hs with
  | connect c _ listed hc => exact h.connect hc listed
  | receive c _ threads hc => exact h.receive hc threads
  | makes _ m threads hm => exact (h.makeMessage hm).threads threads
  | binds _ m o threads hm ho => exact (h.setConnection hm ho).threads threads
  | deletes _ m threads hm => exact (h.deleteMessage hm).threads threads
  | takes _ _ ht hcount => exact h.lose ht hcount
  | goesOn _ threads => exact h.threads threads

/-! ### Runs -/

/-- `c.step` as a relation. -/
abbrev Steps (s : Connections C M) (a : CountAct C M) (t : Connections C M) : Prop := s.step a = some t

omit [DecidableEq M] in
theorem inv_empty : Inv ({} : Connections C M) where
  nodup := List.nodup_nil
  bound _ hm := nomatch hm
  conn _ hc := nomatch hc
  fresh _ _ := rfl
  count _ _ hc := nomatch hc

variable {tr : List (CountAct C M × Connections C M)}

theorem everyState_inv (hr : IsRun Steps {} tr) : EveryState Inv {} tr :=
  hr.invariant (fun _ _ _ h hs => h.step hs) inv_empty

/-- What the count is: each message that came is counted for ever. -/
theorem count_eq (hr : IsRun Steps {} tr) :
    EveryState (fun s : Connections C M =>
      ∀ c conn, s.conn c = some conn → conn.messageCount = s.refs c + s.received c) {} tr :=
  (everyState_inv hr).mono fun _ h => h.count

/-- Clean-up never deletes a connection that a message refers to. -/
theorem cleanup_safe (hr : IsRun Steps {} tr) :
    EveryState (fun s : Connections C M =>
      ∀ c conn, s.conn c = some conn → conn.Deletable → s.refs c = 0 ∧ s.received c = 0) {} tr := by
  apply (count_eq hr).mono
  intro s hcount c conn hconn hdel
  have hzero : conn.messageCount = 0 := by simpa [NccpConnection.hasOutstandingMsgs] using hdel.2
  have heq := hcount c conn hconn
  omega

omit [DecidableEq M] in
theorem Inv.exact (h : Inv s) (hnone : ∀ c, s.received c = 0) : Exact s := by
  have hcount : ∀ c conn, s.conn c = some conn → conn.messageCount = s.refs c := by
    intro c conn hconn
    rw [h.count c conn hconn, hnone]
    exact Int.add_zero _
  refine ⟨hcount, ?_⟩
  intro c conn hconn
  rw [NccpConnection.Deletable, NccpConnection.hasOutstandingMsgs, hcount c conn hconn]
  simp

/-- Only the receive loop changes what was received. -/
theorem received_step {a : CountAct C M} (hs : s.step a = some t) (ha : NothingReceived s a t) :
    t.received = s.received := by
  cases step_cases hs with
  | receive c spawned => exact absurd rfl (ha c spawned)
  | binds _ m o =>
    show (s.setConnection m o).received = s.received
    rw [setConnection_eq]
  | deletes _ m =>
    show (s.modifyOpt (s.nccpconn m) .decrementMsgCount).received = s.received
    rw [modifyOpt_eq]
  | takes _ _ ht => rw [ht]
  | connect | makes | goesOn => rfl

/-- A message that comes is counted before it is made. -/
theorem not_exact_receive {spawned : Bool} (h : Inv s) (hs : s.step (.receive c spawned) = some t) : ¬Exact t := by
  intro hexact
  have ht : Inv t := h.step hs
  simp only [step] at hs
  split at hs
  · rename_i hc
    obtain ⟨conn, hconn⟩ := Option.isSome_iff_exists.1 hc
    have hnew : (s.modify c .incrementMsgCount).conn c = some conn.incrementMsgCount := by
      rw [conn_modify, Function.update_self, hconn]
      rfl
    have hone : t.received c = s.received c + 1 := by
      cases hs
      exact Function.update_self ..
    have hthere : t.conn c = some conn.incrementMsgCount := by
      cases hs
      exact hnew
    have hcount := ht.count c _ hthere
    have hrefs := hexact.count c _ hthere
    omega
  · cases hs

/-- The counts are exact in every state of the runs in which no message is received, and in those only. -/
theorem exact_iff_nothingReceived (hr : IsRun Steps {} tr) :
    EveryState Exact {} tr ↔ EveryStep NothingReceived {} tr := by
  refine hr.everyState_iff (P := fun s => Inv s ∧ ∀ c, s.received c = 0) ?_ ?_ ?_ ⟨inv_empty, fun _ => rfl⟩
  · rintro s a t ⟨h, hnone⟩ hs ha
    refine ⟨h.step hs, ?_⟩
    rwa [received_step hs ha]
  · rintro s a t ⟨h, -⟩ hs hexact c spawned rfl
    exact not_exact_receive h hs hexact
  · rintro s ⟨h, hnone⟩
    exact h.exact hnone

/-- A request of the daemon's own, from its making to its deletion. -/
def ownRequest : List (CountAct ℕ ℕ) :=
  [.connect 0 true, .make 0, .setConnection 0 (some 0), .setFinished 0, .delete 0, .cleanup]

theorem ownRequest_exact : EveryState Exact ({} : Connections ℕ ℕ) (runOf step {} ownRequest) := by
  refine (exact_iff_nothingReceived (isRun_runOf ..)).2 ?_
  refine ⟨?_, ?_, ?_, ?_, ?_, ?_, trivial⟩ <;> exact fun c spawned h => nomatch h

/-- The connection of this request is deleted when nothing refers to it. -/
theorem ownRequest_safe : EveryState (fun s : Connections ℕ ℕ =>
    ∀ c conn, s.conn c = some conn → conn.Deletable → s.refs c = 0 ∧ s.received c = 0) {} (runOf step {} ownRequest) :=
  cleanup_safe (isRun_runOf ..)

/-- One request that is received, bound, answered and deleted. -/
def oneReceived : List (CountAct ℕ ℕ) :=
  [.connect 0 true, .receive 0 true, .create 0 (some 0), .bind 0, .handled 0 true, .setFinished 0, .cleanup]

theorem oneReceived_stays :
    let s := lastState ({} : Connections ℕ ℕ) (runOf step {} oneReceived)
    s.live = [] ∧ s.conn 0 = some ⟨false, true, 1⟩ ∧ s.listed = [0] := by
  decide

theorem oneReceived_not_exact : ¬EveryState Exact ({} : Connections ℕ ℕ) (runOf step {} oneReceived) := by
  intro hexact
  have hlast := hexact.last.count 0 ⟨false, true, 1⟩ oneReceived_stays.2.1
  have hrefs : (lastState ({} : Connections ℕ ℕ) (runOf step {} oneReceived)).refs 0 = 0 := by
    rw [refs, oneReceived_stays.1]
    rfl
  rw [hrefs] at hlast
  cases hlast

end Connections

end OnlDaemons.Shared

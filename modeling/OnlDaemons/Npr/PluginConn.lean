import Mathlib.Logic.Function.Basic
import OnlDaemons.Lib.Framing
import OnlDaemons.Lib.Run

/-!
# The messages of the plugins

Each of the five plugins puts its messages on a ring of words: a header, which counts the words after it, and these words.
The main thread looks for a header and starts a thread for it, which takes the other words from the ring, makes a message
of them and gives it to a handler. Both hold a lock while they are at the rings, and until the message is made no other
header is looked for.

## Main definitions

- `control` — the frames on a ring
- `PluginConn`, `PluginConn.step` — the reader, its threads and the rings
- `PluginConn.Exact` — the handlers get the messages with a valid type, and the reader is ready when no thread is at work
- `PluginConn.Careful` — the steps that keep it so

## Main result

- `exact_of_valid`
-/

namespace OnlDaemons.Npr
open OnlDaemons.Lib

/-! ### The messages -/

def PMAXTYPE : ℕ := 23

/-- `plugin_control_header` on a machine that has the first bit field in the highest bits. -/
def headerType (v : UInt32) : ℕ := ((v >>> 24) &&& 0x7f).toNat

def numWords (v : UInt32) : ℕ := ((v >>> 16) &&& 0xff).toNat

def control : Framing UInt32 where
  headLen := 1
  bodyLen l := numWords (l.headD 0)
  pos := Nat.one_pos

/-- What a plugin puts on its ring. A zero on a ring is no header. -/
structure ControlMessage where
  words : List UInt32
  frame : control.IsFrame words
  header_ne : words.headD 0 ≠ 0
deriving DecidableEq

def ValidType (words : List UInt32) : Prop := headerType (words.headD 0) ≤ PMAXTYPE

instance (words : List UInt32) : Decidable (ValidType words) := inferInstanceAs (Decidable (_ ≤ _))

/-- The `switch` of `handle_task`. -/
inductive PluginHandler
  | passResultToRli
  | pluginDebugMsg
  | unknown
deriving DecidableEq, Repr

def handlerOf (words : List UInt32) : PluginHandler :=
  match headerType (words.headD 0) with
  | 1 => .passResultToRli
  | 2 => .pluginDebugMsg
  | _ => .unknown

structure Delivery where
  handler : PluginHandler
  plugin : Fin 5
  words : List UInt32
deriving DecidableEq, Repr

def Delivery.of (p : Fin 5) (words : List UInt32) : Delivery := ⟨handlerOf words,p,words⟩

/-! ### The reader -/

/-- `written` are the messages of a plugin, and `coming` their words that are not on the ring yet. `polling` is the ring
that `check` is at, and `started` counts the threads that have not got the lock. `reading` are the words a thread has got
under the lock, and `held` the messages that the threads have not given to a handler. -/
structure PluginConn where
  ring : Fin 5 → List UInt32 := fun _ => []
  coming : Fin 5 → List UInt32 := fun _ => []
  written : Fin 5 → List (List UInt32) := fun _ => []
  msgReady : Bool := false
  plugin : Option (Fin 5) := none
  hdr : UInt32 := 0
  polling : Option (Fin 5) := none
  started : ℕ := 0
  reading : Option (List UInt32) := none
  held : List (Fin 5 × List UInt32) := []
  handled : List Delivery := []

/-- A plugin has a message to write, and puts a word of it on the ring. `check` goes from ring to ring; `readmsg` takes
the lock, takes a word and makes the message; a thread calls the handler. -/
inductive PluginAct
  | write (p : Fin 5) (m : ControlMessage)
  | put (p : Fin 5)
  | check
  | poll
  | readmsg
  | word
  | construct
  | handle (i : ℕ)
deriving DecidableEq

namespace PluginConn

def init : PluginConn := {}

/-- `read_lock` -/
def Locked (s : PluginConn) : Prop := s.polling.isSome ∨ s.reading.isSome

instance (s : PluginConn) : Decidable s.Locked := inferInstanceAs (Decidable (_ ∨ _))

/-- `SRAM_RING_GET` gives a zero when there is nothing on the ring. -/
def ringGet (s : PluginConn) (p : Fin 5) : UInt32 × PluginConn :=
  ((s.ring p).headD 0,{ s with ring := Function.update s.ring p (s.ring p).tail })

/-- The words a header counts are on the ring when it is seen. -/
def Whole (s : PluginConn) (p : Fin 5) : Prop := ∀ v ∈ (s.ring p).head?, numWords v < (s.ring p).length

instance (s : PluginConn) (p : Fin 5) : Decidable (s.Whole p) := Option.decidableForallMem _

def nextRing (p : Fin 5) : Option (Fin 5) := if h : p.val + 1 < 5 then some ⟨p.val + 1,h⟩ else none

def step (s : PluginConn) : PluginAct → Option PluginConn
  | .write p m => some { s with
      written := Function.update s.written p (s.written p ++ [m.words])
      coming := Function.update s.coming p (s.coming p ++ m.words) }
  | .put p =>
    match s.coming p with
    | [] => none
    | w :: ws => some { s with
        ring := Function.update s.ring p (s.ring p ++ [w])
        coming := Function.update s.coming p ws }
  | .check =>
    if s.Locked then none
    else if s.msgReady then some s
    else some { s with polling := some 0 }
  | .poll =>
    match s.polling with
    | none => none
    | some p =>
      if s.Whole p then
        let (val,t) := s.ringGet p
        if val ≠ 0 then some { t with
          polling := none, msgReady := true, plugin := some p, hdr := val, started := s.started + 1 }
        else some { t with polling := nextRing p }
      else none
  | .readmsg =>
    if s.Locked ∨ s.started = 0 then none
    else match s.plugin with
      -- "system error"
      | none => some { s with started := s.started - 1, hdr := 0, msgReady := false }
      | some _ => some { s with started := s.started - 1, reading := some [s.hdr] }
  | .word =>
    match s.reading,s.plugin with
    | some bytes,some p =>
      if bytes.length ≤ numWords s.hdr then
        let (val,t) := s.ringGet p
        some { t with reading := some (bytes ++ [val]) }
      else none
    | _,_ => none
  | .construct =>
    match s.reading,s.plugin with
    | some bytes,some p =>
      if bytes.length ≤ numWords s.hdr then none
      -- "type is invalid!"
      else if PMAXTYPE < headerType (bytes.headD 0) then some { s with reading := none }
      else some { s with
        reading := none, plugin := none, hdr := 0, msgReady := false, held := s.held ++ [(p,bytes)] }
    | _,_ => none
  | .handle i =>
    match s.held[i]? with
    | none => none
    | some (p,words) => some { s with held := s.held.eraseIdx i, handled := s.handled ++ [Delivery.of p words] }

/-! ### What should hold -/

def handledOf (s : PluginConn) (p : Fin 5) : List Delivery := s.handled.filter (·.plugin = p)

/-- What the handlers should get from a plugin. -/
def due (s : PluginConn) (p : Fin 5) : List Delivery :=
  ((s.written p).filter fun words => ValidType words).map (Delivery.of p)

/-- Nothing of the plugin is on the ring or with a thread. -/
def Finished (s : PluginConn) (p : Fin 5) : Prop :=
  s.ring p = [] ∧ s.coming p = [] ∧ s.plugin ≠ some p ∧ ∀ m ∈ s.held, m.1 ≠ p

structure Exact (s : PluginConn) : Prop where
  delivered : ∀ p, s.handledOf p <+: s.due p
  complete : ∀ p, s.Finished p → s.handledOf p = s.due p
  ready : s.started = 0 → s.reading = none → s.msgReady = false

/-- The message that is made has a valid type, and a message is given to its handler after those before it on its
ring. -/
def Careful (s : PluginConn) (a : PluginAct) (_ : PluginConn) : Prop :=
  match a with
  | .construct => ∀ bytes ∈ s.reading, ValidType bytes
  | .handle i => ∀ m ∈ s.held[i]?, ∀ n ∈ s.held.take i, n.1 ≠ m.1
  | _ => True

instance (s : PluginConn) (a : PluginAct) (u : PluginConn) : Decidable (Careful s a u) :=
  match a with
  | .construct => inferInstanceAs (Decidable (∀ bytes ∈ s.reading, ValidType bytes))
  | .handle i => inferInstanceAs (Decidable (∀ m ∈ s.held[i]?, ∀ n ∈ s.held.take i, n.1 ≠ m.1))
  | .write _ _ | .put _ | .check | .poll | .readmsg | .word => .isTrue trivial

/-! ### One step -/

def heldOf (s : PluginConn) (p : Fin 5) : List (List UInt32) := (s.held.filter (·.1 = p)).map Prod.snd

/-- The messages that threads have got from a ring. -/
def takenOf (s : PluginConn) (p : Fin 5) : List (List UInt32) := (s.handledOf p).map Delivery.words ++ s.heldOf p

/-- The words of the message that is taken from the ring. -/
def part (s : PluginConn) (p : Fin 5) : List UInt32 := if s.plugin = some p then s.reading.getD [s.hdr] else []

/-- There is no header. -/
def Quiet (s : PluginConn) : Prop := s.msgReady = false ∧ s.plugin = none ∧ s.started = 0 ∧ s.reading = none

/-- There is a header and one thread for it, and the words the header counts have been taken or are on the ring. -/
def Busy (s : PluginConn) (p : Fin 5) : Prop :=
  s.polling = none ∧ s.msgReady = true ∧ s.plugin = some p ∧
    (s.started = 1 ∧ s.reading = none ∨ s.started = 0 ∧ s.reading.isSome) ∧
    (s.part p).head? = some s.hdr ∧ (s.part p).length ≤ numWords s.hdr + 1 ∧
    numWords s.hdr + 1 ≤ (s.part p).length + (s.ring p).length

structure Inv (s : PluginConn) : Prop where
  received : ∀ p, control.Received (s.written p) (s.takenOf p) (s.part p) (s.ring p ++ s.coming p)
  headers : ∀ p, ∀ f ∈ s.written p, f.headD 0 ≠ 0
  handled : ∀ d ∈ s.handled, d = Delivery.of d.plugin d.words ∧ ValidType d.words
  held : ∀ m ∈ s.held, ValidType m.2
  progress : s.Quiet ∨ ∃ p, s.Busy p

variable {s u : PluginConn} {p q : Fin 5}

theorem inv_init : init.Inv where
  received _ := Framing.received_nil
  headers _ := nofun
  handled := nofun
  held := nofun
  progress := .inl ⟨rfl,rfl,rfl,rfl⟩

theorem Inv.write {m : ControlMessage} (h : s.Inv) : Inv { s with
    written := Function.update s.written p (s.written p ++ [m.words])
    coming := Function.update s.coming p (s.coming p ++ m.words) } where
  received q := by
    show control.Received (Function.update s.written p _ q) (s.takenOf q) (s.part q)
      (s.ring q ++ Function.update s.coming p _ q)
    by_cases hq : q = p
    · subst hq
      rw [Function.update_self,Function.update_self,← List.append_assoc]
      exact (h.received q).put m.frame
    · rw [Function.update_of_ne hq,Function.update_of_ne hq]
      exact h.received q
  headers q f hf := by
    by_cases hq : q = p
    · subst hq
      simp only [Function.update_self,List.mem_append,List.mem_singleton] at hf
      rcases hf with hf | rfl
      · exact h.headers q f hf
      · exact m.header_ne
    · simp only [Function.update_of_ne hq] at hf
      exact h.headers q f hf
  handled := h.handled
  held := h.held
  progress := h.progress

/-- A word goes from the plugin to the end of its ring. -/
theorem Inv.put {w : UInt32} {ws : List UInt32} (h : s.Inv) (hcoming : s.coming p = w :: ws) : Inv { s with
    ring := Function.update s.ring p (s.ring p ++ [w])
    coming := Function.update s.coming p ws } where
  received q := by
    show control.Received (s.written q) (s.takenOf q) (s.part q)
      (Function.update s.ring p _ q ++ Function.update s.coming p _ q)
    by_cases hq : q = p
    · subst hq
      have hall := h.received q
      rw [hcoming] at hall
      rwa [Function.update_self,Function.update_self,List.append_assoc,List.singleton_append]
    · rw [Function.update_of_ne hq,Function.update_of_ne hq]
      exact h.received q
  headers := h.headers
  handled := h.handled
  held := h.held
  progress := by
    rcases h.progress with hquiet | ⟨q,hpolling,hready,hplugin,hthread,hhead,hle,hwords⟩
    · exact .inl hquiet
    · refine .inr ⟨q,hpolling,hready,hplugin,hthread,hhead,hle,?_⟩
      have hmore : (s.ring q).length ≤ (Function.update s.ring p (s.ring p ++ [w]) q).length := by
        by_cases hq : q = p
        · subst hq
          simp
        · rw [Function.update_of_ne hq]
      exact hwords.trans (Nat.add_le_add_left hmore _)

theorem Inv.check (h : s.Inv) (hready : s.msgReady = false) : Inv { s with polling := some 0 } where
  received := h.received
  headers := h.headers
  handled := h.handled
  held := h.held
  progress := by
    rcases h.progress with hquiet | ⟨q,-,hbusy,-⟩
    · exact .inl hquiet
    · rw [hready] at hbusy
      cases hbusy

/-- The first word on a ring that nothing is taken from is a header. -/
theorem Inv.header_ne {v : UInt32} {vs : List UInt32} (h : s.Inv) (hplugin : s.plugin = none)
    (hring : s.ring p = v :: vs) : v ≠ 0 := by
  have hall := h.received p
  rw [part,if_neg (by simp [hplugin]),hring,List.cons_append] at hall
  obtain ⟨f,hf,hv⟩ := hall.exists_head
  have hne := h.headers p f hf
  rwa [List.headD_eq_head?_getD,hv] at hne

/-- `check` has got a header. -/
theorem Inv.header {v : UInt32} {vs : List UInt32} (h : s.Inv) (hquiet : s.Quiet) (hring : s.ring p = v :: vs)
    (hwords : numWords v ≤ vs.length) : Inv { s with
      ring := Function.update s.ring p vs, polling := none, msgReady := true, plugin := some p, hdr := v,
      started := s.started + 1 } where
  received q := by
    have hall := h.received q
    rw [part,if_neg (by simp [hquiet.2.1])] at hall
    show control.Received (s.written q) (s.takenOf q) (if some p = some q then s.reading.getD [v] else [])
      (Function.update s.ring p _ q ++ s.coming q)
    rw [hquiet.2.2.2,Option.getD_none]
    by_cases hq : q = p
    · subst hq
      rw [if_pos rfl,Function.update_self]
      rw [hring] at hall
      exact hall.take rfl
    · rw [if_neg (by simpa using Ne.symm hq),Function.update_of_ne hq]
      exact hall
  headers := h.headers
  handled := h.handled
  held := h.held
  progress := by
    obtain ⟨-,-,hstarted,hreading⟩ := hquiet
    refine .inr ⟨p,rfl,rfl,rfl,.inl ⟨by simp [hstarted],hreading⟩,?_,?_,?_⟩
    · simp [part,hreading]
    · simp [part,hreading]
    · simp only [part,hreading,if_true,Option.getD_none,List.length_singleton,Function.update_self]
      omega

theorem Inv.poll (h : s.Inv) (hu : s.step .poll = some u) : u.Inv := by
  simp only [step] at hu
  cases hpolling : s.polling with
  | none => simp [hpolling] at hu
  | some p =>
    have hquiet : s.Quiet := by
      rcases h.progress with hquiet | ⟨q,hnone,-⟩
      · exact hquiet
      · simp [hpolling] at hnone
    rw [hpolling] at hu
    dsimp only at hu
    split at hu
    case isFalse => cases hu
    case isTrue hwhole =>
      cases hring : s.ring p with
      | nil =>
        rw [ringGet,hring] at hu
        have hsame : Function.update s.ring p ([] : List UInt32) = s.ring := by
          rw [← hring,Function.update_eq_self]
        simp only [List.headD_nil,ne_eq,not_true_eq_false,if_false,List.tail_nil,hsame,Option.some.injEq] at hu
        subst hu
        exact ⟨h.received,h.headers,h.handled,h.held,.inl hquiet⟩
      | cons v vs =>
        have hne := h.header_ne hquiet.2.1 hring
        rw [ringGet,hring] at hu
        simp only [List.headD_cons,ne_eq,hne,not_false_eq_true,if_true,List.tail_cons,Option.some.injEq] at hu
        subst hu
        have hlt := hwhole v (by rw [hring]; rfl)
        rw [hring,List.length_cons] at hlt
        exact h.header hquiet hring (Nat.le_of_lt_succ hlt)

/-- The thread of a header gets the lock. -/
theorem Inv.readmsg (h : s.Inv) (hu : s.step .readmsg = some u) : u.Inv := by
  simp only [step] at hu
  split at hu
  case isTrue => cases hu
  case isFalse hfree =>
    rw [not_or] at hfree
    rcases h.progress with hquiet | ⟨p,hpolling,hready,hplugin,hthread,hhead,hle,hwords⟩
    · exact absurd hquiet.2.2.1 hfree.2
    rcases hthread with ⟨hstarted,hreading⟩ | ⟨hstarted,-⟩
    · rw [hplugin] at hu
      cases hu
      have hpart : ∀ q, part { s with started := s.started - 1, reading := some [s.hdr] } q = s.part q := by
        intro q
        simp only [part,hreading,Option.getD_some,Option.getD_none]
      refine ⟨fun q => ?_,h.headers,h.handled,h.held,.inr ⟨p,hpolling,hready,rfl,.inr ⟨?_,rfl⟩,?_,?_,?_⟩⟩
      · have hall := h.received q
        rw [← hpart,hplugin] at hall
        exact hall
      · simp [hstarted]
      · rw [← hpart,hplugin] at hhead
        exact hhead
      · rw [← hpart,hplugin] at hle
        exact hle
      · rw [← hpart,hplugin] at hwords
        exact hwords
    · exact absurd hstarted hfree.2

/-- A word of the message is taken from its ring. -/
theorem Inv.word (h : s.Inv) (hu : s.step .word = some u) : u.Inv := by
  simp only [step] at hu
  split at hu
  case h_2 => cases hu
  case h_1 bytes p hreading hplugin =>
    split at hu
    case isFalse => cases hu
    case isTrue hmore =>
      have hbytes : s.part p = bytes := by simp [part,hplugin,hreading]
      rcases h.progress with hquiet | ⟨p',hpolling,hready,hplugin',hthread,hhead,hle,hwords⟩
      · simp [hquiet.2.1] at hplugin
      obtain rfl : p = p' := by simpa [hplugin] using hplugin'
      rw [hbytes] at hhead hle hwords
      cases hring : s.ring p with
      | nil =>
        rw [hring,List.length_nil] at hwords
        omega
      | cons w ws =>
        rw [hring,List.length_cons] at hwords
        rw [ringGet,hring] at hu
        cases hu
        have hstarted : s.started = 0 := by
          rcases hthread with ⟨-,hnone⟩ | ⟨hstarted,-⟩
          · simp [hnone] at hreading
          · exact hstarted
        constructor
        case received =>
          intro q
          have hall := h.received q
          show control.Received (s.written q) (s.takenOf q) (if s.plugin = some q then bytes ++ [w] else [])
            (Function.update s.ring p ws q ++ s.coming q)
          by_cases hq : q = p
          · subst hq
            rw [hbytes,hring] at hall
            rw [if_pos hplugin,Function.update_self]
            exact hall.take (by simp)
          · have hother : ¬s.plugin = some q := by
              rw [hplugin]
              simpa using Ne.symm hq
            rw [part,if_neg hother] at hall
            rwa [if_neg hother,Function.update_of_ne hq]
        case headers => exact h.headers
        case handled => exact h.handled
        case held => exact h.held
        case progress =>
          have hpart : part { s with ring := Function.update s.ring p ws, reading := some (bytes ++ [w]) } p =
              bytes ++ [w] := if_pos hplugin
          refine .inr ⟨p,hpolling,hready,hplugin,.inr ⟨hstarted,rfl⟩,?_,?_,?_⟩
          · refine (congrArg List.head? hpart).trans ?_
            rw [List.head?_append,hhead]
            rfl
          · refine (congrArg List.length hpart).trans_le ?_
            rw [List.length_append,List.length_singleton]
            exact Nat.succ_le_succ hmore
          · refine le_of_le_of_eq hwords ?_
            show _ = (if s.plugin = some p then bytes ++ [w] else []).length + (Function.update s.ring p ws p).length
            rw [if_pos hplugin,Function.update_self,List.length_append,List.length_singleton]
            omega

/-- The words are those of one message, which the threads hold now. -/
theorem Inv.construct (h : s.Inv) (hvalid : ∀ bytes ∈ s.reading, ValidType bytes) (hu : s.step .construct = some u) :
    u.Inv := by
  simp only [step] at hu
  split at hu
  case h_2 => cases hu
  case h_1 bytes p hreading hplugin =>
    have htype : ValidType bytes := hvalid bytes hreading
    split at hu
    case isTrue => cases hu
    case isFalse hall =>
      rw [if_neg (Nat.not_lt.2 htype)] at hu
      cases hu
      have hbytes : s.part p = bytes := by simp [part,hplugin,hreading]
      rcases h.progress with hquiet | ⟨p',hpolling,hready,hplugin',hthread,hhead,hle,hwords⟩
      · simp [hquiet.2.1] at hplugin
      obtain rfl : p = p' := by simpa [hplugin] using hplugin'
      rw [hbytes] at hhead hle
      have hstarted : s.started = 0 := by
        rcases hthread with ⟨-,hnone⟩ | ⟨hstarted,-⟩
        · simp [hnone] at hreading
        · exact hstarted
      have hframe : control.IsFrame bytes := by
        cases bytes with
        | nil => cases hhead
        | cons b bs =>
          cases hhead
          show (s.hdr :: bs).length = 1 + numWords s.hdr
          omega
      constructor
      case received =>
        intro q
        have htaken : takenOf { s with
            reading := none, plugin := none, hdr := 0, msgReady := false, held := s.held ++ [(p,bytes)] } q =
            s.takenOf q ++ if p = q then [bytes] else [] := by
          simp only [takenOf,heldOf,handledOf,List.filter_append,List.map_append,List.append_assoc]
          congr 2
          by_cases hq : p = q <;> simp [hq]
        have hreceived := h.received q
        rw [htaken]
        by_cases hq : p = q
        · subst hq
          rw [hbytes] at hreceived
          rw [if_pos rfl]
          exact hreceived.deliver hframe rfl
        · rw [if_neg hq,List.append_nil]
          rw [part,if_neg (by simpa [hplugin] using hq)] at hreceived
          exact hreceived
      case headers => exact h.headers
      case handled => exact h.handled
      case held =>
        intro m hm
        rcases List.mem_append.1 hm with hm | hm
        · exact h.held m hm
        · rw [List.mem_singleton] at hm
          rw [hm]
          exact htype
      case progress => exact .inl ⟨rfl,rfl,hstarted,rfl⟩

theorem handledOf_map (h : ∀ d ∈ s.handled, d = Delivery.of d.plugin d.words ∧ ValidType d.words) (p : Fin 5) :
    ((s.handledOf p).map Delivery.words).map (Delivery.of p) = s.handledOf p := by
  rw [List.map_map]
  apply List.map_congr_left (g := id) (fun d hd => ?_) |>.trans (List.map_id _)
  rw [handledOf,List.mem_filter,decide_eq_true_iff] at hd
  rw [Function.comp_apply,← hd.2]
  exact (h d hd.1).1.symm

/-- The oldest message of a ring is given to its handler. -/
theorem Inv.handle {i : ℕ} (h : s.Inv) (hfirst : ∀ m ∈ s.held[i]?, ∀ n ∈ s.held.take i, n.1 ≠ m.1)
    (hu : s.step (.handle i) = some u) : u.Inv := by
  simp only [step] at hu
  split at hu
  case h_1 => cases hu
  case h_2 p words hi =>
    cases hu
    have hsplit : s.held = s.held.take i ++ (p,words) :: s.held.drop (i + 1) := by
      obtain ⟨hlt,hget⟩ := List.getElem?_eq_some_iff.1 hi
      rw [← hget,List.cons_getElem_drop_succ,List.take_append_drop]
    have hbefore : (s.held.take i).filter (·.1 = p) = [] := by
      rw [List.filter_eq_nil_iff]
      intro n hn
      simpa using hfirst (p,words) hi n hn
    constructor
    case received =>
      intro q
      have htaken : takenOf { s with held := s.held.eraseIdx i, handled := s.handled ++ [Delivery.of p words] } q =
          s.takenOf q := by
        simp only [takenOf,handledOf,heldOf,List.filter_append,List.map_append,List.append_assoc]
        rw [List.eraseIdx_eq_take_drop_succ]
        conv_rhs => rw [hsplit]
        simp only [List.filter_append,List.map_append]
        by_cases hq : p = q
        · subst hq
          simp [hbefore,Delivery.of]
        · simp [hq,Delivery.of]
      rw [htaken]
      exact h.received q
    case headers => exact h.headers
    case handled =>
      intro d hd
      rcases List.mem_append.1 hd with hd | hd
      · exact h.handled d hd
      · rw [List.mem_singleton] at hd
        subst hd
        exact ⟨rfl,h.held (p,words) (List.mem_of_getElem? hi)⟩
    case held =>
      intro m hm
      exact h.held m (List.mem_of_mem_eraseIdx hm)
    case progress => exact h.progress

theorem Inv.step {a : PluginAct} (h : s.Inv) (hu : s.step a = some u) (hc : Careful s a u) : u.Inv := by
  cases a with
  | write p m =>
    cases hu
    exact h.write
  | put p =>
    simp only [PluginConn.step] at hu
    split at hu
    · cases hu
    · cases hu
      exact h.put ‹_›
  | check =>
    simp only [PluginConn.step] at hu
    split at hu
    · cases hu
    split at hu
    · cases hu
      exact h
    · cases hu
      exact h.check (by simpa using ‹¬s.msgReady = true›)
  | poll => exact h.poll hu
  | readmsg => exact h.readmsg hu
  | word => exact h.word hu
  | construct => exact h.construct hc hu
  | handle i => exact h.handle hc hu

theorem Inv.filter_handledOf (h : s.Inv) (p : Fin 5) :
    ((s.handledOf p).map Delivery.words).filter (fun words => ValidType words) = (s.handledOf p).map Delivery.words := by
  rw [List.filter_eq_self]
  intro words hwords
  obtain ⟨d,hd,rfl⟩ := List.mem_map.1 hwords
  simpa using (h.handled d (List.mem_of_mem_filter hd)).2

theorem Inv.exact (h : s.Inv) : s.Exact where
  delivered p := by
    have hfirst : (s.handledOf p).map Delivery.words <+: s.written p :=
      (List.prefix_append _ _).trans (h.received p).isPrefix
    have hdue := (hfirst.filter fun words => ValidType words).map (Delivery.of p)
    rwa [h.filter_handledOf,handledOf_map h.handled] at hdue
  complete p hfinished := by
    obtain ⟨hring,hcoming,hplugin,hheld⟩ := hfinished
    have hreceived := h.received p
    rw [part,if_neg hplugin,hring,hcoming,List.append_nil] at hreceived
    have hnone : s.heldOf p = [] := by
      rw [heldOf,List.map_eq_nil_iff,List.filter_eq_nil_iff]
      intro m hm
      simpa using hheld m hm
    have hall : (s.handledOf p).map Delivery.words = s.written p := by
      have htaken := (hreceived.eq_of_nil Framing.incomplete_nil).1
      rwa [takenOf,hnone,List.append_nil] at htaken
    rw [due,← hall,h.filter_handledOf,handledOf_map h.handled]
  ready := by
    intro hstarted hreading
    rcases h.progress with hquiet | ⟨p,-,-,-,⟨hone,-⟩ | ⟨-,hsome⟩,-⟩
    · exact hquiet.1
    · omega
    · simp [hreading] at hsome

/-- The reader is exact in runs in which no message with an invalid type is made, and the threads that have messages of
one ring give them to the handlers in its order. -/
theorem exact_of_valid (tr : List (PluginAct × PluginConn)) (hr : IsRun (fun s a u => s.step a = some u) init tr)
    (hc : EveryStep Careful init tr) : EveryState Exact init tr :=
  (hr.everyState (P := Inv) (fun _ _ _ h hu hcare => h.step hu hcare) inv_init hc).mono fun _ h => h.exact

/-- A response with two words. -/
def response : ControlMessage := ⟨[0x01020007,65,66],by decide,by decide⟩

def debugMessage : ControlMessage := ⟨[0x02000000],by decide,by decide⟩

/-- The messages of two plugins, of which the second one gets to its handler first. -/
def twoPlugins : List (PluginAct × PluginConn) :=
  runOf step init
    [.write 0 response,.put 0,.put 0,.put 0,.check,.poll,.readmsg,.write 3 debugMessage,.word,.word,.construct,.put 3,
      .check,.poll,.poll,.poll,.poll,.readmsg,.construct,.handle 1,.handle 0]

theorem exact_twoPlugins : EveryState Exact init twoPlugins :=
  exact_of_valid twoPlugins (isRun_runOf _ _ _) (by decide +kernel)

/-- A message of type 24. -/
def invalidMessage : ControlMessage := ⟨[0x18010000,65],by decide,by decide⟩

def oneInvalid : List (PluginAct × PluginConn) :=
  runOf step init [.write 0 invalidMessage,.put 0,.put 0,.check,.poll,.readmsg,.word,.construct]

theorem oneInvalid_not_exact : ¬∀ tr : List (PluginAct × PluginConn),
    IsRun (fun s a u => s.step a = some u) init tr → EveryState Exact init tr := by
  intro h
  have hlast := (h oneInvalid (isRun_runOf _ _ _)).last
  have hstuck : (lastState init oneInvalid).started = 0 ∧ (lastState init oneInvalid).reading = none ∧
      (lastState init oneInvalid).msgReady = true := by decide +kernel
  obtain ⟨hstarted,hreading,hready⟩ := hstuck
  rw [hlast.ready hstarted hreading] at hready
  cases hready

end PluginConn

end OnlDaemons.Npr

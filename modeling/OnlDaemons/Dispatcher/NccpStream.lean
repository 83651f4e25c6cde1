import OnlDaemons.Lib.Framing
import OnlDaemons.Lib.Run
import OnlDaemons.Lib.Wire

/-!
# Messages on the stream of a connection

`send_message` sends the length of a message and then its bytes, each with one `send`; `get_message`
reads the length with one `read` and then the bytes in a loop. The stream between them delivers
bytes in order, and each call may transfer fewer bytes than it was asked for.

## Main definitions

- `NccpStream`, `NccpStream.step` — the two ends and the bytes between them
- `NccpStream.Framed` — what was received is what was sent
- `NccpStream.Whole` — the calls that are made once transfer all

## Main result

- `NccpStream.framed_of_whole` — over runs
-/

namespace OnlDaemons.Dispatcher
open OnlDaemons.Lib

/-- How far `send_message` has come, under `write_lock`. -/
inductive SendPlace
  | idle
  | data (msg : List UInt8)
  | closed
deriving DecidableEq

/-- The bytes the next `send` is asked for. -/
def SendPlace.asked : SendPlace → ℕ
  | .data msg => msg.length
  | _ => 0

/-- How far `get_message` has come. `body` has `msg_length` and the bytes read so far. -/
inductive ReadPlace
  | header
  | body (msgLength : ℕ) (buf : List UInt8)
  | closed
deriving DecidableEq

/-- `sent` and `received` are the messages so far, in order, and `line` the bytes between the ends. -/
structure NccpStream where
  sent : List (List UInt8) := []
  received : List (List UInt8) := []
  line : List UInt8 := []
  sender : SendPlace := .idle
  reader : ReadPlace := .header

/-- A call that transfers `n` bytes, or fails. `memory` is what the variable `msg_length` held before. -/
inductive StreamAct
  | sendLength (msg : List UInt8) (n : Option ℕ)
  | sendData (n : Option ℕ)
  | readLength (n : Option ℕ) (memory : List UInt8)
  | readData (n : Option ℕ)

/-- No call fails. -/
def StreamAct.Transfers : StreamAct → Prop
  | .sendLength _ n | .sendData n | .readLength n _ | .readData n => n ≠ none

instance : (a : StreamAct) → Decidable a.Transfers
  | .sendLength _ _ | .sendData _ | .readLength _ _ | .readData _ => inferInstanceAs (Decidable (_ ≠ none))

namespace NccpStream

/-- The length in network order. -/
def header (msg : List UInt8) : List UInt8 := bytesOf 4 msg.length

/-- The bytes that have come are all there are to be. -/
def readOn (s : NccpStream) (msgLength : ℕ) (buf : List UInt8) : NccpStream :=
  if buf.length < msgLength then { s with reader := .body msgLength buf }
  else { s with received := s.received ++ [buf], reader := .header }

def step (s : NccpStream) : StreamAct → Option NccpStream
  | .sendLength msg n =>
    -- the size of a buffer is a 32-bit number, and an empty one is not sent
    if s.sender = .idle ∧ 0 < msg.length ∧ msg.length < 2 ^ 32 then
      let s := { s with sent := s.sent ++ [msg] }
      match n with
      | none => some { s with sender := .closed }
      | some n =>
        if 0 < n ∧ n ≤ 4 then
          some { s with line := s.line ++ (header msg).take n, sender := .data msg }
        else none
    else none
  | .sendData n =>
    match s.sender, n with
    | .data _, none => some { s with sender := .closed }
    | .data msg, some n =>
      if 0 < n ∧ n ≤ msg.length then
        some { s with line := s.line ++ msg.take n, sender := .idle }
      else none
    | _, _ => none
  | .readLength n memory =>
    match s.reader, n with
    | .header, none => some { s with reader := .closed }
    | .header, some n =>
      if 0 < n ∧ n ≤ 4 ∧ n ≤ s.line.length ∧ memory.length = 4 then
        let msgLength := bigEndian (s.line.take n ++ memory.drop n)
        let s := { s with line := s.line.drop n }
        if msgLength = 0 then some { s with reader := .closed }
        else some { s with reader := .body msgLength [] }
      else none
    | _, _ => none
  | .readData n =>
    match s.reader, n with
    | .body _ _, none => some { s with reader := .closed }
    | .body msgLength buf, some n =>
      if 0 < n ∧ n ≤ msgLength - buf.length ∧ n ≤ s.line.length then
        some ({ s with line := s.line.drop n }.readOn msgLength (buf ++ s.line.take n))
      else none
    | _, _ => none

/-- What was received is the beginning of what was sent, and all of it when no message is on its way and
nothing was closed. -/
def Framed (s : NccpStream) : Prop :=
  s.received <+: s.sent ∧
  (s.sender = .idle → s.reader ≠ .closed → s.line = [] → s.received = s.sent ∧ s.reader = .header)

/-- `send` takes all it is given, and the length is read at once. -/
def Whole (s : NccpStream) : StreamAct → Prop
  | .sendLength _ (some n) => n = 4
  | .sendData (some n) => n = s.sender.asked
  | .readLength (some n) _ => n = 4
  | _ => True

/-! ### Frames -/

/-- The frames of the connection. -/
def framing : Framing UInt8 where
  headLen := 4
  bodyLen := bigEndian
  pos := by decide

/-- A message as it is put on the stream. -/
def frame (msg : List UInt8) : List UInt8 := header msg ++ msg

theorem length_header (msg : List UInt8) : (header msg).length = 4 := length_bytesOf 4 _

theorem bigEndian_header {msg : List UInt8} (h : msg.length < 2 ^ 32) :
    bigEndian (header msg) = msg.length := by
  rw [header, bigEndian_bytesOf]
  exact Nat.mod_eq_of_lt h

theorem isFrame_frame {msg : List UInt8} (h : msg.length < 2 ^ 32) : framing.IsFrame (frame msg) := by
  have htake : (frame msg).take 4 = header msg := List.take_left' (length_header msg)
  show (frame msg).length = 4 + bigEndian ((frame msg).take 4)
  rw [htake, bigEndian_header h, frame, List.length_append, length_header]

theorem frame_injective : Function.Injective frame := by
  intro a b h
  exact (List.append_inj h ((length_header a).trans (length_header b).symm)).2

/-! ### The invariant -/

/-- The bytes of the last message that are not on the stream yet. -/
def Unsent (s : NccpStream) (rest : List UInt8) : Prop :=
  match s.sender with
  | .idle => rest = []
  | .data msg => rest = msg
  | .closed => True

/-- The bytes read since the last message. -/
def Got (s : NccpStream) (got : List UInt8) : Prop :=
  match s.reader with
  | .header => got = []
  | .body n buf => ∃ head, head.length = 4 ∧ n = bigEndian head ∧ got = head ++ buf ∧ buf.length < n
  | .closed => True

/-- All the bytes of the messages sent are taken, on the stream, or still to be put on it. -/
structure Inv (s : NccpStream) : Prop where
  sizes : ∀ msg ∈ s.sent, 0 < msg.length ∧ msg.length < 2 ^ 32
  frames : ∀ msg ∈ s.received, msg.length < 2 ^ 32
  bytes : ∃ got rest, s.Got got ∧ s.Unsent rest ∧
    (s.sent.map frame).flatten = (s.received.map frame).flatten ++ got ++ s.line ++ rest

theorem header_of_bigEndian {head buf : List UInt8} (hl : head.length = 4)
    (hn : bigEndian head = buf.length) : header buf = head := by
  rw [header, ← hn, ← hl]
  exact bytesOf_bigEndian head

theorem frame_append {head buf : List UInt8} (hl : head.length = 4)
    (hn : bigEndian head = buf.length) : frame buf = head ++ buf := by
  rw [frame, header_of_bigEndian hl hn]

variable {s t : NccpStream}

theorem Inv.incomplete {got : List UInt8} (hopen : s.reader ≠ .closed) (hgot : s.Got got) :
    framing.Incomplete got ∧ (got = [] → s.reader = .header) := by
  unfold Got at hgot
  split at hgot
  · next hr =>
    rw [hgot]
    exact ⟨framing.incomplete_nil, fun _ => hr⟩
  · next n buf hr =>
    obtain ⟨head, hl, hn, rfl, hlt⟩ := hgot
    constructor
    · refine .inr ?_
      have htake : (head ++ buf).take 4 = head := List.take_left' hl
      show (head ++ buf).length < 4 + bigEndian ((head ++ buf).take 4)
      rw [htake, List.length_append, hl, ← hn]
      omega
    · intro hnil
      rw [(List.append_eq_nil_iff.mp hnil).1] at hl
      cases hl
  · next hr => exact absurd hr hopen

/-- What the frames of the stream say of what was received. -/
theorem Inv.framed (h : s.Inv) : s.Framed := by
  obtain ⟨got, rest, hgot, hrest, hbytes⟩ := h.bytes
  have hsent : ∀ f ∈ s.sent.map frame, framing.IsFrame f := by
    intro f hf
    obtain ⟨msg, hmsg, rfl⟩ := List.mem_map.mp hf
    exact isFrame_frame (h.sizes msg hmsg).2
  have hreceived : ∀ f ∈ s.received.map frame, framing.IsFrame f := by
    intro f hf
    obtain ⟨msg, hmsg, rfl⟩ := List.mem_map.mp hf
    exact isFrame_frame (h.frames msg hmsg)
  constructor
  · have hpre := Framing.prefix_of_append (got ++ s.line ++ rest) hreceived hsent
      (by rw [hbytes]; simp only [List.append_assoc])
    obtain ⟨more, hmore⟩ := hpre
    obtain ⟨a, b, hab, ha, -⟩ := List.map_eq_append_iff.mp hmore.symm
    rw [hab, frame_injective.list_map ha]
    exact List.prefix_append _ _
  · intro hidle hopen hline
    rw [Unsent, hidle] at hrest
    obtain ⟨hinc, hheader⟩ := Inv.incomplete hopen hgot
    rw [hline, hrest, List.append_nil, List.append_nil] at hbytes
    obtain ⟨hall, hnil⟩ := Framing.all_of_flatten hreceived hsent hinc hbytes.symm
    exact ⟨frame_injective.list_map hall, hheader hnil⟩

/-- `send_message` puts bytes on the stream. -/
theorem Inv.send (h : s.Inv) {put : List UInt8} {place : SendPlace}
    (hrest : ∀ rest, s.Unsent rest → ∃ rest', Unsent { s with sender := place } rest' ∧
      rest = put ++ rest') :
    Inv { s with line := s.line ++ put, sender := place } := by
  obtain ⟨got, rest, hgot, hun, hbytes⟩ := h.bytes
  obtain ⟨rest', hun', hr⟩ := hrest rest hun
  refine ⟨h.sizes, h.frames, got, rest', hgot, hun', ?_⟩
  rw [hbytes, hr]
  simp only [List.append_assoc]

theorem Inv.step (h : s.Inv) {a : StreamAct} (hwhole : s.Whole a) (hs : s.step a = some t) :
    t.Inv := by
  obtain ⟨got, rest, hgot, hun, hbytes⟩ := h.bytes
  cases a with
  | sendLength msg n =>
    simp only [NccpStream.step] at hs
    split at hs
    · next hg =>
      obtain ⟨hidle, hpos, hlt⟩ := hg
      rw [Unsent, hidle] at hun
      have hsizes : ∀ m ∈ s.sent ++ [msg], 0 < m.length ∧ m.length < 2 ^ 32 := by
        intro m hm
        obtain hm | hm := List.mem_append.mp hm
        · exact h.sizes m hm
        · rw [List.mem_singleton.mp hm]
          exact ⟨hpos, hlt⟩
      have hall : ((s.sent ++ [msg]).map frame).flatten =
          (s.received.map frame).flatten ++ got ++ s.line ++ (header msg ++ msg) := by
        rw [List.map_append, List.flatten_append, hbytes, hun]
        simp [frame]
      cases n with
      | none =>
        cases hs
        exact ⟨hsizes, h.frames, got, _, hgot, trivial, hall⟩
      | some n =>
        simp only at hs
        split at hs <;> cases hs
        have hn : n = 4 := hwhole
        refine ⟨hsizes, h.frames, got, msg, hgot, rfl, ?_⟩
        have htake : (header msg).take n = header msg := by
          rw [hn]
          exact List.take_of_length_le (length_header msg).le
        show ((s.sent ++ [msg]).map frame).flatten =
          (s.received.map frame).flatten ++ got ++ (s.line ++ (header msg).take n) ++ msg
        rw [hall, htake]
        simp only [List.append_assoc]
    · cases hs
  | sendData n =>
    simp only [NccpStream.step] at hs
    split at hs
    · cases hs
      exact ⟨h.sizes, h.frames, got, rest, hgot, trivial, hbytes⟩
    · next msg n hdata =>
      split at hs <;> cases hs
      have hn : n = msg.length := by
        rw [show n = s.sender.asked from hwhole, hdata]
        rfl
      rw [hn, List.take_length]
      refine h.send fun rest hrest => ⟨[], rfl, ?_⟩
      rw [Unsent, hdata] at hrest
      rw [hrest, List.append_nil]
    · cases hs
  | readLength n memory =>
    simp only [NccpStream.step] at hs
    split at hs
    · cases hs
      exact ⟨h.sizes, h.frames, got, rest, trivial, hun, hbytes⟩
    · next n hhead =>
      rw [Got, hhead] at hgot
      split at hs
      · next hg =>
        have hn : n = 4 := hwhole
        obtain ⟨-, -, hline, hmem⟩ := hg
        have hdrop : memory.drop n = [] := List.drop_eq_nil_of_le (by omega)
        have hlen : (s.line.take n).length = 4 := by
          rw [List.length_take]
          omega
        have hall : (s.sent.map frame).flatten =
            (s.received.map frame).flatten ++ (s.line.take n) ++ s.line.drop n ++ rest := by
          rw [hbytes, hgot, List.append_nil]
          simp only [List.append_assoc]
          rw [← List.append_assoc (s.line.take n), List.take_append_drop]
        rw [hdrop, List.append_nil] at hs
        split at hs <;> cases hs
        · exact ⟨h.sizes, h.frames, _, rest, trivial, hun, hall⟩
        · next hz =>
          refine ⟨h.sizes, h.frames, _, rest, ⟨s.line.take n, hlen, rfl, ?_, Nat.pos_of_ne_zero hz⟩, hun, hall⟩
          rw [List.append_nil]
      · cases hs
    · cases hs
  | readData n =>
    simp only [NccpStream.step] at hs
    split at hs
    · cases hs
      exact ⟨h.sizes, h.frames, got, rest, trivial, hun, hbytes⟩
    · next msgLength buf n hbody =>
      rw [Got, hbody] at hgot
      obtain ⟨head, hl, hlen, rfl, hlt⟩ := hgot
      split at hs
      · next hg =>
        cases hs
        have hall : (s.sent.map frame).flatten = (s.received.map frame).flatten ++
            (head ++ (buf ++ s.line.take n)) ++ s.line.drop n ++ rest := by
          rw [hbytes]
          simp only [List.append_assoc]
          rw [← List.append_assoc (s.line.take n), List.take_append_drop]
        have htake : (buf ++ s.line.take n).length = buf.length + n := by
          rw [List.length_append, List.length_take, Nat.min_eq_left hg.2.2]
        unfold readOn
        split
        · next hmore =>
          exact ⟨h.sizes, h.frames, _, rest, ⟨head, hl, hlen, rfl, hmore⟩, hun, hall⟩
        · next hdone =>
          have hfull : (buf ++ s.line.take n).length = bigEndian head := by omega
          refine ⟨h.sizes, ?_, [], rest, rfl, hun, ?_⟩
          · intro m hm
            obtain hm | hm := List.mem_append.mp hm
            · exact h.frames m hm
            · have hbound := bigEndian_lt head
              rw [List.mem_singleton.mp hm, hfull]
              rwa [hl] at hbound
          · show (s.sent.map frame).flatten =
              ((s.received ++ [buf ++ s.line.take n]).map frame).flatten ++ [] ++ s.line.drop n ++ rest
            rw [hall, List.map_append, List.flatten_append, List.map_singleton, List.flatten_singleton,
              frame_append hl hfull.symm, List.append_nil]
      · cases hs
    · cases hs

theorem inv_start : Inv {} :=
  ⟨nofun, nofun, [], [], rfl, rfl, rfl⟩

/-- The stream of a connection on which every `send` is complete and every length is read at once. -/
theorem framed_of_whole {tr : List (StreamAct × NccpStream)}
    (hrun : IsRun (fun s a t => step s a = some t) {} tr)
    (hwhole : EveryStep (fun s a _ => s.Whole a) {} tr) : EveryState Framed {} tr :=
  (hrun.everyState (fun _ _ _ h hs hw => h.step hw hs) inv_start hwhole).mono fun _ h => h.framed

instance (s : NccpStream) : Decidable s.Framed :=
  inferInstanceAs (Decidable (_ ∧ _))

instance (s : NccpStream) : (a : StreamAct) → Decidable (s.Whole a)
  | .sendLength _ none | .sendData none | .readLength none _ | .readData _ => .isTrue trivial
  | .sendLength _ (some n) | .readLength (some n) _ => inferInstanceAs (Decidable (n = 4))
  | .sendData (some n) => inferInstanceAs (Decidable (n = s.sender.asked))

/-- Two messages; the bytes of the first are read in two calls. -/
def twoReads : List StreamAct :=
  [.sendLength [1, 2] (some 4), .sendData (some 2), .sendLength [3] (some 4),
    .readLength (some 4) [0, 0, 0, 0], .readData (some 1), .sendData (some 1), .readData (some 1),
    .readLength (some 4) [0, 0, 0, 0], .readData (some 1)]

theorem twoReads_framed : EveryState Framed {} (runOf step {} twoReads) ∧
    (lastState {} (runOf step {} twoReads)).received = [[1, 2], [3]] :=
  ⟨framed_of_whole (isRun_runOf _ _ _) (by decide), by decide⟩

/-- One of the two bytes of a message is sent, and the other is lost. -/
theorem byte_lost : ¬∀ tr : List (StreamAct × NccpStream),
    IsRun (fun s a t => step s a = some t) {} tr →
      EveryStep (fun _ a _ => a.Transfers) {} tr → EveryState Framed {} tr := by
  intro h
  have hframed := (h _ (isRun_runOf step {} [.sendLength [1, 2] (some 4), .sendData (some 1),
    .readLength (some 4) [0, 0, 0, 0], .readData (some 1)]) (by decide)).last
  revert hframed
  decide

end NccpStream

end OnlDaemons.Dispatcher

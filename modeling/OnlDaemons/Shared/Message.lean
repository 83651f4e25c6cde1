import OnlDaemons.Shared.Rendezvous

/-!
# Messages

The header all messages share and what requests, responses and periodic messages add to it.
A layout of a message is a layout of its header followed by one of its body, which may depend
on the version.

## Main definitions

- `Message`, `Request`, `Response`, `Periodic` — the headers
- `requestLayout`, `responseLayout` — a header and then a body
-/

namespace OnlDaemons.Shared

open OnlDaemons.Lib

def NCCP_MessageRequest : UInt16 := 1

def NCCP_MessageResponse : UInt16 := 2

def NCCP_MessagePeriodic : UInt16 := 3

structure Message where
  type : UInt16
  version : UInt8
  op : UInt8
  rend : Rendezvous
  periodic_message : Bool
deriving DecidableEq, Repr

namespace Message

def parse : Decoder Message := do
  let type ← getU16
  let version ← getU8
  let op ← getU8
  let rend ← Rendezvous.get
  let periodic_message ← getBool
  pure { type, version, op, rend, periodic_message }

def write (m : Message) : Encoder := do
  putU16 m.type
  putU8 m.version
  putU8 m.op
  m.rend.put
  putBool m.periodic_message

def encode (m : Message) : List UInt8 :=
  [bytesOf 2 m.type.toNat, bytesOf 1 m.version.toNat, bytesOf 1 m.op.toNat, m.rend.encode,
    bytesOf 2 m.periodic_message.toNat].flatten

theorem length_encode (m : Message) : m.encode.length = 34 := by
  simp +arith [encode]

theorem write_eq (m : Message) : m.write = put m.encode := by
  simp only [write, putU16_eq, putU8_eq, Rendezvous.put_eq, putBool_eq, put_bind, encode,
    List.flatten_cons, List.flatten_nil, List.append_nil]

end Message

/-- A header, and then what its version and its periodic flag call for. -/
def messageLayout (l : ℕ → Bool → Layout) : Layout :=
  (Layout.skip 2).seq (Layout.word 1 fun version =>
    (Layout.skip 1).seq (Rendezvous.layout.seq (Layout.word 2 fun p => l version (p != 0))))

theorem follows_message {β : Type} {f : Message → Decoder β} {l : ℕ → Bool → Layout}
    (hf : ∀ m : Message, Follows (f m) (l m.version.toNat m.periodic_message)) :
    Follows (Message.parse >>= f) (messageLayout l) := by
  simp only [Message.parse, bind_assoc, pure_bind]
  exact follows_getU16.bind fun type => follows_getU8_bind fun version =>
    follows_getU8.bind fun op => Rendezvous.follows_get.bind fun rend =>
      follows_getBool_bind fun periodic_message =>
        hf { type, version, op, rend, periodic_message }

/-! ### Requests -/

/-- The period is read and written in periodic requests only. -/
structure Request extends Message where
  period : Timeval
deriving DecidableEq, Repr

namespace Request

def parse : Decoder Request := do
  let m ← Message.parse
  let period ← getWhen m.periodic_message Timeval.get ⟨0, 0⟩
  pure { m with period }

def write (r : Request) : Encoder := do
  r.toMessage.write
  putWhen r.periodic_message r.period.put

def encode (r : Request) : List UInt8 :=
  [r.toMessage.encode, if r.periodic_message then r.period.encode else []].flatten

def wireSize (r : Request) : ℕ := 34 + if r.periodic_message then 8 else 0

@[simp] theorem length_encode (r : Request) : r.encode.length = r.wireSize := by
  simp only [encode, wireSize, List.flatten_cons, List.flatten_nil, List.append_nil,
    List.length_append, Message.length_encode]
  split
  · rw [Timeval.length_encode]
  · rfl

@[simp] theorem write_eq (r : Request) : r.write = put r.encode := by
  rw [write, Message.write_eq, putWhen_eq _ (Timeval.put_eq _), put_bind, encode,
    List.flatten_cons, List.flatten_cons, List.flatten_nil, List.append_nil]

end Request

def requestLayout (l : ℕ → Layout) : Layout := messageLayout fun version periodic_message =>
  (Layout.when periodic_message Timeval.layout).seq (l version)

theorem follows_request {β : Type} {f : Request → Decoder β} {l : ℕ → Layout}
    (hf : ∀ r : Request, Follows (f r) (l r.version.toNat)) :
    Follows (Request.parse >>= f) (requestLayout l) := by
  simp only [Request.parse, bind_assoc, pure_bind]
  exact follows_message fun m => (follows_getWhen _ Timeval.follows_get _).bind fun period =>
    hf { m with period }

/-! ### Responses -/

structure Response extends Message where
  return_rend : Rendezvous
  end_of_message : Bool
deriving DecidableEq, Repr

namespace Response

def parse : Decoder Response := do
  let m ← Message.parse
  let return_rend ← getWhen m.periodic_message Rendezvous.get (Rendezvous.new 0 0)
  let end_of_message ← getBool
  pure { m with return_rend, end_of_message }

def write (r : Response) : Encoder := do
  r.toMessage.write
  putWhen r.periodic_message r.return_rend.put
  putBool r.end_of_message

def encode (r : Response) : List UInt8 :=
  [r.toMessage.encode, if r.periodic_message then r.return_rend.encode else [],
    bytesOf 2 r.end_of_message.toNat].flatten

def wireSize (r : Response) : ℕ := 36 + if r.periodic_message then 28 else 0

@[simp] theorem length_encode (r : Response) : r.encode.length = r.wireSize := by
  simp only [encode, wireSize, List.flatten_cons, List.flatten_nil, List.append_nil,
    List.length_append, Message.length_encode, length_bytesOf]
  split
  · rw [Rendezvous.length_encode]
  · rfl

@[simp] theorem write_eq (r : Response) : r.write = put r.encode := by
  simp only [write, Message.write_eq, putWhen_eq _ (Rendezvous.put_eq _), putBool_eq, put_bind,
    encode, List.flatten_cons, List.flatten_nil, List.append_nil]

end Response

def responseLayout (l : Layout) : Layout := messageLayout fun _ periodic_message =>
  (Layout.when periodic_message Rendezvous.layout).seq ((Layout.skip 2).seq l)

theorem follows_response {β : Type} {f : Response → Decoder β} {l : Layout}
    (hf : ∀ r : Response, Follows (f r) l) :
    Follows (Response.parse >>= f) (responseLayout l) := by
  simp only [Response.parse, bind_assoc, pure_bind]
  exact follows_message fun m =>
    (follows_getWhen _ Rendezvous.follows_get _).bind fun return_rend =>
      follows_getBool.bind fun end_of_message => hf { m with return_rend, end_of_message }

/-! ### Periodic messages -/

structure Periodic where
  type : UInt16
  version : UInt8
  op : UInt8
  rend : Rendezvous
  return_rend : Rendezvous
deriving DecidableEq, Repr

namespace Periodic

def parse : Decoder Periodic := do
  let type ← getU16
  let version ← getU8
  let op ← getU8
  let rend ← Rendezvous.get
  let return_rend ← Rendezvous.get
  pure { type, version, op, rend, return_rend }

def write (p : Periodic) : Encoder := do
  putU16 p.type
  putU8 p.version
  putU8 p.op
  p.rend.put
  p.return_rend.put

def encode (p : Periodic) : List UInt8 :=
  [bytesOf 2 p.type.toNat, bytesOf 1 p.version.toNat, bytesOf 1 p.op.toNat, p.rend.encode,
    p.return_rend.encode].flatten

def layout : Layout :=
  Layout.all [Layout.skip 2, Layout.skip 1, Layout.skip 1, Rendezvous.layout, Rendezvous.layout]

theorem length_encode (p : Periodic) : p.encode.length = 60 := by
  simp +arith [encode]

theorem write_eq (p : Periodic) : p.write = put p.encode := by
  simp only [write, putU16_eq, putU8_eq, Rendezvous.put_eq, put_bind, encode,
    List.flatten_cons, List.flatten_nil, List.append_nil]

theorem follows_parse : Follows parse layout :=
  follows_getU16.bind fun _ => follows_getU8.bind fun _ => follows_getU8.bind fun _ =>
    Rendezvous.follows_get.bind fun _ => Rendezvous.follows_get.bind fun _ => follows_pure _

end Periodic

end OnlDaemons.Shared

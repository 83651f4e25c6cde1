import OnlDaemons.Shared.OnlRequests

/-!
# Responses between the daemons

The responses of the daemons of the components and of the switch daemon.

## Main definitions

- `CrdResponse`, `CrdHwresponse`, `CrdEndconfigResponse`, `RliResponse`
- `SwitchResponse`, `AddVlanResponse`
- `RelayResponse` — a response and the bytes of another that were not read
-/

namespace OnlDaemons.Shared

open OnlDaemons.Lib

structure CrdResponse extends Response where
  status : UInt32
  exp : Experiment
  comp : Component
deriving DecidableEq, Repr

namespace CrdResponse

def parse : Decoder CrdResponse := do
  let r ← Response.parse
  let status ← getU32
  let exp ← Experiment.get
  let comp ← Component.get
  pure { r with status, exp, comp }

def write (r : CrdResponse) : Encoder := do
  r.toResponse.write
  putU32 r.status
  r.exp.put
  r.comp.put

def encode (r : CrdResponse) : List UInt8 :=
  [r.toResponse.encode, bytesOf 4 r.status.toNat, r.exp.encode, r.comp.encode].flatten

def wireSize (r : CrdResponse) : ℕ :=
  4 + r.toResponse.wireSize + r.exp.wireSize + r.comp.wireSize

@[simp] theorem length_encode (r : CrdResponse) : r.encode.length = r.wireSize := by
  simp +arith [encode, wireSize]

@[simp] theorem write_eq (r : CrdResponse) : r.write = put r.encode := by
  simp only [write, Response.write_eq, putU32_eq, Experiment.put_eq, Component.put_eq, put_bind,
    encode, List.flatten_cons, List.flatten_nil, List.append_nil]

end CrdResponse

/-- The part these responses share, and then what the class adds. -/
def crdResponseLayout (ls : List Layout) : Layout :=
  responseLayout (Layout.all (Layout.skip 4 :: Experiment.layout :: Component.layout :: ls))

theorem follows_crdResponse {β : Type} {f : CrdResponse → Decoder β} {ls : List Layout}
    (hf : ∀ r, Follows (f r) (Layout.all ls)) :
    Follows (CrdResponse.parse >>= f) (crdResponseLayout ls) := by
  simp only [CrdResponse.parse, bind_assoc, pure_bind]
  exact follows_response fun r => follows_getU32.bind fun status =>
    Experiment.follows_get.bind fun exp => Component.follows_get.bind fun comp =>
      hf { r with status, exp, comp }

structure CrdHwresponse extends CrdResponse where
  id : UInt32
deriving DecidableEq, Repr

namespace CrdHwresponse

def parse : Decoder CrdHwresponse := do
  let r ← CrdResponse.parse
  let id ← getU32
  pure { r with id }

def write (r : CrdHwresponse) : Encoder := do
  r.toCrdResponse.write
  putU32 r.id

def encode (r : CrdHwresponse) : List UInt8 :=
  [r.toCrdResponse.encode, bytesOf 4 r.id.toNat].flatten

def layout : Layout := crdResponseLayout [Layout.skip 4]

theorem write_eq (r : CrdHwresponse) : r.write = put r.encode := by
  simp only [write, CrdResponse.write_eq, putU32_eq, put_bind, encode, List.flatten_cons,
    List.flatten_nil, List.append_nil]

theorem follows_parse : Follows parse layout :=
  follows_crdResponse fun _ => follows_getU32.bind fun _ => follows_pure _

end CrdHwresponse

structure CrdEndconfigResponse extends CrdResponse where
  vmname : NccpString
deriving DecidableEq, Repr

namespace CrdEndconfigResponse

def parse : Decoder CrdEndconfigResponse := do
  let r ← CrdResponse.parse
  let vmname ← NccpString.get
  pure { r with vmname }

def write (r : CrdEndconfigResponse) : Encoder := do
  r.toCrdResponse.write
  r.vmname.put

def encode (r : CrdEndconfigResponse) : List UInt8 :=
  [r.toCrdResponse.encode, r.vmname.encode].flatten

def layout : Layout := crdResponseLayout [NccpString.layout]

theorem write_eq (r : CrdEndconfigResponse) : r.write = put r.encode := by
  simp only [write, CrdResponse.write_eq, NccpString.put_eq, put_bind, encode,
    List.flatten_cons, List.flatten_nil, List.append_nil]

theorem follows_parse : Follows parse layout :=
  follows_crdResponse fun _ => NccpString.follows_get.bind fun _ => follows_pure _

end CrdEndconfigResponse

structure RliResponse extends Response where
  status : UInt32
  time_stamp : UInt32
  clock_rate : UInt32
  value : UInt32
  status_msg : NccpString
deriving DecidableEq, Repr

namespace RliResponse

def parse : Decoder RliResponse := do
  let r ← Response.parse
  let status ← getU32
  let time_stamp ← getU32
  let clock_rate ← getU32
  let value ← getU32
  let status_msg ← NccpString.get
  pure { r with status, time_stamp, clock_rate, value, status_msg }

def write (r : RliResponse) : Encoder := do
  r.toResponse.write
  putU32 r.status
  putU32 r.time_stamp
  putU32 r.clock_rate
  putU32 r.value
  r.status_msg.put

def encode (r : RliResponse) : List UInt8 :=
  [r.toResponse.encode, bytesOf 4 r.status.toNat, bytesOf 4 r.time_stamp.toNat,
    bytesOf 4 r.clock_rate.toNat, bytesOf 4 r.value.toNat, r.status_msg.encode].flatten

def wireSize (r : RliResponse) : ℕ := 16 + r.toResponse.wireSize + r.status_msg.wireSize

@[simp] theorem length_encode (r : RliResponse) : r.encode.length = r.wireSize := by
  simp +arith [encode, wireSize]

def layout : Layout := responseLayout (Layout.all
  [Layout.skip 4, Layout.skip 4, Layout.skip 4, Layout.skip 4, NccpString.layout])

@[simp] theorem write_eq (r : RliResponse) : r.write = put r.encode := by
  simp only [write, Response.write_eq, putU32_eq, NccpString.put_eq, put_bind, encode,
    List.flatten_cons, List.flatten_nil, List.append_nil]

theorem follows_parse : Follows parse layout :=
  follows_response fun _ => follows_getU32.bind fun _ => follows_getU32.bind fun _ =>
    follows_getU32.bind fun _ => follows_getU32.bind fun _ => NccpString.follows_get.bind fun _ =>
      follows_pure _

end RliResponse

structure SwitchResponse extends Response where
  status : UInt32
deriving DecidableEq, Repr

namespace SwitchResponse

def parse : Decoder SwitchResponse := do
  let r ← Response.parse
  let status ← getU32
  pure { r with status }

def write (r : SwitchResponse) : Encoder := do
  r.toResponse.write
  putU32 r.status

def encode (r : SwitchResponse) : List UInt8 :=
  [r.toResponse.encode, bytesOf 4 r.status.toNat].flatten

def layout : Layout := responseLayout (Layout.all [Layout.skip 4])

@[simp] theorem write_eq (r : SwitchResponse) : r.write = put r.encode := by
  simp only [write, Response.write_eq, putU32_eq, put_bind, encode, List.flatten_cons,
    List.flatten_nil, List.append_nil]

theorem follows_parse : Follows parse layout :=
  follows_response fun _ => follows_getU32.bind fun _ => follows_pure _

end SwitchResponse

structure AddVlanResponse extends SwitchResponse where
  vlanid : UInt32
deriving DecidableEq, Repr

namespace AddVlanResponse

def parse : Decoder AddVlanResponse := do
  let r ← SwitchResponse.parse
  let vlanid ← getU32
  pure { r with vlanid }

def write (r : AddVlanResponse) : Encoder := do
  r.toSwitchResponse.write
  putU32 r.vlanid

def encode (r : AddVlanResponse) : List UInt8 :=
  [r.toSwitchResponse.encode, bytesOf 4 r.vlanid.toNat].flatten

def layout : Layout := responseLayout (Layout.all [Layout.skip 4, Layout.skip 4])

theorem write_eq (r : AddVlanResponse) : r.write = put r.encode := by
  simp only [write, SwitchResponse.write_eq, putU32_eq, put_bind, encode, List.flatten_cons,
    List.flatten_nil, List.append_nil]

theorem follows_parse : Follows parse layout := by
  simp only [parse, SwitchResponse.parse, bind_assoc, pure_bind]
  exact follows_response fun _ => follows_getU32.bind fun _ => follows_getU32.bind fun _ =>
    follows_pure _

end AddVlanResponse

/-! ### Relayed responses -/

/-- `rli_relay_resp` and `crd_relay_resp`: a response of the relayed class, and the bytes of the
response that came back which its class did not read. -/
structure RelayResponse (ρ : Type) where
  resp : ρ
  rest : List UInt8
deriving DecidableEq, Repr

def RelayResponse.write {ρ : Type} (w : ρ → Encoder) (r : RelayResponse ρ) : Encoder := do
  w r.resp
  putEach putU8 r.rest

theorem RelayResponse.write_eq {ρ : Type} {w : ρ → Encoder} {enc : ρ → List UInt8}
    (hw : ∀ r, w r = put (enc r)) (r : RelayResponse ρ) :
    r.write w = put (enc r.resp ++ r.rest) := by
  rw [write, hw, putEach_putU8, put_bind]

end OnlDaemons.Shared

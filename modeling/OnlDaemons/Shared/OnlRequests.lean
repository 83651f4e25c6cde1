import OnlDaemons.Shared.Message
import OnlDaemons.Shared.OnlTypes

/-!
# Requests between the daemons

The requests the control daemon sends to the daemons of the components, and those it sends to
the switch daemon. A class without fields of its own (`end_experiment`, `end_configure_node`,
`start_session`, `end_session`, `add_vlan`) is parsed and written as the class it extends.

## Main definitions

- `IAmUp`, `CrdRequest`, `StartExperiment`, `Refresh`, `ConfigureNode`, `RliRequest`
- `SwitchRequest`, `DeleteVlan`, `PortRequest`, `Initialize`
- `RelayRequest` — a request whose body is passed on unread
-/

namespace OnlDaemons.Shared

open OnlDaemons.Lib

structure IAmUp extends Request where
  cp : NccpString
deriving DecidableEq, Repr

namespace IAmUp

def parse : Decoder IAmUp := do
  let r ← Request.parse
  let cp ← NccpString.get
  pure { r with cp }

def write (r : IAmUp) : Encoder := do
  r.toRequest.write
  r.cp.put

def encode (r : IAmUp) : List UInt8 := [r.toRequest.encode, r.cp.encode].flatten

def layout : Layout := requestLayout fun _ => Layout.all [NccpString.layout]

theorem write_eq (r : IAmUp) : r.write = put r.encode := by
  simp only [write, Request.write_eq, NccpString.put_eq, put_bind, encode, List.flatten_cons,
    List.flatten_nil, List.append_nil]

theorem follows_parse : Follows parse layout :=
  follows_request fun _ => NccpString.follows_get.bind fun _ => follows_pure _

end IAmUp

/-! ### Requests about an experiment -/

structure CrdRequest extends Request where
  exp : Experiment
  comp : Component
deriving DecidableEq, Repr

namespace CrdRequest

def parse : Decoder CrdRequest := do
  let r ← Request.parse
  let exp ← Experiment.get
  let comp ← Component.get
  pure { r with exp, comp }

def write (r : CrdRequest) : Encoder := do
  r.toRequest.write
  r.exp.put
  r.comp.put

def encode (r : CrdRequest) : List UInt8 :=
  [r.toRequest.encode, r.exp.encode, r.comp.encode].flatten

def wireSize (r : CrdRequest) : ℕ := r.toRequest.wireSize + r.exp.wireSize + r.comp.wireSize

@[simp] theorem length_encode (r : CrdRequest) : r.encode.length = r.wireSize := by
  simp +arith [encode, wireSize]

@[simp] theorem write_eq (r : CrdRequest) : r.write = put r.encode := by
  simp only [write, Request.write_eq, Experiment.put_eq, Component.put_eq, put_bind, encode,
    List.flatten_cons, List.flatten_nil, List.append_nil]

end CrdRequest

/-- The part all these requests share, and then what the class adds. -/
def crdRequestLayout (ls : List Layout) : Layout :=
  requestLayout fun _ => Layout.all (Experiment.layout :: Component.layout :: ls)

theorem follows_crdRequest {β : Type} {f : CrdRequest → Decoder β} {ls : List Layout}
    (hf : ∀ r, Follows (f r) (Layout.all ls)) :
    Follows (CrdRequest.parse >>= f) (crdRequestLayout ls) := by
  simp only [CrdRequest.parse, bind_assoc, pure_bind]
  exact follows_request fun r => Experiment.follows_get.bind fun exp =>
    Component.follows_get.bind fun comp => hf { r with exp, comp }

structure StartExperiment extends CrdRequest where
  ipaddr : NccpString
  init_params : List Param
  cores : UInt32
  memory : UInt32
deriving DecidableEq, Repr

namespace StartExperiment

def parse : Decoder StartExperiment := do
  let r ← CrdRequest.parse
  let ipaddr ← NccpString.get
  let init_params ← getParams []
  let cores ← getU32
  let memory ← getU32
  pure { r with ipaddr, init_params, cores, memory }

def write (r : StartExperiment) : Encoder := do
  r.toCrdRequest.write
  r.ipaddr.put
  putParams r.init_params
  putU32 r.cores
  putU32 r.memory

def encode (r : StartExperiment) : List UInt8 :=
  [r.toCrdRequest.encode, r.ipaddr.encode, encodeParams r.init_params, bytesOf 4 r.cores.toNat,
    bytesOf 4 r.memory.toNat].flatten

def layout : Layout :=
  crdRequestLayout [NccpString.layout, paramsLayout, Layout.skip 4, Layout.skip 4]

theorem write_eq (r : StartExperiment) : r.write = put r.encode := by
  simp only [write, CrdRequest.write_eq, NccpString.put_eq, putParams_eq, putU32_eq, put_bind,
    encode, List.flatten_cons, List.flatten_nil, List.append_nil]

theorem follows_parse : Follows parse layout :=
  follows_crdRequest fun _ => NccpString.follows_get.bind fun _ =>
    (follows_getParams []).bind fun _ => follows_getU32.bind fun _ => follows_getU32.bind fun _ =>
      follows_pure _

end StartExperiment

structure Refresh extends CrdRequest where
  reboot_params : List Param
deriving DecidableEq, Repr

namespace Refresh

def parse : Decoder Refresh := do
  let r ← CrdRequest.parse
  let reboot_params ← getParams []
  pure { r with reboot_params }

def write (r : Refresh) : Encoder := do
  r.toCrdRequest.write
  putParams r.reboot_params

def encode (r : Refresh) : List UInt8 :=
  [r.toCrdRequest.encode, encodeParams r.reboot_params].flatten

def layout : Layout := crdRequestLayout [paramsLayout]

theorem write_eq (r : Refresh) : r.write = put r.encode := by
  simp only [write, CrdRequest.write_eq, putParams_eq, put_bind, encode, List.flatten_cons,
    List.flatten_nil, List.append_nil]

theorem follows_parse : Follows parse layout :=
  follows_crdRequest fun _ => (follows_getParams []).bind fun _ => follows_pure _

end Refresh

structure ConfigureNode extends CrdRequest where
  node_conf : NodeInfo
deriving DecidableEq, Repr

namespace ConfigureNode

def parse : Decoder ConfigureNode := do
  let r ← CrdRequest.parse
  let node_conf ← NodeInfo.get
  pure { r with node_conf }

def write (r : ConfigureNode) : Encoder := do
  r.toCrdRequest.write
  r.node_conf.put

def encode (r : ConfigureNode) : List UInt8 :=
  [r.toCrdRequest.encode, r.node_conf.encode].flatten

def layout : Layout := crdRequestLayout [NodeInfo.layout]

theorem write_eq (r : ConfigureNode) : r.write = put r.encode := by
  simp only [write, CrdRequest.write_eq, NodeInfo.put_eq, put_bind, encode, List.flatten_cons,
    List.flatten_nil, List.append_nil]

theorem follows_parse : Follows parse layout :=
  follows_crdRequest fun _ => NodeInfo.follows_get.bind fun _ => follows_pure _

end ConfigureNode

/-- Requests of the user's interface to a component. Only the header is ever written. -/
structure RliRequest extends Request where
  id : UInt32
  port : UInt16
  /-- A second `version`, which hides that of the header. -/
  rli_version : NccpString
  params : List Param
deriving DecidableEq, Repr

namespace RliRequest

def parse : Decoder RliRequest := do
  let r ← Request.parse
  let id ← getU32
  let port ← getU16
  let rli_version ← NccpString.get
  let params ← getParams []
  pure { r with id, port, rli_version, params }

def layout : Layout := requestLayout fun _ =>
  Layout.all [Layout.skip 4, Layout.skip 2, NccpString.layout, paramsLayout]

theorem follows_parse : Follows parse layout :=
  follows_request fun _ => follows_getU32.bind fun _ => follows_getU16.bind fun _ =>
    NccpString.follows_get.bind fun _ => (follows_getParams []).bind fun _ => follows_pure _

end RliRequest

/-! ### Requests to the switch daemon -/

structure SwitchPort where
  switchid : NccpString
  port : UInt32
  is_interswitch_port : Bool
  pass_tag : Bool
deriving DecidableEq, Repr

namespace SwitchPort

def put (sp : SwitchPort) : Encoder := do
  sp.switchid.put
  putU32 sp.port
  putBool sp.is_interswitch_port
  putBool sp.pass_tag

def get : Decoder SwitchPort := do
  let switchid ← NccpString.get
  let port ← getU32
  let is_interswitch_port ← getBool
  let pass_tag ← getBool
  pure { switchid, port, is_interswitch_port, pass_tag }

def encode (sp : SwitchPort) : List UInt8 :=
  [sp.switchid.encode, bytesOf 4 sp.port.toNat, bytesOf 2 sp.is_interswitch_port.toNat,
    bytesOf 2 sp.pass_tag.toNat].flatten

def layout : Layout :=
  Layout.all [NccpString.layout, Layout.skip 4, Layout.skip 2, Layout.skip 2]

def wireSize (sp : SwitchPort) : ℕ := 8 + sp.switchid.wireSize

@[simp] theorem length_encode (sp : SwitchPort) : sp.encode.length = sp.wireSize := by
  simp +arith [encode, wireSize]

@[simp] theorem put_eq (sp : SwitchPort) : sp.put = Shared.put sp.encode := by
  simp only [put, NccpString.put_eq, putU32_eq, putBool_eq, put_bind, encode, List.flatten_cons,
    List.flatten_nil, List.append_nil]

theorem follows_get : Follows get layout :=
  NccpString.follows_get.bind fun _ => follows_getU32.bind fun _ => follows_getBool.bind fun _ =>
    follows_getBool.bind fun _ => follows_pure _

end SwitchPort

structure SwitchInfo where
  switchid : NccpString
  ports : UInt32
  management_port : UInt32
deriving DecidableEq, Repr

namespace SwitchInfo

def copy (si : SwitchInfo) : SwitchInfo := { si with switchid := si.switchid.copy }

def put (si : SwitchInfo) : Encoder := do
  si.switchid.put
  putU32 si.ports
  putU32 si.management_port

def get : Decoder SwitchInfo := do
  let switchid ← NccpString.get
  let ports ← getU32
  let management_port ← getU32
  pure { switchid, ports, management_port }

def encode (si : SwitchInfo) : List UInt8 :=
  [si.switchid.encode, bytesOf 4 si.ports.toNat, bytesOf 4 si.management_port.toNat].flatten

def layout : Layout := Layout.all [NccpString.layout, Layout.skip 4, Layout.skip 4]

def wireSize (si : SwitchInfo) : ℕ := 8 + si.switchid.wireSize

@[simp] theorem length_encode (si : SwitchInfo) : si.encode.length = si.wireSize := by
  simp +arith [encode, wireSize]

@[simp] theorem put_eq (si : SwitchInfo) : si.put = Shared.put si.encode := by
  simp only [put, NccpString.put_eq, putU32_eq, put_bind, encode, List.flatten_cons,
    List.flatten_nil, List.append_nil]

theorem follows_get : Follows get layout :=
  NccpString.follows_get.bind fun _ => follows_getU32.bind fun _ => follows_getU32.bind fun _ =>
    follows_pure _

end SwitchInfo

structure SwitchRequest extends Request where
  sessionID : NccpString
deriving DecidableEq, Repr

namespace SwitchRequest

def parse : Decoder SwitchRequest := do
  let r ← Request.parse
  let sessionID ← NccpString.get
  pure { r with sessionID }

def write (r : SwitchRequest) : Encoder := do
  r.toRequest.write
  r.sessionID.put

def encode (r : SwitchRequest) : List UInt8 := [r.toRequest.encode, r.sessionID.encode].flatten

def wireSize (r : SwitchRequest) : ℕ := r.toRequest.wireSize + r.sessionID.wireSize

@[simp] theorem length_encode (r : SwitchRequest) : r.encode.length = r.wireSize := by
  simp +arith [encode, wireSize]

@[simp] theorem write_eq (r : SwitchRequest) : r.write = put r.encode := by
  simp only [write, Request.write_eq, NccpString.put_eq, put_bind, encode, List.flatten_cons,
    List.flatten_nil, List.append_nil]

end SwitchRequest

def switchRequestLayout (ls : List Layout) : Layout :=
  requestLayout fun _ => Layout.all (NccpString.layout :: ls)

theorem follows_switchRequest {β : Type} {f : SwitchRequest → Decoder β} {ls : List Layout}
    (hf : ∀ r, Follows (f r) (Layout.all ls)) :
    Follows (SwitchRequest.parse >>= f) (switchRequestLayout ls) := by
  simp only [SwitchRequest.parse, bind_assoc, pure_bind]
  exact follows_request fun r => NccpString.follows_get.bind fun sessionID =>
    hf { r with sessionID }

structure DeleteVlan extends SwitchRequest where
  vlanid : UInt32
deriving DecidableEq, Repr

namespace DeleteVlan

def parse : Decoder DeleteVlan := do
  let r ← SwitchRequest.parse
  let vlanid ← getU32
  pure { r with vlanid }

def write (r : DeleteVlan) : Encoder := do
  r.toSwitchRequest.write
  putU32 r.vlanid

def encode (r : DeleteVlan) : List UInt8 :=
  [r.toSwitchRequest.encode, bytesOf 4 r.vlanid.toNat].flatten

def layout : Layout := switchRequestLayout [Layout.skip 4]

theorem write_eq (r : DeleteVlan) : r.write = put r.encode := by
  simp only [write, SwitchRequest.write_eq, putU32_eq, put_bind, encode, List.flatten_cons,
    List.flatten_nil, List.append_nil]

theorem follows_parse : Follows parse layout :=
  follows_switchRequest fun _ => follows_getU32.bind fun _ => follows_pure _

end DeleteVlan

/-- `add_to_vlan` and `delete_from_vlan`, which differ in their operation number only. -/
structure PortRequest extends SwitchRequest where
  vlanid : UInt32
  port : SwitchPort
deriving DecidableEq, Repr

namespace PortRequest

def parse : Decoder PortRequest := do
  let r ← SwitchRequest.parse
  let vlanid ← getU32
  let port ← SwitchPort.get
  pure { r with vlanid, port }

def write (r : PortRequest) : Encoder := do
  r.toSwitchRequest.write
  putU32 r.vlanid
  r.port.put

def encode (r : PortRequest) : List UInt8 :=
  [r.toSwitchRequest.encode, bytesOf 4 r.vlanid.toNat, r.port.encode].flatten

def layout : Layout := switchRequestLayout [Layout.skip 4, SwitchPort.layout]

theorem write_eq (r : PortRequest) : r.write = put r.encode := by
  simp only [write, SwitchRequest.write_eq, putU32_eq, SwitchPort.put_eq, put_bind, encode,
    List.flatten_cons, List.flatten_nil, List.append_nil]

theorem follows_parse : Follows parse layout :=
  follows_switchRequest fun _ => follows_getU32.bind fun _ => SwitchPort.follows_get.bind fun _ =>
    follows_pure _

end PortRequest

structure Initialize extends Request where
  switches : List SwitchInfo
deriving DecidableEq, Repr

namespace Initialize

def parse : Decoder Initialize := do
  let r ← Request.parse
  let size ← getU32
  let switches ← loop size.toNat SwitchInfo.get
  pure { r with switches := switches.map SwitchInfo.copy }

def write (r : Initialize) : Encoder := do
  r.toRequest.write
  putU32 (UInt32.ofNat r.switches.length)
  putEach SwitchInfo.put r.switches

def encode (r : Initialize) : List UInt8 :=
  [r.toRequest.encode, bytesOf 4 (UInt32.ofNat r.switches.length).toNat,
    r.switches.flatMap SwitchInfo.encode].flatten

def layout : Layout := requestLayout fun _ => Layout.word 4 fun size =>
  SwitchInfo.layout.times size

theorem write_eq (r : Initialize) : r.write = put r.encode := by
  simp only [write, Request.write_eq, putU32_eq, putEach_eq SwitchInfo.put_eq, put_bind, encode,
    List.flatten_cons, List.flatten_nil, List.append_nil]

theorem follows_parse : Follows parse layout :=
  follows_request fun r => follows_getU32_bind fun size =>
    (SwitchInfo.follows_get.loop ((Layout.takes_word (by decide) _).seq _) size.toNat).map
      (β := Initialize) fun switches => ⟨r, switches.map SwitchInfo.copy⟩

end Initialize

/-! ### Relayed requests -/

/-- A request to the daemon of a component that it passes on: `data` is the rest of the bytes
received. -/
structure RelayRequest extends Request where
  data : List UInt8
deriving DecidableEq, Repr

namespace RelayRequest

def parse (len : ℕ) : Decoder RelayRequest := do
  let r ← Request.parse
  let data ← restUpTo len
  pure { r with data }

/-- The buffer the request was received in is written from its start. -/
def write (r : RelayRequest) : Encoder := do
  modify ByteBuffer.reset
  r.toRequest.write
  putEach putU8 r.data

def encode (r : RelayRequest) : List UInt8 := [r.toRequest.encode, r.data].flatten

theorem write_apply {r : RelayRequest} {buf : ByteBuffer} :
    r.write buf = put r.encode buf.reset := by
  have hput : (do r.toRequest.write; putEach putU8 r.data : Encoder) = put r.encode := by
    rw [Request.write_eq, putEach_putU8, put_bind, encode, List.flatten_cons, List.flatten_cons,
      List.flatten_nil, List.append_nil]
  rw [← hput]
  rfl

/-- The copied bytes are those received, however many the header took of them. -/
theorem followsUpTo_parse {len : ℕ} (hlen : len < 2 ^ 32) :
    FollowsUpTo len (parse len) (requestLayout fun _ => Layout.none) := by
  have hreq : Follows (Request.parse >>= pure) (requestLayout fun _ => Layout.none) :=
    follows_request fun r => follows_pure r
  rw [bind_pure] at hreq
  exact (hreq.upTo hlen).rest RelayRequest.mk

end RelayRequest

end OnlDaemons.Shared

import OnlDaemons.Shared.OnlRequests

/-!
# Requests of the user's interface to the control daemon

They are only ever received. The requests that add a component, a cluster or a link to a
reservation are parsed as those that add them to a session.

## Main definitions

- `RlicrdRequest` — what the requests about one component share
- `AddComponentReq`, `AddLinkReq` — whose bodies depend on the version
-/

namespace OnlDaemons.Crd

open OnlDaemons.Lib OnlDaemons.Shared

/-- Also the requests that add a cluster: the description of the cluster is left unread. -/
structure RlicrdRequest extends Request where
  expinfo : ExperimentInfo
  comp : Component
deriving DecidableEq, Repr

def RlicrdRequest.parse : Decoder RlicrdRequest := do
  let r ← Request.parse
  let tmp ← NccpString.get
  let comp ← Component.get
  let expinfo := {
    ID := NccpString.ofChars tmp.getString
    expName := NccpString.empty
    userName := NccpString.empty }
  pure { r with expinfo, comp }

/-- The part these requests share, and then what the class adds. -/
def rlicrdRequestLayout (l : ℕ → Layout) : Layout := requestLayout fun version =>
  NccpString.layout.seq (Component.layout.seq (l version))

theorem follows_rlicrdRequest {β : Type} {f : RlicrdRequest → Decoder β} {l : ℕ → Layout}
    (hf : ∀ r : RlicrdRequest, Follows (f r) (l r.version.toNat)) :
    Follows (RlicrdRequest.parse >>= f) (rlicrdRequestLayout l) := by
  simp only [RlicrdRequest.parse, bind_assoc, pure_bind]
  exact follows_request fun r => NccpString.follows_get.bind fun tmp =>
    Component.follows_get.bind fun comp => hf { r with
      expinfo := ⟨NccpString.ofChars tmp.getString, NccpString.empty, NccpString.empty⟩
      comp }

structure BeginSessionReq extends Request where
  expinfo : ExperimentInfo
  password : NccpString
  num_topology_reqs : UInt32
deriving DecidableEq, Repr

namespace BeginSessionReq

def parse : Decoder BeginSessionReq := do
  let r ← Request.parse
  let expinfo ← ExperimentInfo.get
  let password ← NccpString.get
  let num_topology_reqs ← getU32
  pure { r with expinfo, password, num_topology_reqs }

def layout : Layout := requestLayout fun _ =>
  Layout.all [ExperimentInfo.layout, NccpString.layout, Layout.skip 4]

theorem follows_parse : Follows parse layout :=
  follows_request fun _ => ExperimentInfo.follows_get.bind fun _ =>
    NccpString.follows_get.bind fun _ => follows_getU32.bind fun _ => follows_pure _

end BeginSessionReq

/-- What a component asks of the machine it is put on. -/
structure Resources where
  cores : UInt32
  mem : UInt32
  num_interfaces : UInt32
  interfacebw : UInt32
deriving DecidableEq, Repr

def Resources.get : Decoder Resources := do
  let cores ← getU32
  let mem ← getU32
  let num_interfaces ← getU32
  let interfacebw ← getU32
  pure { cores, mem, num_interfaces, interfacebw }

def Resources.layout : Layout :=
  Layout.all [Layout.skip 4, Layout.skip 4, Layout.skip 4, Layout.skip 4]

theorem Resources.follows_get : Follows Resources.get Resources.layout :=
  follows_getU32.bind fun _ => follows_getU32.bind fun _ => follows_getU32.bind fun _ =>
    follows_getU32.bind fun _ => follows_pure _

/-- `session_add_component_req` and `reservation_add_component_req`. -/
structure AddComponentReq extends RlicrdRequest where
  ipaddr : NccpString
  reboot_params : List Param
  init_params : List Param
  resources : Resources
deriving DecidableEq, Repr

namespace AddComponentReq

/-- Old versions do not send the resources. -/
def parse : Decoder AddComponentReq := do
  let r ← RlicrdRequest.parse
  let ipaddr ← NccpString.get
  let reboot_params ← getParams []
  let init_params ← getParams []
  let resources ← getWhen (0x80 < r.version.toNat) Resources.get ⟨1, 1, 0, 0⟩
  pure { r with ipaddr, reboot_params, init_params, resources }

def layout : Layout := rlicrdRequestLayout fun version =>
  Layout.all [NccpString.layout, paramsLayout, paramsLayout,
    Layout.when (0x80 < version) Resources.layout]

theorem follows_parse : Follows parse layout :=
  follows_rlicrdRequest fun _ => NccpString.follows_get.bind fun _ =>
    (follows_getParams []).bind fun _ => (follows_getParams []).bind fun _ =>
      (follows_getWhen _ Resources.follows_get _).bind fun _ => follows_pure _

end AddComponentReq

/-- One end of a link. -/
structure LinkEnd where
  comp : Component
  port : UInt16
  ip : NccpString
  subnet : NccpString
  nhip : NccpString
  cap : UInt32
deriving DecidableEq, Repr

/-- Old versions do not send the capacity. -/
def LinkEnd.get (version : UInt8) : Decoder LinkEnd := do
  let comp ← Component.get
  let port ← getU16
  let ip ← NccpString.get
  let subnet ← NccpString.get
  let nhip ← NccpString.get
  let cap ← getWhen (0x80 ≤ version.toNat) getU32 0
  pure { comp, port, ip, subnet, nhip, cap }

def LinkEnd.layout (version : ℕ) : Layout :=
  Layout.all [Component.layout, Layout.skip 2, NccpString.layout, NccpString.layout,
    NccpString.layout, Layout.when (0x80 ≤ version) (Layout.skip 4)]

theorem LinkEnd.follows_get (version : UInt8) :
    Follows (LinkEnd.get version) (LinkEnd.layout version.toNat) :=
  Component.follows_get.bind fun _ => follows_getU16.bind fun _ =>
    NccpString.follows_get.bind fun _ => NccpString.follows_get.bind fun _ =>
      NccpString.follows_get.bind fun _ => (follows_getWhen _ follows_getU32 _).bind fun _ =>
        follows_pure _

/-- `session_add_link_req` and `reservation_add_link_req`. -/
structure AddLinkReq extends RlicrdRequest where
  source : LinkEnd
  target : LinkEnd
  bandwidth : UInt32
deriving DecidableEq, Repr

namespace AddLinkReq

def parse : Decoder AddLinkReq := do
  let r ← RlicrdRequest.parse
  let source ← LinkEnd.get r.version
  let target ← LinkEnd.get r.version
  let bandwidth ← getU32
  pure { r with source, target, bandwidth }

def layout : Layout := rlicrdRequestLayout fun version =>
  Layout.all [LinkEnd.layout version, LinkEnd.layout version, Layout.skip 4]

theorem follows_parse : Follows parse layout :=
  follows_rlicrdRequest fun r => (LinkEnd.follows_get r.version).bind fun _ =>
    (LinkEnd.follows_get r.version).bind fun _ => follows_getU32.bind fun _ => follows_pure _

end AddLinkReq

/-- `commit_session_req`, `clear_session_req` and `commit_reservation_req`, and
`get_plugins_req` of the port processor: one string. -/
structure StringReq extends Request where
  eid : NccpString
deriving DecidableEq, Repr

namespace StringReq

def parse : Decoder StringReq := do
  let r ← Request.parse
  let eid ← NccpString.get
  pure { r with eid }

def layout : Layout := requestLayout fun _ => Layout.all [NccpString.layout]

theorem follows_parse : Follows parse layout :=
  follows_request fun _ => NccpString.follows_get.bind fun _ => follows_pure _

end StringReq

structure BeginReservationReq extends Request where
  username : NccpString
  password : NccpString
  earlyStart : NccpString
  lateStart : NccpString
  duration : UInt32
  num_topology_reqs : UInt32
deriving DecidableEq, Repr

namespace BeginReservationReq

def parse : Decoder BeginReservationReq := do
  let r ← Request.parse
  let username ← NccpString.get
  let password ← NccpString.get
  let earlyStart ← NccpString.get
  let lateStart ← NccpString.get
  let duration ← getU32
  let num_topology_reqs ← getU32
  pure { r with username, password, earlyStart, lateStart, duration, num_topology_reqs }

def layout : Layout := requestLayout fun _ =>
  Layout.all [NccpString.layout, NccpString.layout, NccpString.layout, NccpString.layout,
    Layout.skip 4, Layout.skip 4]

theorem follows_parse : Follows parse layout :=
  follows_request fun _ => NccpString.follows_get.bind fun _ => NccpString.follows_get.bind fun _ =>
    NccpString.follows_get.bind fun _ => NccpString.follows_get.bind fun _ =>
      follows_getU32.bind fun _ => follows_getU32.bind fun _ => follows_pure _

end BeginReservationReq

structure ExtendReservationReq extends Request where
  username : NccpString
  password : NccpString
  extend_mins : UInt32
deriving DecidableEq, Repr

namespace ExtendReservationReq

def parse : Decoder ExtendReservationReq := do
  let r ← Request.parse
  let username ← NccpString.get
  let password ← NccpString.get
  let extend_mins ← getU32
  pure { r with username, password, extend_mins }

def layout : Layout := requestLayout fun _ =>
  Layout.all [NccpString.layout, NccpString.layout, Layout.skip 4]

theorem follows_parse : Follows parse layout :=
  follows_request fun _ => NccpString.follows_get.bind fun _ => NccpString.follows_get.bind fun _ =>
    follows_getU32.bind fun _ => follows_pure _

end ExtendReservationReq

/-- `cancel_reservation_req` and `get_observable_req`: a user's name and password. -/
structure UserReq extends Request where
  username : NccpString
  password : NccpString
deriving DecidableEq, Repr

namespace UserReq

def parse : Decoder UserReq := do
  let r ← Request.parse
  let username ← NccpString.get
  let password ← NccpString.get
  pure { r with username, password }

def layout : Layout := requestLayout fun _ => Layout.all [NccpString.layout, NccpString.layout]

theorem follows_parse : Follows parse layout :=
  follows_request fun _ => NccpString.follows_get.bind fun _ => NccpString.follows_get.bind fun _ =>
    follows_pure _

end UserReq

structure AddObserverReq extends RlicrdRequest where
  username : NccpString
deriving DecidableEq, Repr

namespace AddObserverReq

def parse : Decoder AddObserverReq := do
  let r ← RlicrdRequest.parse
  let username ← NccpString.get
  pure { r with username }

def layout : Layout := rlicrdRequestLayout fun _ => Layout.all [NccpString.layout]

theorem follows_parse : Follows parse layout :=
  follows_rlicrdRequest fun _ => NccpString.follows_get.bind fun _ => follows_pure _

end AddObserverReq

structure ObserveData where
  sid : NccpString
  observer : NccpString
  observee : NccpString
  password : NccpString
  accept : Bool
  proxy_sid : UInt32
deriving DecidableEq, Repr

namespace ObserveData

/-- The password is read but not written. -/
def put (od : ObserveData) : Encoder := do
  od.sid.put
  od.observer.put
  od.observee.put
  putFlag od.accept
  putU32 od.proxy_sid

def get : Decoder ObserveData := do
  let sid ← NccpString.get
  let observer ← NccpString.get
  let observee ← NccpString.get
  let password ← NccpString.get
  let accept ← getFlag
  let proxy_sid ← getU32
  pure { sid, observer, observee, password, accept, proxy_sid }

def encode (od : ObserveData) : List UInt8 :=
  [od.sid.encode, od.observer.encode, od.observee.encode, bytesOf 1 od.accept.toNat,
    bytesOf 4 od.proxy_sid.toNat].flatten

def wireSize (od : ObserveData) : ℕ :=
  5 + od.sid.wireSize + od.observer.wireSize + od.observee.wireSize

@[simp] theorem length_encode (od : ObserveData) : od.encode.length = od.wireSize := by
  simp +arith [encode, wireSize]

def layout : Layout :=
  Layout.all [NccpString.layout, NccpString.layout, NccpString.layout, NccpString.layout,
    Layout.skip 1, Layout.skip 4]

@[simp] theorem put_eq (od : ObserveData) : od.put = Shared.put od.encode := by
  simp only [put, NccpString.put_eq, putFlag_eq, putU32_eq, put_bind, encode, List.flatten_cons,
    List.flatten_nil, List.append_nil]

theorem follows_get : Follows get layout :=
  NccpString.follows_get.bind fun _ => NccpString.follows_get.bind fun _ =>
    NccpString.follows_get.bind fun _ => NccpString.follows_get.bind fun _ =>
      follows_getFlag.bind fun _ => follows_getU32.bind fun _ => follows_pure _

end ObserveData

structure ObserveReq extends Request where
  data : ObserveData
deriving DecidableEq, Repr

namespace ObserveReq

def parse : Decoder ObserveReq := do
  let r ← Request.parse
  let data ← ObserveData.get
  pure { r with data }

def layout : Layout := requestLayout fun _ => Layout.all [ObserveData.layout]

theorem follows_parse : Follows parse layout :=
  follows_request fun _ => ObserveData.follows_get.bind fun _ => follows_pure _

end ObserveReq

end OnlDaemons.Crd

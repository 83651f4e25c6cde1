import OnlDaemons.Crd.CrdRequests

/-!
# Responses to the user's interface

They are only ever sent.

## Main definitions

- `SessionResponse`, `ReservationResponse`, `RlicrdResponse`, `ComponentResponse`,
  `ClusterResponse`, `ObservableResponse`, `ObserveResponse`
- `GetPluginsResp` — the plugins of the port processor
-/

namespace OnlDaemons.Crd

open OnlDaemons.Lib OnlDaemons.Shared

structure SessionResponse extends Response where
  status : UInt32
  id : NccpString
  status_msg : NccpString
  error_code : UInt32
deriving DecidableEq, Repr

namespace SessionResponse

def write (r : SessionResponse) : Encoder := do
  r.toResponse.write
  putU32 r.status
  r.id.put
  r.status_msg.put
  putU32 r.error_code

def encode (r : SessionResponse) : List UInt8 :=
  [r.toResponse.encode, bytesOf 4 r.status.toNat, r.id.encode, r.status_msg.encode,
    bytesOf 4 r.error_code.toNat].flatten

theorem write_eq (r : SessionResponse) : r.write = put r.encode := by
  simp only [write, Response.write_eq, putU32_eq, NccpString.put_eq, put_bind, encode,
    List.flatten_cons, List.flatten_nil, List.append_nil]

end SessionResponse

structure ReservationResponse extends Response where
  status : UInt32
  status_msg : NccpString
  error_code : UInt32
  start_time : NccpString
deriving DecidableEq, Repr

namespace ReservationResponse

def write (r : ReservationResponse) : Encoder := do
  r.toResponse.write
  putU32 r.status
  r.status_msg.put
  putU32 r.error_code
  r.start_time.put

def encode (r : ReservationResponse) : List UInt8 :=
  [r.toResponse.encode, bytesOf 4 r.status.toNat, r.status_msg.encode,
    bytesOf 4 r.error_code.toNat, r.start_time.encode].flatten

theorem write_eq (r : ReservationResponse) : r.write = put r.encode := by
  simp only [write, Response.write_eq, putU32_eq, NccpString.put_eq, put_bind, encode,
    List.flatten_cons, List.flatten_nil, List.append_nil]

end ReservationResponse

structure RlicrdResponse extends Response where
  status : UInt32
  exp : Experiment
  comp : Component
deriving DecidableEq, Repr

namespace RlicrdResponse

def write (r : RlicrdResponse) : Encoder := do
  r.toResponse.write
  putU32 r.status
  r.exp.put
  r.comp.put

def encode (r : RlicrdResponse) : List UInt8 :=
  [r.toResponse.encode, bytesOf 4 r.status.toNat, r.exp.encode, r.comp.encode].flatten

def wireSize (r : RlicrdResponse) : ℕ :=
  4 + r.toResponse.wireSize + r.exp.wireSize + r.comp.wireSize

@[simp] theorem length_encode (r : RlicrdResponse) : r.encode.length = r.wireSize := by
  simp +arith [encode, wireSize]

@[simp] theorem write_eq (r : RlicrdResponse) : r.write = put r.encode := by
  simp only [write, Response.write_eq, putU32_eq, Experiment.put_eq, Component.put_eq, put_bind,
    encode, List.flatten_cons, List.flatten_nil, List.append_nil]

end RlicrdResponse

/-- The name of the machine is only sent to new versions, by the version of the request. -/
structure ComponentResponse extends RlicrdResponse where
  request_version : UInt8
  cp : NccpString
  cp_port : UInt32
  vmname : NccpString
deriving DecidableEq, Repr

namespace ComponentResponse

def write (r : ComponentResponse) : Encoder := do
  r.toRlicrdResponse.write
  r.cp.put
  putU32 r.cp_port
  putWhen (0x80 < r.request_version.toNat) r.vmname.put

def encode (r : ComponentResponse) : List UInt8 :=
  [r.toRlicrdResponse.encode, r.cp.encode, bytesOf 4 r.cp_port.toNat,
    if 0x80 < r.request_version.toNat then r.vmname.encode else []].flatten

theorem write_eq (r : ComponentResponse) : r.write = put r.encode := by
  simp only [write, RlicrdResponse.write_eq, NccpString.put_eq, putU32_eq, putWhen_eq _ rfl,
    put_bind, encode, List.flatten_cons, List.flatten_nil, List.append_nil, decide_eq_true_eq]

end ComponentResponse

structure ClusterResponse extends RlicrdResponse where
  cluster_index : UInt32
deriving DecidableEq, Repr

namespace ClusterResponse

def write (r : ClusterResponse) : Encoder := do
  r.toRlicrdResponse.write
  putU32 r.cluster_index

def encode (r : ClusterResponse) : List UInt8 :=
  [r.toRlicrdResponse.encode, bytesOf 4 r.cluster_index.toNat].flatten

theorem write_eq (r : ClusterResponse) : r.write = put r.encode := by
  simp only [write, RlicrdResponse.write_eq, putU32_eq, put_bind, encode, List.flatten_cons,
    List.flatten_nil, List.append_nil]

end ClusterResponse

/-- An identifier and a user for each session that can be observed. -/
structure ObservableResponse extends Response where
  status : UInt32
  status_msg : NccpString
  error_code : UInt32
  sess_list : List (NccpString × NccpString)
deriving DecidableEq, Repr

namespace ObservableResponse

def putSession (sess : NccpString × NccpString) : Encoder := do
  sess.1.put
  sess.2.put

def write (r : ObservableResponse) : Encoder := do
  r.toResponse.write
  putU32 r.status
  r.status_msg.put
  putU32 r.error_code
  putU32 (UInt32.ofNat r.sess_list.length)
  putEach putSession r.sess_list

def encodeSession (sess : NccpString × NccpString) : List UInt8 := sess.1.encode ++ sess.2.encode

def encode (r : ObservableResponse) : List UInt8 :=
  [r.toResponse.encode, bytesOf 4 r.status.toNat, r.status_msg.encode,
    bytesOf 4 r.error_code.toNat, bytesOf 4 (UInt32.ofNat r.sess_list.length).toNat,
    r.sess_list.flatMap encodeSession].flatten

theorem putSession_eq (sess : NccpString × NccpString) :
    putSession sess = put (encodeSession sess) := by
  rw [putSession, NccpString.put_eq, NccpString.put_eq, put_bind, encodeSession]

theorem write_eq (r : ObservableResponse) : r.write = put r.encode := by
  simp only [write, Response.write_eq, putU32_eq, NccpString.put_eq, putEach_eq putSession_eq,
    put_bind, encode, List.flatten_cons, List.flatten_nil, List.append_nil]

end ObservableResponse

structure ObserveResponse extends Response where
  status : UInt32
  status_msg : NccpString
  error_code : UInt32
  data : ObserveData
deriving DecidableEq, Repr

namespace ObserveResponse

def write (r : ObserveResponse) : Encoder := do
  r.toResponse.write
  putU32 r.status
  r.status_msg.put
  putU32 r.error_code
  r.data.put

def encode (r : ObserveResponse) : List UInt8 :=
  [r.toResponse.encode, bytesOf 4 r.status.toNat, r.status_msg.encode,
    bytesOf 4 r.error_code.toNat, r.data.encode].flatten

theorem write_eq (r : ObserveResponse) : r.write = put r.encode := by
  simp only [write, Response.write_eq, putU32_eq, NccpString.put_eq, ObserveData.put_eq, put_bind,
    encode, List.flatten_cons, List.flatten_nil, List.append_nil]

end ObserveResponse

/-- A label and a path for each plugin. -/
structure GetPluginsResp extends Response where
  status : UInt32
  plugins : List (NccpString × NccpString)
deriving DecidableEq, Repr

namespace GetPluginsResp

def putPlugin (plugin : NccpString × NccpString) : Encoder := do
  plugin.1.put
  putU32 0
  plugin.2.put

def write (r : GetPluginsResp) : Encoder := do
  r.toResponse.write
  putU32 r.status
  putU32 (UInt32.ofNat r.plugins.length)
  putEach putPlugin r.plugins

def encodePlugin (plugin : NccpString × NccpString) : List UInt8 :=
  [plugin.1.encode, bytesOf 4 0, plugin.2.encode].flatten

def encode (r : GetPluginsResp) : List UInt8 :=
  [r.toResponse.encode, bytesOf 4 r.status.toNat,
    bytesOf 4 (UInt32.ofNat r.plugins.length).toNat, r.plugins.flatMap encodePlugin].flatten

theorem putPlugin_eq (plugin : NccpString × NccpString) :
    putPlugin plugin = put (encodePlugin plugin) := by
  simp only [putPlugin, NccpString.put_eq, putU32_eq, put_bind, encodePlugin, List.flatten_cons,
    List.flatten_nil, List.append_nil]
  rfl

theorem write_eq (r : GetPluginsResp) : r.write = put r.encode := by
  simp only [write, Response.write_eq, putU32_eq, putEach_eq putPlugin_eq, put_bind, encode,
    List.flatten_cons, List.flatten_nil, List.append_nil]

end GetPluginsResp

end OnlDaemons.Crd

import OnlDaemons.Shared.ByteBuffer
import Mathlib.Data.List.TakeWhile

/-!
# The types of the wire format

The values that messages carry, each with its own write and read operator. `encode` lists the
bytes the write operator copies and `layout` what the read operator takes; the lemmas beside
them tie all four together.

## Main definitions

- `NccpString`, `Param`, `Component`, `Experiment`, `NodeInfo`, `Rendezvous` — the values
- `getParams` — reading a list or vector of parameters
-/

namespace OnlDaemons.Shared

open OnlDaemons.Lib

/-! ### Strings -/

/-- The characters before the terminator. The length field has one byte. -/
structure NccpString where
  nccp_str : List UInt8
  length_le : nccp_str.length ≤ 255
deriving DecidableEq, Repr

namespace NccpString

def empty : NccpString := ⟨[], Nat.zero_le 255⟩

/-- At most 255 characters are kept. -/
def ofChars (cs : List UInt8) : NccpString := ⟨cs.take 255, List.length_take_le 255 cs⟩

/-- The characters up to the first NUL. -/
def getString (s : NccpString) : List UInt8 := s.nccp_str.takeWhile (· != 0)

/-- The copy constructor copies with `strncpy`, which stops at a NUL and pads with more. -/
def copy (s : NccpString) : NccpString :=
  ofChars (s.getString.rightpad s.nccp_str.length 0)

def put (s : NccpString) : Encoder := do
  putU32 (UInt32.ofNat s.nccp_str.length)
  putEach putChar s.nccp_str

def get : Decoder NccpString := do
  let l ← getU32
  let length := if 255 < l.toNat then 255 else l.toNat
  let cs ← loop length getChar
  pure (ofChars cs)

def encode (s : NccpString) : List UInt8 := bytesOf 4 s.nccp_str.length ++ s.nccp_str

/-- Lengths above 255 count as 255. -/
def layout : Layout := Layout.word 4 fun l => Layout.skip (if 255 < l then 255 else l)

theorem ofChars_nccp_str (s : NccpString) : ofChars s.nccp_str = s := by
  simp only [ofChars, List.take_of_length_le s.length_le]

theorem copy_of_nul_free {s : NccpString} (h : 0 ∉ s.nccp_str) : s.copy = s := by
  have hall : s.getString = s.nccp_str := by
    rw [getString, List.takeWhile_eq_self_iff]
    intro c hc
    rw [bne_iff_ne]
    rintro rfl
    exact h hc
  rw [copy, hall, List.rightpad, Nat.sub_self, List.replicate_zero, List.append_nil,
    ofChars_nccp_str]

/-- The bytes a string takes on the wire. -/
def wireSize (s : NccpString) : ℕ := 4 + s.nccp_str.length

@[simp] theorem length_encode (s : NccpString) : s.encode.length = s.wireSize := by
  rw [encode, List.length_append, length_bytesOf, wireSize]

theorem toNat_length (s : NccpString) :
    (UInt32.ofNat s.nccp_str.length).toNat = s.nccp_str.length :=
  UInt32.toNat_ofNat_of_lt' (Nat.lt_of_le_of_lt s.length_le (by decide))

@[simp] theorem put_eq (s : NccpString) : s.put = Shared.put s.encode := by
  rw [put, putU32_eq, putEach_eq putChar_eq, put_bind, encode, toNat_length,
    List.flatMap_singleton']

theorem decodes_get (s : NccpString) : Decodes get s.encode s := by
  have hloop := decodes_loop s.nccp_str (g := id) (fun c _ => decodes_getChar c)
  rw [List.flatMap_singleton', List.map_id] at hloop
  have hcs := hloop.map ofChars
  rw [ofChars_nccp_str] at hcs
  have hlen : (if 255 < (UInt32.ofNat s.nccp_str.length).toNat then 255
      else (UInt32.ofNat s.nccp_str.length).toNat) = s.nccp_str.length := by
    rw [toNat_length, if_neg (Nat.not_lt.mpr s.length_le)]
  have hl := decodes_getU32 (UInt32.ofNat s.nccp_str.length)
  rw [toNat_length] at hl
  refine hl.bind ?_
  rw [hlen]
  exact hcs

theorem follows_get : Follows get layout :=
  follows_getU32_bind fun l => by
    have h := (follows_getU8.loop (Layout.takes_skip le_rfl)
      (if 255 < l.toNat then 255 else l.toNat)).map ofChars
    rw [Layout.times_skip] at h
    exact h

end NccpString

/-! ### Parameters -/

def unknown_param : UInt16 := 0

def int_param : UInt16 := 1

def double_param : UInt16 := 2

def bool_param : UInt16 := 3

def string_param : UInt16 := 4

def max_param_type : UInt16 := string_param

/-- A parameter and the payload of its type; the fields of the other types keep their defaults.
A double is sent and kept as the text `atof` is applied to. -/
inductive Param where
  | unknown
  | int (int_val : UInt32)
  | double (string_val : NccpString)
  | bool (bool_val : Bool)
  | string (string_val : NccpString)
deriving DecidableEq, Repr

namespace Param

def copy : Param → Param
  | double string_val => double string_val.copy
  | string string_val => string string_val.copy
  | p => p

def put : Param → Encoder
  | unknown => putU16 unknown_param
  | int int_val => do
    putU16 int_param
    putU32 int_val
  | double string_val => do
    putU16 double_param
    string_val.put
  | bool bool_val => do
    putU16 bool_param
    putFlag bool_val
  | string string_val => do
    putU16 string_param
    string_val.put

def get : Decoder Param := do
  let tag ← getU16
  let pt := if max_param_type < tag then unknown_param else tag
  if pt = int_param then do
    let int_val ← getU32
    pure (int int_val)
  else if pt = double_param then do
    let string_val ← NccpString.get
    pure (double string_val)
  else if pt = bool_param then do
    let bool_val ← getFlag
    pure (bool bool_val)
  else if pt = string_param then do
    let string_val ← NccpString.get
    pure (string string_val)
  else pure unknown

def encode : Param → List UInt8
  | unknown => bytesOf 2 unknown_param.toNat
  | int int_val => bytesOf 2 int_param.toNat ++ bytesOf 4 int_val.toNat
  | double string_val => bytesOf 2 double_param.toNat ++ string_val.encode
  | bool bool_val => bytesOf 2 bool_param.toNat ++ bytesOf 1 bool_val.toNat
  | string string_val => bytesOf 2 string_param.toNat ++ string_val.encode

/-- Tags above the largest type are read as the unknown type, which has no payload. -/
def layout : Layout := Layout.word 2 fun
  | 1 => Layout.skip 4
  | 2 => NccpString.layout
  | 3 => Layout.skip 1
  | 4 => NccpString.layout
  | _ => Layout.none

def wireSize : Param → ℕ
  | unknown => 2
  | int _ => 6
  | double string_val => 2 + string_val.wireSize
  | bool _ => 3
  | string string_val => 2 + string_val.wireSize

/-- The strings of a value. -/
def strings : Param → List NccpString
  | double string_val => [string_val]
  | string string_val => [string_val]
  | _ => []

theorem copy_of_nul_free {p : Param} (h : ∀ s ∈ p.strings, 0 ∉ s.nccp_str) : p.copy = p := by
  cases p with
  | double s => rw [copy, NccpString.copy_of_nul_free (h s List.mem_cons_self)]
  | string s => rw [copy, NccpString.copy_of_nul_free (h s List.mem_cons_self)]
  | _ => rfl

@[simp] theorem length_encode (p : Param) : p.encode.length = p.wireSize := by
  cases p <;>
    simp only [encode, List.length_append, length_bytesOf, NccpString.length_encode, wireSize]

@[simp] theorem put_eq (p : Param) : p.put = Shared.put p.encode := by
  cases p <;> simp only [put, putU16_eq, putU32_eq, putFlag_eq, NccpString.put_eq, put_bind, encode]

theorem decodes_get (p : Param) : Decodes get p.encode p := by
  cases p with
  | unknown =>
    have h : Decodes get (unknown.encode ++ []) unknown :=
      (decodes_getU16 unknown_param).bind (decodes_pure unknown)
    rwa [List.append_nil] at h
  | int v => exact (decodes_getU16 int_param).bind ((decodes_getU32 v).map int)
  | double s => exact (decodes_getU16 double_param).bind (s.decodes_get.map double)
  | bool b => exact (decodes_getU16 bool_param).bind ((decodes_getFlag b).map bool)
  | string s => exact (decodes_getU16 string_param).bind (s.decodes_get.map string)

theorem follows_get : Follows get layout :=
  follows_getU16_bind fun tag => by
    by_cases hmax : max_param_type < tag
    · rw [if_pos hmax]
      obtain ⟨n, hn⟩ : ∃ n, tag.toNat = n + 5 := Nat.exists_eq_add_of_le' hmax
      rw [hn]
      exact follows_pure unknown
    · have hle : tag.toNat ≤ 4 := Nat.le_of_not_lt hmax
      have htag : tag = 0 ∨ tag = 1 ∨ tag = 2 ∨ tag = 3 ∨ tag = 4 := by
        simp only [← UInt16.toNat_inj, UInt16.reduceToNat]
        omega
      rcases htag with rfl | rfl | rfl | rfl | rfl
      · exact follows_pure unknown
      · exact follows_getU32.map int
      · exact NccpString.follows_get.map double
      · exact follows_getFlag.map bool
      · exact NccpString.follows_get.map string

end Param

/-- Writing a list of parameters. -/
def putParams (plist : List Param) : Encoder := do
  putU32 (UInt32.ofNat plist.length)
  putEach Param.put plist

/-- Writing a vector of parameters, whose loop is bounded by the count it has sent. -/
def putParamVector (pvec : List Param) : Encoder := do
  let num_params := UInt32.ofNat pvec.length
  putU32 num_params
  putEach Param.put (pvec.take num_params.toNat)

/-- Reading a list or a vector of parameters: both append copies of what they read. -/
def getParams (plist : List Param) : Decoder (List Param) := do
  let num_params ← getU32
  let ps ← loop num_params.toNat Param.get
  pure (plist ++ ps.map Param.copy)

def encodeParams (plist : List Param) : List UInt8 :=
  bytesOf 4 (UInt32.ofNat plist.length).toNat ++ plist.flatMap Param.encode

def paramsSize (plist : List Param) : ℕ := 4 + (plist.map Param.wireSize).sum

theorem length_encodeParams (plist : List Param) :
    (encodeParams plist).length = paramsSize plist := by
  rw [encodeParams, List.length_append, length_bytesOf, List.length_flatMap, paramsSize]
  simp only [Param.length_encode]

def paramsLayout : Layout := Layout.word 4 fun num_params => Param.layout.times num_params

@[simp] theorem putParams_eq (plist : List Param) : putParams plist = put (encodeParams plist) := by
  rw [putParams, putU32_eq, putEach_eq Param.put_eq, put_bind, encodeParams]

theorem toNat_length_params {plist : List Param} (h : plist.length ≤ 255) :
    (UInt32.ofNat plist.length).toNat = plist.length :=
  UInt32.toNat_ofNat_of_lt' (Nat.lt_of_le_of_lt h (by decide))

theorem putParamVector_eq {pvec : List Param} (h : pvec.length ≤ 255) :
    putParamVector pvec = put (encodeParams pvec) := by
  rw [← putParams_eq, putParamVector, putParams]
  simp only [toNat_length_params h, List.take_length]

theorem decodes_getParams {plist : List Param} (h : plist.length ≤ 255)
    (hnul : ∀ p ∈ plist, ∀ s ∈ p.strings, 0 ∉ s.nccp_str) : Decodes (getParams []) (encodeParams plist) plist := by
  have hcopy : plist.map Param.copy = plist :=
    (List.map_congr_left (g := id) (fun p hp => Param.copy_of_nul_free (hnul p hp))).trans
      (List.map_id plist)
  have hn := decodes_getU32 (UInt32.ofNat plist.length)
  have hps := decodes_loop plist (g := id) (fun p _ => p.decodes_get)
  rw [List.map_id] at hps
  have hrest := hps.map (fun ps => [] ++ ps.map Param.copy)
  rw [List.nil_append, hcopy] at hrest
  refine hn.bind ?_
  rw [toNat_length_params h]
  exact hrest

theorem follows_getParams (plist : List Param) : Follows (getParams plist) paramsLayout :=
  follows_getU32_bind fun num_params =>
    (Param.follows_get.loop (Layout.takes_word (by decide) _) num_params.toNat).map _

/-! ### Experiments and components -/

structure ExperimentInfo where
  ID : NccpString
  expName : NccpString
  userName : NccpString
deriving DecidableEq, Repr

namespace ExperimentInfo

def put (eid : ExperimentInfo) : Encoder := do
  eid.ID.put
  eid.expName.put
  eid.userName.put

def get : Decoder ExperimentInfo := do
  let ID ← NccpString.get
  let expName ← NccpString.get
  let userName ← NccpString.get
  pure { ID, expName, userName }

def encode (eid : ExperimentInfo) : List UInt8 :=
  [eid.ID.encode, eid.expName.encode, eid.userName.encode].flatten

def layout : Layout := Layout.all [NccpString.layout, NccpString.layout, NccpString.layout]

def wireSize (eid : ExperimentInfo) : ℕ :=
  eid.ID.wireSize + eid.expName.wireSize + eid.userName.wireSize

def strings (eid : ExperimentInfo) : List NccpString := [eid.ID, eid.expName, eid.userName]

@[simp] theorem length_encode (eid : ExperimentInfo) : eid.encode.length = eid.wireSize := by
  simp +arith [encode, wireSize]

@[simp] theorem put_eq (eid : ExperimentInfo) : eid.put = Shared.put eid.encode := by
  simp only [put, NccpString.put_eq, put_bind, encode, List.flatten_cons, List.flatten_nil,
    List.append_nil]

theorem decodes_get (eid : ExperimentInfo) : Decodes get eid.encode eid :=
  eid.ID.decodes_get.bind (eid.expName.decodes_get.bind
    (eid.userName.decodes_get.bind (decodes_pure _)))

theorem follows_get : Follows get layout :=
  NccpString.follows_get.bind fun _ => NccpString.follows_get.bind fun _ =>
    NccpString.follows_get.bind fun _ => follows_pure _

end ExperimentInfo

structure Component where
  type : NccpString
  id : UInt32
  parent : UInt32
  label : NccpString
  cp : NccpString
  is_router : Bool
deriving DecidableEq, Repr

namespace Component

def put (c : Component) : Encoder := do
  c.type.put
  putU32 c.id
  putU32 c.parent
  c.label.put
  c.cp.put
  putFlag c.is_router

def get : Decoder Component := do
  let type ← NccpString.get
  let id ← getU32
  let parent ← getU32
  let label ← NccpString.get
  let cp ← NccpString.get
  let is_router ← getFlag
  pure { type, id, parent, label, cp, is_router }

def encode (c : Component) : List UInt8 :=
  [c.type.encode, bytesOf 4 c.id.toNat, bytesOf 4 c.parent.toNat, c.label.encode, c.cp.encode,
    bytesOf 1 c.is_router.toNat].flatten

def layout : Layout :=
  Layout.all [NccpString.layout, Layout.skip 4, Layout.skip 4, NccpString.layout,
    NccpString.layout, Layout.skip 1]

def wireSize (c : Component) : ℕ :=
  9 + c.type.wireSize + c.label.wireSize + c.cp.wireSize

def strings (c : Component) : List NccpString := [c.type, c.label, c.cp]

@[simp] theorem length_encode (c : Component) : c.encode.length = c.wireSize := by
  simp +arith [encode, wireSize]

@[simp] theorem put_eq (c : Component) : c.put = Shared.put c.encode := by
  simp only [put, NccpString.put_eq, putU32_eq, putFlag_eq, put_bind, encode, List.flatten_cons,
    List.flatten_nil, List.append_nil]

theorem decodes_get (c : Component) : Decodes get c.encode c :=
  c.type.decodes_get.bind ((decodes_getU32 c.id).bind ((decodes_getU32 c.parent).bind
    (c.label.decodes_get.bind (c.cp.decodes_get.bind
      ((decodes_getFlag c.is_router).bind (decodes_pure _))))))

theorem follows_get : Follows get layout :=
  NccpString.follows_get.bind fun _ => follows_getU32.bind fun _ => follows_getU32.bind fun _ =>
    NccpString.follows_get.bind fun _ => NccpString.follows_get.bind fun _ =>
      follows_getFlag.bind fun _ => follows_pure _

end Component

structure Experiment where
  addr : NccpString
  port : UInt32
  info : ExperimentInfo
deriving DecidableEq, Repr

namespace Experiment

def put (e : Experiment) : Encoder := do
  e.addr.put
  putU32 e.port
  e.info.put

def get : Decoder Experiment := do
  let addr ← NccpString.get
  let port ← getU32
  let info ← ExperimentInfo.get
  pure { addr, port, info }

def encode (e : Experiment) : List UInt8 :=
  [e.addr.encode, bytesOf 4 e.port.toNat, e.info.encode].flatten

def layout : Layout := Layout.all [NccpString.layout, Layout.skip 4, ExperimentInfo.layout]

def wireSize (e : Experiment) : ℕ :=
  4 + e.addr.wireSize + e.info.wireSize

def strings (e : Experiment) : List NccpString := e.addr :: e.info.strings

@[simp] theorem length_encode (e : Experiment) : e.encode.length = e.wireSize := by
  simp +arith [encode, wireSize]

@[simp] theorem put_eq (e : Experiment) : e.put = Shared.put e.encode := by
  simp only [put, NccpString.put_eq, putU32_eq, ExperimentInfo.put_eq, put_bind, encode,
    List.flatten_cons, List.flatten_nil, List.append_nil]

theorem decodes_get (e : Experiment) : Decodes get e.encode e :=
  e.addr.decodes_get.bind ((decodes_getU32 e.port).bind
    (e.info.decodes_get.bind (decodes_pure _)))

theorem follows_get : Follows get layout :=
  NccpString.follows_get.bind fun _ => follows_getU32.bind fun _ =>
    ExperimentInfo.follows_get.bind fun _ => follows_pure _

end Experiment

/-! ### Interfaces of a node -/

structure NhInfo where
  ipaddr : NccpString
  ntype : NccpString
  is_router : Bool
  mac_addr : NccpString
  dev_ipaddr : NccpString
deriving DecidableEq, Repr

namespace NhInfo

def put (ni : NhInfo) : Encoder := do
  ni.ipaddr.put
  ni.ntype.put
  putBool ni.is_router
  ni.mac_addr.put
  ni.dev_ipaddr.put

def get : Decoder NhInfo := do
  let ipaddr ← NccpString.get
  let ntype ← NccpString.get
  let is_router ← getBool
  let mac_addr ← NccpString.get
  let dev_ipaddr ← NccpString.get
  pure { ipaddr, ntype, is_router, mac_addr, dev_ipaddr }

def encode (ni : NhInfo) : List UInt8 :=
  [ni.ipaddr.encode, ni.ntype.encode, bytesOf 2 ni.is_router.toNat, ni.mac_addr.encode,
    ni.dev_ipaddr.encode].flatten

def layout : Layout :=
  Layout.all [NccpString.layout, NccpString.layout, Layout.skip 2, NccpString.layout,
    NccpString.layout]

def wireSize (ni : NhInfo) : ℕ :=
  2 + ni.ipaddr.wireSize + ni.ntype.wireSize + ni.mac_addr.wireSize + ni.dev_ipaddr.wireSize

def strings (ni : NhInfo) : List NccpString := 
  [ni.ipaddr, ni.ntype, ni.mac_addr, ni.dev_ipaddr]

@[simp] theorem length_encode (ni : NhInfo) : ni.encode.length = ni.wireSize := by
  simp +arith [encode, wireSize]

@[simp] theorem put_eq (ni : NhInfo) : ni.put = Shared.put ni.encode := by
  simp only [put, NccpString.put_eq, putBool_eq, put_bind, encode, List.flatten_cons,
    List.flatten_nil, List.append_nil]

theorem decodes_get (ni : NhInfo) : Decodes get ni.encode ni :=
  ni.ipaddr.decodes_get.bind (ni.ntype.decodes_get.bind
    ((decodes_getBool ni.is_router).bind (ni.mac_addr.decodes_get.bind
      (ni.dev_ipaddr.decodes_get.bind (decodes_pure _)))))

theorem follows_get : Follows get layout :=
  NccpString.follows_get.bind fun _ => NccpString.follows_get.bind fun _ =>
    follows_getBool.bind fun _ => NccpString.follows_get.bind fun _ =>
      NccpString.follows_get.bind fun _ => follows_pure _

end NhInfo

structure NodeInfo where
  ipaddr : NccpString
  subnet : NccpString
  port : UInt32
  nexthop : NhInfo
  real_port : UInt32
  vlanid : UInt32
  bandwidth : UInt32
  dev_ipaddr : NccpString
deriving DecidableEq, Repr

namespace NodeInfo

def put (ni : NodeInfo) : Encoder := do
  ni.ipaddr.put
  ni.subnet.put
  putU32 ni.port
  ni.nexthop.put
  putU32 ni.real_port
  putU32 ni.vlanid
  putU32 ni.bandwidth
  ni.dev_ipaddr.put

def get : Decoder NodeInfo := do
  let ipaddr ← NccpString.get
  let subnet ← NccpString.get
  let port ← getU32
  let nexthop ← NhInfo.get
  let real_port ← getU32
  let vlanid ← getU32
  let bandwidth ← getU32
  let dev_ipaddr ← NccpString.get
  pure { ipaddr, subnet, port, nexthop, real_port, vlanid, bandwidth, dev_ipaddr }

def encode (ni : NodeInfo) : List UInt8 :=
  [ni.ipaddr.encode, ni.subnet.encode, bytesOf 4 ni.port.toNat, ni.nexthop.encode,
    bytesOf 4 ni.real_port.toNat, bytesOf 4 ni.vlanid.toNat, bytesOf 4 ni.bandwidth.toNat,
    ni.dev_ipaddr.encode].flatten

def layout : Layout :=
  Layout.all [NccpString.layout, NccpString.layout, Layout.skip 4, NhInfo.layout, Layout.skip 4,
    Layout.skip 4, Layout.skip 4, NccpString.layout]

def wireSize (ni : NodeInfo) : ℕ :=
  16 + ni.ipaddr.wireSize + ni.subnet.wireSize + ni.nexthop.wireSize + ni.dev_ipaddr.wireSize

def strings (ni : NodeInfo) : List NccpString := 
  ni.ipaddr :: ni.subnet :: ni.dev_ipaddr :: ni.nexthop.strings

@[simp] theorem length_encode (ni : NodeInfo) : ni.encode.length = ni.wireSize := by
  simp +arith [encode, wireSize]

@[simp] theorem put_eq (ni : NodeInfo) : ni.put = Shared.put ni.encode := by
  simp only [put, NccpString.put_eq, putU32_eq, NhInfo.put_eq, put_bind, encode,
    List.flatten_cons, List.flatten_nil, List.append_nil]

theorem decodes_get (ni : NodeInfo) : Decodes get ni.encode ni :=
  ni.ipaddr.decodes_get.bind (ni.subnet.decodes_get.bind ((decodes_getU32 ni.port).bind
    (ni.nexthop.decodes_get.bind ((decodes_getU32 ni.real_port).bind
      ((decodes_getU32 ni.vlanid).bind ((decodes_getU32 ni.bandwidth).bind
        (ni.dev_ipaddr.decodes_get.bind (decodes_pure _))))))))

theorem follows_get : Follows get layout :=
  NccpString.follows_get.bind fun _ => NccpString.follows_get.bind fun _ =>
    follows_getU32.bind fun _ => NhInfo.follows_get.bind fun _ => follows_getU32.bind fun _ =>
      follows_getU32.bind fun _ => follows_getU32.bind fun _ =>
        NccpString.follows_get.bind fun _ => follows_pure _

end NodeInfo

end OnlDaemons.Shared

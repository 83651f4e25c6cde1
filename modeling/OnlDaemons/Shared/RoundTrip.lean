import OnlDaemons.Shared.OnlTypes
import OnlDaemons.Shared.Rendezvous

/-!
# Reading back what was written

A value written into an empty buffer, with any bytes after it, is read back unchanged, and the
reader then stands at the first of these bytes, whenever the buffer is large enough. The buffer
does not grow, so a large value does not fit it.

## Main definitions

- `WireValue` — a value of any of the types of the format
- `RoundTrip` — writing a value and more, and reading the value back
- `roundTrip_iff_fits` — it works exactly for what fits the buffer
-/

namespace OnlDaemons.Shared

open OnlDaemons.Lib

inductive WireType where
  | nccp_string | param | param_list | param_vector | component | experiment_info | experiment
  | node_info | nh_info | rendezvous
deriving DecidableEq, Repr

inductive WireValue where
  | nccp_string (s : NccpString)
  | param (p : Param)
  | param_list (plist : List Param)
  | param_vector (pvec : List Param)
  | component (c : Component)
  | experiment_info (eid : ExperimentInfo)
  | experiment (e : Experiment)
  | node_info (ni : NodeInfo)
  | nh_info (ni : NhInfo)
  | rendezvous (rend : Rendezvous)
deriving DecidableEq, Repr

/-- The read operator of each type, on a new value. -/
def WireType.get : WireType → Decoder WireValue
  | nccp_string => do
    let s ← NccpString.get
    pure (.nccp_string s)
  | param => do
    let p ← Param.get
    pure (.param p)
  | param_list => do
    let plist ← getParams []
    pure (.param_list plist)
  | param_vector => do
    let pvec ← getParams []
    pure (.param_vector pvec)
  | component => do
    let c ← Component.get
    pure (.component c)
  | experiment_info => do
    let eid ← ExperimentInfo.get
    pure (.experiment_info eid)
  | experiment => do
    let e ← Experiment.get
    pure (.experiment e)
  | node_info => do
    let ni ← NodeInfo.get
    pure (.node_info ni)
  | nh_info => do
    let ni ← NhInfo.get
    pure (.nh_info ni)
  | rendezvous => do
    let rend ← Rendezvous.get
    pure (.rendezvous rend)

namespace WireValue

def type : WireValue → WireType
  | nccp_string _ => .nccp_string
  | param _ => .param
  | param_list _ => .param_list
  | param_vector _ => .param_vector
  | component _ => .component
  | experiment_info _ => .experiment_info
  | experiment _ => .experiment
  | node_info _ => .node_info
  | nh_info _ => .nh_info
  | rendezvous _ => .rendezvous

/-- The write operator of each type. -/
def put : WireValue → Encoder
  | nccp_string s => s.put
  | param p => p.put
  | param_list plist => putParams plist
  | param_vector pvec => putParamVector pvec
  | component c => c.put
  | experiment_info eid => eid.put
  | experiment e => e.put
  | node_info ni => ni.put
  | nh_info ni => ni.put
  | rendezvous rend => rend.put

def encode : WireValue → List UInt8
  | nccp_string s => s.encode
  | param p => p.encode
  | param_list plist => encodeParams plist
  | param_vector pvec => encodeParams pvec
  | component c => c.encode
  | experiment_info eid => eid.encode
  | experiment e => e.encode
  | node_info ni => ni.encode
  | nh_info ni => ni.encode
  | rendezvous rend => rend.encode

/-- The bytes a value takes on the wire. -/
def wireSize : WireValue → ℕ
  | nccp_string s => s.wireSize
  | param p => p.wireSize
  | param_list plist => paramsSize plist
  | param_vector pvec => paramsSize pvec
  | component c => c.wireSize
  | experiment_info eid => eid.wireSize
  | experiment e => e.wireSize
  | node_info ni => ni.wireSize
  | nh_info ni => ni.wireSize
  | rendezvous _ => 28

def strings : WireValue → List NccpString
  | nccp_string s => [s]
  | param p => p.strings
  | param_list plist => plist.flatMap Param.strings
  | param_vector pvec => pvec.flatMap Param.strings
  | component c => c.strings
  | experiment_info eid => eid.strings
  | experiment e => e.strings
  | node_info ni => ni.strings
  | nh_info ni => ni.strings
  | rendezvous _ => []

def params : WireValue → List Param
  | param_list plist => plist
  | param_vector pvec => pvec
  | _ => []

/-- The limits of the format: no NUL in a string, at most 255 parameters. That a string has at
most 255 bytes is part of its type. -/
structure InLimits (v : WireValue) : Prop where
  nul_free : ∀ s ∈ v.strings, 0 ∉ s.nccp_str
  params_le : v.params.length ≤ 255

theorem length_encode (v : WireValue) : v.encode.length = v.wireSize := by
  cases v with
  | nccp_string s => exact s.length_encode
  | param p => exact p.length_encode
  | param_list plist => exact length_encodeParams plist
  | param_vector pvec => exact length_encodeParams pvec
  | component c => exact c.length_encode
  | experiment_info eid => exact eid.length_encode
  | experiment e => exact e.length_encode
  | node_info ni => exact ni.length_encode
  | nh_info ni => exact ni.length_encode
  | rendezvous rend => exact rend.length_encode

theorem InLimits.put_eq {v : WireValue} (h : v.InLimits) : v.put = Shared.put v.encode := by
  cases v with
  | nccp_string s => exact s.put_eq
  | param p => exact p.put_eq
  | param_list plist => exact putParams_eq plist
  | param_vector pvec => exact putParamVector_eq h.params_le
  | component c => exact c.put_eq
  | experiment_info eid => exact eid.put_eq
  | experiment e => exact e.put_eq
  | node_info ni => exact ni.put_eq
  | nh_info ni => exact ni.put_eq
  | rendezvous rend => exact rend.put_eq

theorem InLimits.decodes_get {v : WireValue} (h : v.InLimits) :
    Decodes v.type.get v.encode v := by
  have hparams : ∀ ps : List Param, (∀ s ∈ ps.flatMap Param.strings, 0 ∉ s.nccp_str) →
      ∀ p ∈ ps, ∀ s ∈ p.strings, 0 ∉ s.nccp_str := fun ps hps p hp s hs =>
    hps s (List.mem_flatMap.mpr ⟨p, hp, hs⟩)
  cases v with
  | nccp_string s => exact s.decodes_get.map WireValue.nccp_string
  | param p => exact p.decodes_get.map WireValue.param
  | param_list plist =>
    exact (decodes_getParams h.params_le (hparams plist h.nul_free)).map WireValue.param_list
  | param_vector pvec =>
    exact (decodes_getParams h.params_le (hparams pvec h.nul_free)).map WireValue.param_vector
  | component c => exact c.decodes_get.map WireValue.component
  | experiment_info eid => exact eid.decodes_get.map WireValue.experiment_info
  | experiment e => exact e.decodes_get.map WireValue.experiment
  | node_info ni => exact ni.decodes_get.map WireValue.node_info
  | nh_info ni => exact ni.decodes_get.map WireValue.nh_info
  | rendezvous rend => exact rend.decodes_get.map WireValue.rendezvous

end WireValue

/-- A buffer nothing was written to yet, of any size. -/
structure ByteBuffer.IsEmpty (buf : ByteBuffer) : Prop where
  cur_index : buf.cur_index = 0
  num_bytes_stored : buf.num_bytes_stored = 0

/-- The value and then the further bytes are written, and from the start of the buffer the value
is read back, up to where the further bytes begin. -/
def RoundTrip (buf : ByteBuffer) (v : WireValue) (further : List UInt8) : Prop :=
  ∃ buf₁ buf₂, v.put buf = some ((), buf₁) ∧ putEach putU8 further buf₁ = some ((), buf₂) ∧
    (buf₂.reset.read v.type.get).1 = v ∧ (buf₂.reset.read v.type.get).2.pos = buf₁.cur_index

/-- Both writes succeed exactly if all bytes fit. -/
theorem writes_iff {buf : ByteBuffer} (hbuf : buf.IsEmpty) (bs cs : List UInt8) :
    (∃ buf₁ buf₂, put bs buf = some ((), buf₁) ∧ put cs buf₁ = some ((), buf₂)) ↔
      bs.length + cs.length ≤ buf.num_bytes_allocated := by
  have hcur : buf.cur_index ≤ buf.num_bytes_allocated := by
    rw [hbuf.cur_index]
    exact Nat.zero_le _
  have hboth := put_apply (bs ++ cs) buf hcur
  rw [← put_bind, List.length_append, hbuf.cur_index, Nat.zero_add] at hboth
  rw [← hboth]
  constructor
  · rintro ⟨buf₁, buf₂, h₁, h₂⟩
    show ((put bs buf).bind (fun r => put cs r.2)).isSome
    rw [h₁, Option.bind_some, h₂]
    rfl
  · intro h
    obtain ⟨⟨_, buf₂⟩, h⟩ := Option.isSome_iff_exists.mp h
    obtain ⟨⟨_, buf₁⟩, h₁, h₂⟩ := Option.bind_eq_some_iff.mp h
    exact ⟨buf₁, buf₂, h₁, h₂⟩

theorem RoundTrip.fits {buf : ByteBuffer} (hbuf : buf.IsEmpty) {v : WireValue}
    (hv : v.InLimits) {further : List UInt8} (h : RoundTrip buf v further) :
    v.wireSize + further.length ≤ buf.num_bytes_allocated := by
  obtain ⟨buf₁, buf₂, h₁, h₂, -⟩ := h
  rw [hv.put_eq] at h₁
  rw [putEach_putU8] at h₂
  have hle := (writes_iff hbuf v.encode further).mp ⟨buf₁, buf₂, h₁, h₂⟩
  rwa [v.length_encode] at hle

theorem roundTrip_of_fits {buf : ByteBuffer} (hbuf : buf.IsEmpty) {v : WireValue}
    (hv : v.InLimits) {further : List UInt8}
    (hle : v.wireSize + further.length ≤ buf.num_bytes_allocated) : RoundTrip buf v further := by
  obtain ⟨buf₁, h₁, hcur₁, halloc₁, hdata₁⟩ := put_of_le v.encode buf (by
    rw [hbuf.cur_index, v.length_encode]
    omega)
  rw [hbuf.cur_index, Nat.zero_add] at hcur₁
  obtain ⟨buf₂, h₂, -, -, hdata₂⟩ := put_of_le further buf₁ (by
    rw [hcur₁, halloc₁, v.length_encode]
    exact hle)
  have hholds : Holds buf₂.reset.buffer_data 0 v.encode := by
    have hall := holds_store buf.buffer_data 0 (v.encode ++ further)
    rw [← store_append, Nat.zero_add, ← hcur₁] at hall
    rw [hbuf.cur_index] at hdata₁
    rw [← hdata₁, ← hdata₂] at hall
    exact (holds_append.mp hall).1
  have halloc := buf.allocated_lt
  have hread := hv.decodes_get buf₂.reset.buffer_data (Cursor.at 0) hholds (by
    rw [v.length_encode]
    show 0 + _ < _
    omega)
  refine ⟨buf₁, buf₂, hv.put_eq ▸ h₁, putEach_putU8 further ▸ h₂, hread.1, hread.2.trans ?_⟩
  rw [hcur₁]
  exact Nat.zero_add _

/-- A value within the limits, and any bytes after it, make the round trip through an empty buffer
exactly if they take at most the bytes the buffer was allocated with. -/
theorem roundTrip_iff_fits (buf : ByteBuffer) (hbuf : buf.IsEmpty) (v : WireValue)
    (hv : v.InLimits) (further : List UInt8) :
    RoundTrip buf v further ↔ v.wireSize + further.length ≤ buf.num_bytes_allocated :=
  ⟨RoundTrip.fits hbuf hv, roundTrip_of_fits hbuf hv⟩

/-- A string parameter of the largest size. -/
def longParam : Param :=
  .string ⟨List.replicate 255 97, Nat.le_of_eq List.length_replicate⟩

theorem longParams_inLimits {n : ℕ} (h : n ≤ 255) :
    (WireValue.param_list (List.replicate n longParam)).InLimits where
  nul_free := by
    intro s hs hnul
    obtain ⟨p, hp, hsp⟩ := List.mem_flatMap.mp hs
    obtain rfl := List.eq_of_mem_replicate hp
    obtain rfl := List.mem_singleton.mp hsp
    exact absurd (List.eq_of_mem_replicate hnul) (by decide)
  params_le := by
    show (List.replicate n longParam).length ≤ 255
    rw [List.length_replicate]
    exact h

theorem longParams_size (n : ℕ) :
    (WireValue.param_list (List.replicate n longParam)).wireSize = 4 + n * 261 := by
  show 4 + ((List.replicate n longParam).map Param.wireSize).sum = 4 + n * 261
  rw [List.map_replicate, List.sum_replicate_nat, longParam, Param.wireSize,
    NccpString.wireSize, List.length_replicate]

theorem new_isEmpty (garbage : ℕ → UInt8) : (ByteBuffer.new garbage).IsEmpty := ⟨rfl, rfl⟩

/-- Seven such parameters fit a new buffer, with two bytes after them. -/
theorem longParams_roundTrip :
    RoundTrip (ByteBuffer.new fun _ => 0) (.param_list (List.replicate 7 longParam)) [1, 2] :=
  (roundTrip_iff_fits _ (new_isEmpty _) _ (longParams_inLimits (by decide)) _).mpr (by
    rw [longParams_size]
    decide)

/-- Eight do not. -/
theorem longParams_not_roundTrip :
    ¬ ∀ (buf : ByteBuffer) (v : WireValue) (further : List UInt8), buf.IsEmpty → v.InLimits →
      RoundTrip buf v further := by
  intro h
  have hlim := longParams_inLimits (n := 8) (by decide)
  have htrip := h (ByteBuffer.new fun _ => 0) _ [] (new_isEmpty _) hlim
  have hle := htrip.fits (new_isEmpty _) hlim
  rw [longParams_size] at hle
  exact absurd hle (by decide)

end OnlDaemons.Shared

import OnlDaemons.Lib.Wire
import Mathlib.Data.List.GetD

/-!
# The byte buffer

The buffer all messages are written to and read from. Neither direction checks the position
against the size of the buffer: a write past the allocated bytes is undefined, a read past
them returns whatever memory holds there.

## Main definitions

- `ByteBuffer` — allocated bytes, stored bytes and position
- `Encoder` — what the write operators do, undefined past the allocated bytes
- `put` — the bytes a sequence of write operators copies
-/

namespace OnlDaemons.Shared

open OnlDaemons.Lib

structure ByteBuffer where
  num_bytes_allocated : ℕ
  num_bytes_stored : ℕ
  cur_index : ℕ
  buffer_data : ℕ → UInt8
  allocated_lt : num_bytes_allocated < 2 ^ 32

namespace ByteBuffer

/-- The default constructor. The new bytes are not initialised. -/
def new (garbage : ℕ → UInt8) : ByteBuffer where
  num_bytes_allocated := 2048
  num_bytes_stored := 0
  cur_index := 0
  buffer_data := garbage
  allocated_lt := by decide

def reset (buf : ByteBuffer) : ByteBuffer := { buf with cur_index := 0 }

/-- Only a buffer that is too short is allocated again. -/
def resize (buf : ByteBuffer) (newLength : ℕ) (h : newLength < 2 ^ 32)
    (garbage : ℕ → UInt8) : ByteBuffer :=
  if buf.num_bytes_allocated < newLength then
    { num_bytes_allocated := newLength
      num_bytes_stored := 0
      cur_index := 0
      buffer_data := garbage
      allocated_lt := h }
  else { buf with num_bytes_stored := 0, cur_index := 0 }

end ByteBuffer

/-! ### Writing -/

abbrev Encoder := StateT ByteBuffer Option Unit

/-- Memory with the bytes `bs` copied to position `p`. -/
def store (mem : ℕ → UInt8) (p : ℕ) (bs : List UInt8) : ℕ → UInt8 :=
  fun q => if p ≤ q then bs.getD (q - p) (mem q) else mem q

/-- The body of each write operator: the bytes are copied to the current position, which moves
on. There is no outcome if they do not fit the allocated bytes. -/
def memcpy (bs : List UInt8) : Encoder := fun buf =>
  if buf.cur_index + bs.length ≤ buf.num_bytes_allocated then
    some ((), { buf with
      buffer_data := store buf.buffer_data buf.cur_index bs
      cur_index := buf.cur_index + bs.length
      num_bytes_stored := buf.cur_index + bs.length })
  else none

def putU8 (data1 : UInt8) : Encoder := memcpy (bytesOf 1 data1.toNat)

def putU16 (data2 : UInt16) : Encoder := memcpy (bytesOf 2 data2.toNat)

def putU32 (data4 : UInt32) : Encoder := memcpy (bytesOf 4 data4.toNat)

def putBool (b : Bool) : Encoder := if b then putU16 1 else putU16 0

def putChar (c : UInt8) : Encoder := putU8 c

/-- Several types write their booleans as one byte. -/
def putFlag (b : Bool) : Encoder := if b then putU8 1 else putU8 0

structure Timeval where
  tv_sec : UInt32
  tv_usec : UInt32
deriving DecidableEq, Repr

def Timeval.put (tv : Timeval) : Encoder := do
  putU32 tv.tv_sec
  putU32 tv.tv_usec

/-- A write operator applied to each element in turn. -/
def putEach {α : Type} (e : α → Encoder) : List α → Encoder
  | [] => pure ()
  | a :: as => do
    e a
    putEach e as

/-- Writing under a condition. -/
def putWhen (b : Bool) (e : Encoder) : Encoder := if b then e else pure ()

/-! ### Reading -/

def getU8 : Decoder UInt8 := do
  let v ← fetchWord 1
  pure (UInt8.ofNat v)

def getU16 : Decoder UInt16 := do
  let v ← fetchWord 2
  pure (UInt16.ofNat v)

def getU32 : Decoder UInt32 := do
  let v ← fetchWord 4
  pure (UInt32.ofNat v)

def getBool : Decoder Bool := do
  let data2 ← getU16
  pure (data2 != 0)

def getChar : Decoder UInt8 := getU8

def getFlag : Decoder Bool := do
  let tmp ← getU8
  pure (tmp != 0)

def Timeval.get : Decoder Timeval := do
  let tv_sec ← getU32
  let tv_usec ← getU32
  pure { tv_sec, tv_usec }

/-- Reading under a condition. Where it does not hold the field keeps the value `a`. -/
def getWhen {α : Type} (b : Bool) (d : Decoder α) (a : α) : Decoder α :=
  if b then d else pure a

/-- Reading from the current position on. -/
def ByteBuffer.read {α : Type} (buf : ByteBuffer) (d : Decoder α) : α × Cursor :=
  d buf.buffer_data (Cursor.at buf.cur_index)

/-! ### What sequences of writes copy -/

/-- All the bytes that several writes copy, if there is one. -/
def put (bs : List UInt8) : Encoder := if bs = [] then pure () else memcpy bs

theorem store_append (mem : ℕ → UInt8) (p : ℕ) (bs cs : List UInt8) :
    store (store mem p bs) (p + bs.length) cs = store mem p (bs ++ cs) := by
  funext q
  simp only [store]
  by_cases h : p + bs.length ≤ q
  · have hp : p ≤ q := by omega
    have hle : bs.length ≤ q - p := by omega
    have hsub : q - p - bs.length = q - (p + bs.length) := by omega
    rw [if_pos h, if_pos hp, if_pos hp, List.getD_append_right bs cs _ _ hle, hsub,
      List.getD_eq_default bs _ hle]
  · rw [if_neg h]
    by_cases hp : p ≤ q
    · have hlt : q - p < bs.length := by omega
      rw [if_pos hp, if_pos hp, List.getD_append bs cs _ _ hlt]
    · rw [if_neg hp, if_neg hp]

theorem memcpy_bind (bs cs : List UInt8) :
    (do memcpy bs; memcpy cs : Encoder) = memcpy (bs ++ cs) := by
  funext buf
  show (memcpy bs buf).bind (fun r => memcpy cs r.2) = memcpy (bs ++ cs) buf
  simp only [memcpy, List.length_append]
  by_cases h : buf.cur_index + bs.length ≤ buf.num_bytes_allocated
  · rw [if_pos h, Option.bind_some]
    simp only [store_append, Nat.add_assoc]
  · rw [if_neg h, if_neg (by omega)]
    rfl

theorem memcpy_eq_put {bs : List UInt8} (h : bs ≠ []) : memcpy bs = put bs := by
  rw [put, if_neg h]

@[simp] theorem put_bind (bs cs : List UInt8) :
    (put bs >>= fun _ => put cs) = put (bs ++ cs) := by
  by_cases hb : bs = []
  · subst hb
    rfl
  by_cases hc : cs = []
  · subst hc
    rw [List.append_nil]
    funext buf
    show (put bs buf).bind (fun r => some ((), r.2)) = put bs buf
    cases put bs buf <;> rfl
  · rw [← memcpy_eq_put hb, ← memcpy_eq_put hc, ← memcpy_eq_put (List.append_ne_nil_of_left_ne_nil hb cs)]
    exact memcpy_bind bs cs

theorem put_apply (bs : List UInt8) (buf : ByteBuffer) (h : buf.cur_index ≤ buf.num_bytes_allocated) :
    (put bs buf).isSome ↔ buf.cur_index + bs.length ≤ buf.num_bytes_allocated := by
  by_cases hb : bs = []
  · subst hb
    exact ⟨fun _ => h, fun _ => rfl⟩
  · rw [← memcpy_eq_put hb, memcpy]
    split <;> simp_all

@[simp] theorem store_nil (mem : ℕ → UInt8) (p : ℕ) : store mem p [] = mem := by
  funext q
  simp only [store, List.getD_nil, ite_self]

theorem holds_store (mem : ℕ → UInt8) (p : ℕ) (bs : List UInt8) :
    Holds (store mem p bs) p bs := by
  refine List.ext_getElem (length_window _ _ _) fun i _ hi => ?_
  simp only [window]
  rw [List.getElem_map, List.getElem_range', Nat.one_mul, store, if_pos (Nat.le_add_right p i), Nat.add_sub_cancel_left, List.getD_eq_getElem bs _ hi]

/-- Where the bytes fit, they stand at the old position and the new one is behind them. -/
theorem put_of_le (bs : List UInt8) (buf : ByteBuffer)
    (h : buf.cur_index + bs.length ≤ buf.num_bytes_allocated) :
    ∃ buf', put bs buf = some ((), buf') ∧ buf'.cur_index = buf.cur_index + bs.length ∧
      buf'.num_bytes_allocated = buf.num_bytes_allocated ∧
      buf'.buffer_data = store buf.buffer_data buf.cur_index bs := by
  by_cases hb : bs = []
  · subst hb
    exact ⟨buf, rfl, rfl, rfl, (store_nil _ _).symm⟩
  · rw [← memcpy_eq_put hb, memcpy, if_pos h]
    exact ⟨_, rfl, rfl, rfl, rfl⟩

theorem ne_nil_of_length {bs : List UInt8} {k : ℕ} (h : bs.length = k + 1) : bs ≠ [] :=
  List.ne_nil_of_length_eq_add_one h

@[simp] theorem putU8_eq (x : UInt8) : putU8 x = put (bytesOf 1 x.toNat) :=
  memcpy_eq_put (ne_nil_of_length (length_bytesOf 1 _))

theorem bytesOf_toNat (c : UInt8) : bytesOf 1 c.toNat = [c] := by
  rw [bytesOf, UInt8.ofNat_toNat]
  rfl

@[simp] theorem putChar_eq (c : UInt8) : putChar c = put [c] := by
  rw [putChar, putU8_eq, bytesOf_toNat]

@[simp] theorem putU16_eq (x : UInt16) : putU16 x = put (bytesOf 2 x.toNat) :=
  memcpy_eq_put (ne_nil_of_length (length_bytesOf 2 _))

@[simp] theorem putU32_eq (x : UInt32) : putU32 x = put (bytesOf 4 x.toNat) :=
  memcpy_eq_put (ne_nil_of_length (length_bytesOf 4 _))

@[simp] theorem putBool_eq (b : Bool) : putBool b = put (bytesOf 2 b.toNat) := by
  cases b <;> exact putU16_eq _

@[simp] theorem putFlag_eq (b : Bool) : putFlag b = put (bytesOf 1 b.toNat) := by
  cases b <;> exact putU8_eq _

theorem putWhen_eq (b : Bool) {e : Encoder} {bs : List UInt8} (h : e = put bs) :
    putWhen b e = put (if b then bs else []) := by
  rw [putWhen, h]
  split <;> rfl

theorem putEach_eq {α : Type} {e : α → Encoder} {enc : α → List UInt8}
    (h : ∀ a, e a = put (enc a)) (as : List α) : putEach e as = put (as.flatMap enc) := by
  induction as with
  | nil => rfl
  | cons a as ih =>
    rw [putEach, h, ih, put_bind]
    rfl

theorem putEach_putU8 (bs : List UInt8) : putEach putU8 bs = put bs := by
  have hput : ∀ c, putU8 c = put [c] := putChar_eq
  rw [putEach_eq hput, List.flatMap_singleton']

/-! ### What the read operators read -/

theorem decodes_getU8 (x : UInt8) : Decodes getU8 (bytesOf 1 x.toNat) x := by
  have h := (decodes_fetchWord (k := 1) x.toNat_lt).map UInt8.ofNat
  rwa [UInt8.ofNat_toNat] at h

theorem decodes_getChar (c : UInt8) : Decodes getChar [c] c := by
  have h := decodes_getU8 c
  rwa [bytesOf_toNat] at h

theorem decodes_getU16 (x : UInt16) : Decodes getU16 (bytesOf 2 x.toNat) x := by
  have h := (decodes_fetchWord (k := 2) x.toNat_lt).map UInt16.ofNat
  rwa [UInt16.ofNat_toNat] at h

theorem decodes_getU32 (x : UInt32) : Decodes getU32 (bytesOf 4 x.toNat) x := by
  have h := (decodes_fetchWord (k := 4) x.toNat_lt).map UInt32.ofNat
  rwa [UInt32.ofNat_toNat] at h

theorem decodes_getBool (b : Bool) : Decodes getBool (bytesOf 2 b.toNat) b := by
  cases b
  · exact (decodes_getU16 0).map (· != 0)
  · exact (decodes_getU16 1).map (· != 0)

theorem decodes_getFlag (b : Bool) : Decodes getFlag (bytesOf 1 b.toNat) b := by
  cases b
  · exact (decodes_getU8 0).map (· != 0)
  · exact (decodes_getU8 1).map (· != 0)

theorem follows_getU8 : Follows getU8 (Layout.skip 1) :=
  (follows_fetchWord_skip 1).map UInt8.ofNat

theorem follows_getU16 : Follows getU16 (Layout.skip 2) :=
  (follows_fetchWord_skip 2).map UInt16.ofNat

theorem follows_getU32 : Follows getU32 (Layout.skip 4) :=
  (follows_fetchWord_skip 4).map UInt32.ofNat

theorem follows_getBool : Follows getBool (Layout.skip 2) := follows_getU16.map (· != 0)

theorem follows_getFlag : Follows getFlag (Layout.skip 1) := follows_getU8.map (· != 0)

def Timeval.encode (tv : Timeval) : List UInt8 :=
  bytesOf 4 tv.tv_sec.toNat ++ bytesOf 4 tv.tv_usec.toNat

theorem Timeval.length_encode (tv : Timeval) : tv.encode.length = 8 := by
  rw [encode, List.length_append, length_bytesOf, length_bytesOf]

theorem Timeval.put_eq (tv : Timeval) : tv.put = Shared.put tv.encode := by
  rw [put, putU32_eq, putU32_eq, put_bind, encode]

def Timeval.layout : Layout := Layout.all [Layout.skip 4, Layout.skip 4]

theorem Timeval.follows_get : Follows Timeval.get Timeval.layout :=
  follows_getU32.bind fun _ => follows_getU32.bind fun _ => follows_pure _

theorem follows_getWhen {α : Type} (b : Bool) {d : Decoder α} {l : Layout} (h : Follows d l)
    (a : α) : Follows (getWhen b d a) (Layout.when b l) := by
  rw [getWhen, Layout.when]
  split
  · exact h
  · exact follows_pure a

theorem follows_getU8_bind {β : Type} {f : UInt8 → Decoder β} {l : ℕ → Layout}
    (hf : ∀ x, Follows (f x) (l x.toNat)) : Follows (getU8 >>= f) (Layout.word 1 l) :=
  follows_fetchWord (f := fun v => f (UInt8.ofNat v)) fun v hv => by
    have h := hf (UInt8.ofNat v)
    rwa [UInt8.toNat_ofNat_of_lt' hv] at h

theorem follows_getU16_bind {β : Type} {f : UInt16 → Decoder β} {l : ℕ → Layout}
    (hf : ∀ x, Follows (f x) (l x.toNat)) : Follows (getU16 >>= f) (Layout.word 2 l) :=
  follows_fetchWord (f := fun v => f (UInt16.ofNat v)) fun v hv => by
    have h := hf (UInt16.ofNat v)
    rwa [UInt16.toNat_ofNat_of_lt' hv] at h

theorem follows_getU32_bind {β : Type} {f : UInt32 → Decoder β} {l : ℕ → Layout}
    (hf : ∀ x, Follows (f x) (l x.toNat)) : Follows (getU32 >>= f) (Layout.word 4 l) :=
  follows_fetchWord (f := fun v => f (UInt32.ofNat v)) fun v hv => by
    have h := hf (UInt32.ofNat v)
    rwa [UInt32.toNat_ofNat_of_lt' hv] at h

theorem follows_getBool_bind {β : Type} {f : Bool → Decoder β} {l : Bool → Layout}
    (hf : ∀ b, Follows (f b) (l b)) :
    Follows (getBool >>= f) (Layout.word 2 (fun v => l (v != 0))) :=
  follows_getU16_bind (f := fun x => f (x != 0)) fun x => by
    have hx : (x != 0) = (x.toNat != 0) := by
      rw [Bool.eq_iff_iff, bne_iff_ne, bne_iff_ne, ne_eq, ne_eq, ← UInt16.toNat_inj]
      rfl
    rw [hx]
    exact hf _

end OnlDaemons.Shared

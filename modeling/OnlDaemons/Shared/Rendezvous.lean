import OnlDaemons.Shared.ByteBuffer

/-!
# Rendezvous markers

The marker that ties a response to its request: an operation number and a sequence number.
The other fields only pad it.
-/

namespace OnlDaemons.Shared

open OnlDaemons.Lib

structure Rendezvous where
  id : UInt8
  unused1 : UInt16
  unused2 : UInt8
  seq : UInt32
  unused3 : UInt32
  unused4 : UInt32
  unused5 : UInt32
  unused6 : UInt32
  unused7 : UInt32
deriving DecidableEq, Repr

namespace Rendezvous

def new (id_num : UInt8) (seq_num : UInt32) : Rendezvous where
  id := id_num
  unused1 := 0
  unused2 := 0
  seq := seq_num
  unused3 := 0
  unused4 := 0
  unused5 := 0
  unused6 := 0
  unused7 := 0

/-- The part of a marker that its comparisons look at. -/
def key (rend : Rendezvous) : UInt8 × UInt32 := (rend.id, rend.seq)

def put (rend : Rendezvous) : Encoder := do
  putU8 rend.id
  putU16 rend.unused1
  putU8 rend.unused2
  putU32 rend.seq
  putU32 rend.unused3
  putU32 rend.unused4
  putU32 rend.unused5
  putU32 rend.unused6
  putU32 rend.unused7

def get : Decoder Rendezvous := do
  let id ← getU8
  let unused1 ← getU16
  let unused2 ← getU8
  let seq ← getU32
  let unused3 ← getU32
  let unused4 ← getU32
  let unused5 ← getU32
  let unused6 ← getU32
  let unused7 ← getU32
  pure { id, unused1, unused2, seq, unused3, unused4, unused5, unused6, unused7 }

def encode (rend : Rendezvous) : List UInt8 :=
  [bytesOf 1 rend.id.toNat, bytesOf 2 rend.unused1.toNat, bytesOf 1 rend.unused2.toNat,
    bytesOf 4 rend.seq.toNat, bytesOf 4 rend.unused3.toNat, bytesOf 4 rend.unused4.toNat,
    bytesOf 4 rend.unused5.toNat, bytesOf 4 rend.unused6.toNat,
    bytesOf 4 rend.unused7.toNat].flatten

/-- The marker always takes 28 bytes. -/
def layout : Layout :=
  Layout.all [Layout.skip 1, Layout.skip 2, Layout.skip 1, Layout.skip 4, Layout.skip 4,
    Layout.skip 4, Layout.skip 4, Layout.skip 4, Layout.skip 4]

@[simp] theorem length_encode (rend : Rendezvous) : rend.encode.length = 28 := by
  simp only [encode, List.length_flatten, List.map_cons, List.map_nil, length_bytesOf]
  decide

@[simp] theorem put_eq (rend : Rendezvous) : rend.put = Shared.put rend.encode := by
  simp only [put, putU8_eq, putU16_eq, putU32_eq, put_bind, encode, List.flatten_cons,
    List.flatten_nil, List.append_nil]

theorem decodes_get (rend : Rendezvous) : Decodes get rend.encode rend :=
  (decodes_getU8 rend.id).bind ((decodes_getU16 rend.unused1).bind
    ((decodes_getU8 rend.unused2).bind ((decodes_getU32 rend.seq).bind
      ((decodes_getU32 rend.unused3).bind ((decodes_getU32 rend.unused4).bind
        ((decodes_getU32 rend.unused5).bind ((decodes_getU32 rend.unused6).bind
          ((decodes_getU32 rend.unused7).bind (decodes_pure _)))))))))

theorem follows_get : Follows get layout :=
  follows_getU8.bind fun _ => follows_getU16.bind fun _ => follows_getU8.bind fun _ =>
    follows_getU32.bind fun _ => follows_getU32.bind fun _ => follows_getU32.bind fun _ =>
      follows_getU32.bind fun _ => follows_getU32.bind fun _ => follows_getU32.bind fun _ =>
        follows_pure _

end Rendezvous

end OnlDaemons.Shared

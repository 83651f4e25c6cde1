import OnlDaemons.Lib.ByteMemory

/-!
# Words of a packet in DRAM

The DRAM is read and written in words at multiples of four, with the first byte of a word the highest one. A packet
begins at any byte, so that `IPv4` shifts the words of a packet between the words of the DRAM.

## Main definitions

- `readIn`, `writeOut` — words from any address on
- `WordArray` — what is written out

## Main results

- `readIn_eq`, `writeOut_eq` — they are the words and the bytes from the address on
- `readIn_writeOut`
-/

namespace OnlDaemons.Npr
open OnlDaemons.Lib ByteMemory

abbrev Dram := BitVec 32 → Byte

/-- `read_in` -/
def readIn (dram : Dram) (addr : Word) (num : ℕ) : List Word :=
  let byteOffset := addr.toNat % 4
  if byteOffset = 0 then readWords dram addr num
  else
    let vals := readWords dram (addr - BitVec.ofNat 32 byteOffset) (num + 1)
    let shift1 := byteOffset * 8
    let shift2 := 32 - shift1
    List.zipWith (fun v u : Word => v <<< shift1 ||| u >>> shift2) vals vals.tail

/-- `write_out`. There is at least one word to write. -/
def writeOut (dram : Dram) (addr : Word) (data : List Word) : Dram :=
  let byteOffset := addr.toNat % 4
  if byteOffset = 0 then storeWords dram addr data
  else
    let alignedAddr := addr - BitVec.ofNat 32 byteOffset
    let shift1 := byteOffset * 8
    let shift2 := 32 - shift1
    let first := (wordAt dram alignedAddr &&& ((0xffffffff : Word) <<< shift2)) ||| data.headD 0 >>> shift1
    let vals := List.zipWith (fun v u : Word => v <<< shift2 ||| u >>> shift1) data data.tail
    let last := data.getLastD 0 <<< shift2 |||
      (wordAt dram (alignedAddr + BitVec.ofNat 32 (4 * data.length)) &&& ((0xffffffff : Word) >>> shift1))
    storeWords dram alignedAddr (first :: vals ++ [last])

/-- An array of words in an address space of 32 bits, which has room for one word more. -/
structure WordArray where
  words : List Word
  ne : words ≠ []
  fits : 4 * (words.length + 1) ≤ 2 ^ 32

section

variable (dram : Dram) (addr : Word)

theorem aligned_add : addr - BitVec.ofNat 32 (addr.toNat % 4) + BitVec.ofNat 32 (addr.toNat % 4) = addr :=
  BitVec.sub_add_cancel ..

/-- The words that are read are those from the address on, whatever its alignment. -/
theorem readIn_eq (num : ℕ) : readIn dram addr num = readWords dram addr num := by
  by_cases hoff : addr.toNat % 4 = 0
  · rw [readIn, if_pos hoff]
  have hlt : addr.toNat % 4 < 4 := Nat.mod_lt _ (by omega)
  have hadd := aligned_add addr
  rw [readIn, if_neg hoff]
  generalize addr.toNat % 4 = off at hoff hlt hadd
  have hfour : 4 - (4 - off) = off := by omega
  have hfun : (fun v u : Word => v <<< (off * 8) ||| u >>> (32 - off * 8)) = straddle (4 - off) := by
    funext v u
    have hleft : 32 - (4 - off) * 8 = off * 8 := by omega
    have hright : (4 - off) * 8 = 32 - off * 8 := by omega
    rw [straddle, hleft, hright]
  let aligned := addr - BitVec.ofNat 32 off
  let vals := readWords dram (aligned + 4) num
  show List.zipWith (fun v u : Word => v <<< (off * 8) ||| u >>> (32 - off * 8)) (wordAt dram aligned :: vals) vals = _
  rw [hfun]
  apply flatMap_wordBytes_injective
  rw [flatMap_readWords]
  -- the bytes before the address and those behind the last word are cut off
  have hbetween := flatMap_straddle (k := 4 - off) (by omega) (wordAt dram aligned) vals
  rw [hfour] at hbetween
  have hload : (wordAt dram aligned :: vals).flatMap wordBytes =
      load dram aligned off ++ load dram addr (4 * num) ++ load dram (addr + BitVec.ofNat 32 (4 * num)) (4 - off) := by
    have hlen : 4 * (num + 1) = off + (4 * num + (4 - off)) := by omega
    have hall := flatMap_readWords dram aligned (num + 1)
    rw [hlen, load_add, hadd, load_add] at hall
    rw [List.append_assoc, ← hall]
    rfl
  rw [hload, List.append_assoc, List.append_assoc] at hbetween
  obtain ⟨-, hrest⟩ := List.append_inj hbetween (by simp; omega)
  have hlen : (List.zipWith (straddle (4 - off)) (wordAt dram aligned :: vals) vals).length = num := by simp [vals]
  exact (List.append_inj hrest (by rw [length_flatMap_wordBytes, length_load, hlen])).1

@[simp] theorem length_readIn (num : ℕ) : (readIn dram addr num).length = num := by
  rw [readIn_eq, length_readWords]

/-- What is written are the bytes of the words, whatever the alignment of the address. -/
theorem writeOut_eq {data : List Word} (hne : data ≠ []) (hfits : 4 * (data.length + 1) ≤ 2 ^ 32) :
    writeOut dram addr data = store dram addr (data.flatMap wordBytes) := by
  by_cases hoff : addr.toNat % 4 = 0
  · rw [writeOut, if_pos hoff, storeWords_eq (by omega)]
  have hlt : addr.toNat % 4 < 4 := Nat.mod_lt _ (by omega)
  have hadd := aligned_add addr
  rw [writeOut, if_neg hoff]
  generalize addr.toNat % 4 = off at hoff hlt hadd
  obtain ⟨v, vs, rfl⟩ := List.exists_cons_of_ne_nil hne
  let aligned := addr - BitVec.ofNat 32 off
  let behind := aligned + BitVec.ofNat 32 (4 * (v :: vs).length)
  show storeWords dram aligned (((wordAt dram aligned &&& (BitVec.allOnes 32 <<< (32 - off * 8))) ||| v >>> (off * 8)) ::
    List.zipWith (straddle off) (v :: vs) vs ++ [(v :: vs).getLastD 0 <<< (32 - off * 8) |||
      (wordAt dram behind &&& (BitVec.allOnes 32 >>> (off * 8)))]) = _
  -- the first word that is written begins with bytes that were there, and the last one ends with such bytes
  have hbytes : (((wordAt dram aligned &&& (BitVec.allOnes 32 <<< (32 - off * 8))) ||| v >>> (off * 8)) ::
      List.zipWith (straddle off) (v :: vs) vs ++ [(v :: vs).getLastD 0 <<< (32 - off * 8) |||
        (wordAt dram behind &&& (BitVec.allOnes 32 >>> (off * 8)))]).flatMap wordBytes =
      load dram aligned off ++ (v :: vs).flatMap wordBytes ++
        load dram (aligned + BitVec.ofNat 32 (off + ((v :: vs).flatMap wordBytes).length)) (4 - off) := by
    have hfirst : (load dram aligned 4).take off = load dram aligned off := by
      have hfour : 4 = off + (4 - off) := by omega
      rw [hfour, load_add, List.take_left' (by simp)]
    have hlast : (load dram behind 4).drop off =
        load dram (aligned + BitVec.ofNat 32 (off + ((v :: vs).flatMap wordBytes).length)) (4 - off) := by
      have hfour : 4 = off + (4 - off) := by omega
      rw [hfour, load_add, List.drop_left' (by simp), length_flatMap_wordBytes, Nat.add_comm off, BitVec.ofNat_add,
        ← BitVec.add_assoc]
      simp only [Nat.add_sub_cancel_left]
      rfl
    rw [List.flatMap_append, List.flatMap_cons, wordBytes_keep_left (by omega), List.flatMap_singleton,
      wordBytes_keep_right (by omega), wordBytes_wordAt, wordBytes_wordAt, hfirst, hlast, ← flatMap_straddle (k := off) (by omega)]
    simp only [List.append_assoc]
  rw [storeWords_eq, hbytes, store_between]
  · exact congrArg (fun x => store dram x _) hadd
  · rw [length_flatMap_wordBytes]
    omega
  · simp
    simp at hfits
    omega

end

/-- Words that are written at an address are read there again, and no byte around them changes. -/
theorem readIn_writeOut (dram : Dram) (addr : Word) (data : WordArray) :
    readIn (writeOut dram addr data.words) addr data.words.length = data.words ∧
      ∀ x : Word, 4 * data.words.length ≤ (x - addr).toNat → writeOut dram addr data.words x = dram x := by
  have hfits := data.fits
  rw [readIn_eq, writeOut_eq dram addr data.ne hfits]
  constructor
  · exact (holdsWords_store (by omega)).readWords_eq
  · intro x hx
    exact store_of_le (by rwa [length_flatMap_wordBytes])

end OnlDaemons.Npr

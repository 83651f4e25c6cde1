import Mathlib.Data.BitVec
import Mathlib.Data.List.GetD
import Mathlib.Data.List.Range
import Mathlib.Tactic.Common

/-!
# Memory of bytes

A memory gives a byte for each address, and addresses wrap. A word of 32 bits lies in it with its first
byte the highest one, at any address.

## Main definitions

- `load`, `store` — the bytes from an address on
- `byteAt`, `wordBytes` — the bytes of a word
- `straddle` — a word between two words
- `wordAt`, `readWords`, `storeWord`, `storeWords` — words in a memory
- `HoldsWords` — what a memory holds from an address on

## Main results

- `load_store` — what was stored is loaded again
- `store_append` — stores that follow each other are one store
- `store_between` — nothing changes around the bytes in a store that puts back what is around them
- `flatMap_readWords`, `storeWords_eq` — words are their bytes
-/

namespace OnlDaemons.Lib

abbrev Byte := BitVec 8

abbrev Word := BitVec 32

namespace ByteMemory

variable {w : ℕ} {mem : BitVec w → Byte} {a x : BitVec w} {bs cs : List Byte} {v u : Word}

/-! ### Bytes -/

def load (mem : BitVec w → Byte) (a : BitVec w) : ℕ → List Byte
  | 0 => []
  | n + 1 => mem a :: load mem (a + 1) n

def store (mem : BitVec w → Byte) (a : BitVec w) (bs : List Byte) : BitVec w → Byte := fun x =>
  bs.getD (x - a).toNat (mem x)

@[simp] theorem length_load (mem : BitVec w → Byte) (a : BitVec w) (n : ℕ) : (load mem a n).length = n := by
  induction n generalizing a with
  | zero => rfl
  | succ n ih => rw [load, List.length_cons, ih]

theorem getElem?_load (mem : BitVec w → Byte) (a : BitVec w) {n i : ℕ} (h : i < n) :
    (load mem a n)[i]? = some (mem (a + BitVec.ofNat w i)) := by
  induction n generalizing a i with
  | zero => omega
  | succ n ih =>
    cases i with
    | zero => simp [load]
    | succ i =>
      rw [load, List.getElem?_cons_succ, ih (a + 1) (by omega), BitVec.add_assoc, BitVec.ofNat_add,
        BitVec.add_comm (BitVec.ofNat w i)]
      rfl

theorem load_add (mem : BitVec w → Byte) (a : BitVec w) (m n : ℕ) :
    load mem a (m + n) = load mem a m ++ load mem (a + BitVec.ofNat w m) n := by
  apply List.ext_getElem?
  intro i
  rcases Nat.lt_or_ge i m with hi | hi
  · rw [List.getElem?_append_left (by simpa using hi), getElem?_load mem a (by omega), getElem?_load mem a hi]
  · rw [List.getElem?_append_right (by simpa using hi), length_load]
    rcases Nat.lt_or_ge i (m + n) with hn | hn
    · rw [getElem?_load mem a hn, getElem?_load mem _ (by omega), BitVec.add_assoc, ← BitVec.ofNat_add,
        Nat.add_sub_cancel' hi]
    · rw [List.getElem?_eq_none (by simpa using hn), List.getElem?_eq_none (by simp; omega)]

theorem add_ofNat_sub (a : BitVec w) {i : ℕ} (h : i < 2 ^ w) : (a + BitVec.ofNat w i - a).toNat = i := by
  rw [BitVec.add_comm, BitVec.add_sub_cancel, BitVec.toNat_ofNat, Nat.mod_eq_of_lt h]

theorem add_ofNat_toNat_sub (a x : BitVec w) : a + BitVec.ofNat w (x - a).toNat = x := by
  rw [BitVec.ofNat_toNat, BitVec.setWidth_eq, BitVec.add_comm, BitVec.sub_add_cancel]

@[simp] theorem store_nil (mem : BitVec w → Byte) (a : BitVec w) : store mem a [] = mem := rfl

theorem store_of_le (h : bs.length ≤ (x - a).toNat) : store mem a bs x = mem x := by
  rw [store, List.getD_eq_default _ _ h]

theorem store_at {i : ℕ} (h : i < bs.length) (hw : bs.length ≤ 2 ^ w) :
    store mem a bs (a + BitVec.ofNat w i) = bs[i] := by
  rw [store, add_ofNat_sub a (by omega), List.getD_eq_getElem _ _ h]

/-- What was stored is loaded again. -/
theorem load_store (hw : bs.length ≤ 2 ^ w) : load (store mem a bs) a bs.length = bs := by
  apply List.ext_getElem (length_load _ _ _)
  intro i hi hi'
  have hget := getElem?_load (store mem a bs) a hi'
  rw [store_at hi' hw] at hget
  exact (List.getElem?_eq_some_iff.1 hget).2

theorem load_congr {m : BitVec w → Byte} {n : ℕ} (h : ∀ i < n, m (a + BitVec.ofNat w i) = mem (a + BitVec.ofNat w i)) :
    load m a n = load mem a n := by
  apply List.ext_getElem?
  intro i
  rcases Nat.lt_or_ge i n with hi | hi
  · rw [getElem?_load m a hi, getElem?_load mem a hi, h i hi]
  · rw [List.getElem?_eq_none (by simpa using hi), List.getElem?_eq_none (by simpa using hi)]

/-- What lies behind the bytes that are stored is loaded as before. -/
theorem load_store_behind {k n : ℕ} (hk : bs.length ≤ k) (hw : k + n ≤ 2 ^ w) :
    load (store mem a bs) (a + BitVec.ofNat w k) n = load mem (a + BitVec.ofNat w k) n := by
  apply load_congr
  intro i hi
  rw [BitVec.add_assoc, ← BitVec.ofNat_add]
  apply store_of_le
  rw [add_ofNat_sub a (by omega)]
  omega

/-- What lies before the bytes that are stored is loaded as before. -/
theorem load_store_before {k : ℕ} (hw : k + bs.length ≤ 2 ^ w) :
    load (store mem (a + BitVec.ofNat w k) bs) a k = load mem a k := by
  rcases Nat.eq_zero_or_pos k with rfl | hpos
  · rfl
  have hlt := Nat.two_pow_pos w
  have hback : a + BitVec.ofNat w k + BitVec.ofNat w (2 ^ w - k) = a := by
    have hwrap : BitVec.ofNat w (2 ^ w) = 0 := by
      apply BitVec.eq_of_toNat_eq
      rw [BitVec.toNat_ofNat, Nat.mod_self, BitVec.ofNat_eq_ofNat, BitVec.toNat_zero]
    rw [BitVec.add_assoc, ← BitVec.ofNat_add, Nat.add_sub_cancel' (by omega), hwrap]
    exact BitVec.add_zero a
  have hframe : load (store mem (a + BitVec.ofNat w k) bs) (a + BitVec.ofNat w k + BitVec.ofNat w (2 ^ w - k)) k =
      load mem (a + BitVec.ofNat w k + BitVec.ofNat w (2 ^ w - k)) k := load_store_behind (by omega) (by omega)
  rwa [hback] at hframe

/-- Stores that follow each other are one store. -/
theorem store_append (hw : bs.length + cs.length ≤ 2 ^ w) :
    store (store mem a bs) (a + BitVec.ofNat w bs.length) cs = store mem a (bs ++ cs) := by
  rcases Nat.eq_zero_or_pos cs.length with hnil | hpos
  · rw [List.length_eq_zero_iff.1 hnil, List.append_nil, store_nil]
  funext x
  have hx := (x - a).isLt
  have hoff : x - a - BitVec.ofNat w bs.length = x - (a + BitVec.ofNat w bs.length) := BitVec.sub_sub ..
  rcases Nat.lt_or_ge (x - a).toNat bs.length with h | h
  · -- an address before the second store is far behind it when it wraps
    have hlt : cs.length ≤ (x - (a + BitVec.ofNat w bs.length)).toNat := by
      rw [← hoff, BitVec.toNat_sub, BitVec.toNat_ofNat, Nat.mod_eq_of_lt (a := bs.length) (by omega)]
      rw [Nat.mod_eq_of_lt (by omega)]
      omega
    rw [store_of_le hlt, store, store, List.getD_append _ _ _ _ h]
  · have hsub : (x - (a + BitVec.ofNat w bs.length)).toNat = (x - a).toNat - bs.length := by
      rw [← hoff, BitVec.toNat_sub, BitVec.toNat_ofNat, Nat.mod_eq_of_lt (a := bs.length) (by omega)]
      have hsum : 2 ^ w - bs.length + (x - a).toNat = 2 ^ w + ((x - a).toNat - bs.length) := by omega
      rw [hsum, Nat.add_mod_left, Nat.mod_eq_of_lt (by omega)]
    have hsame : store mem a bs x = mem x := store_of_le h
    rw [store, hsub, hsame, store, List.getD_append_right _ _ _ _ h]

theorem store_load (mem : BitVec w → Byte) (a : BitVec w) (n : ℕ) : store mem a (load mem a n) = mem := by
  funext x
  rcases Nat.lt_or_ge (x - a).toNat n with h | h
  · rw [store, List.getD_eq_getElem?_getD, getElem?_load mem a h, add_ofNat_toNat_sub, Option.getD_some]
  · exact store_of_le (by simpa using h)

/-- Nothing changes around the bytes when what is around them is put back with them. -/
theorem store_between {m n : ℕ} (hw : m + bs.length + n ≤ 2 ^ w) :
    store mem a (load mem a m ++ bs ++ load mem (a + BitVec.ofNat w (m + bs.length)) n) =
      store mem (a + BitVec.ofNat w m) bs := by
  have hlen : (load mem a m ++ bs).length = m + bs.length := by simp
  rw [← store_append (by simpa using hw), hlen, ← store_append (by simp; omega), store_load, length_load]
  funext x
  rcases Nat.lt_or_ge (x - (a + BitVec.ofNat w (m + bs.length))).toNat n with h | h
  · have hsame : store mem (a + BitVec.ofNat w m) bs x = mem x := by
      apply store_of_le
      have hback : x - (a + BitVec.ofNat w m) =
          x - (a + BitVec.ofNat w (m + bs.length)) + BitVec.ofNat w bs.length := by
        rw [BitVec.ofNat_add, ← BitVec.add_assoc, ← BitVec.sub_sub x (_ + _), BitVec.sub_add_cancel]
      rw [hback, BitVec.toNat_add, BitVec.toNat_ofNat, Nat.mod_eq_of_lt (a := bs.length) (by omega),
        Nat.mod_eq_of_lt (by omega)]
      omega
    rw [hsame, store, List.getD_eq_getElem?_getD, getElem?_load mem _ h, add_ofNat_toNat_sub, Option.getD_some]
  · exact store_of_le (by simpa using h)

/-! ### The bytes of a word -/

/-- The first byte is the highest one. -/
def byteAt (v : Word) (j : ℕ) : Byte := v.extractLsb' (24 - 8 * j) 8

def wordBytes (v : Word) : List Byte := [byteAt v 0, byteAt v 1, byteAt v 2, byteAt v 3]

@[simp] theorem length_wordBytes (v : Word) : (wordBytes v).length = 4 := rfl

theorem ext_byteAt (h : ∀ j < 4, byteAt v j = byteAt u j) : v = u := by
  ext i hi
  have hbyte := h (3 - i / 8) (by omega)
  have hbit := congrArg (fun b : Byte => b.getLsbD (i % 8)) hbyte
  have hpos : 24 - 8 * (3 - i / 8) + i % 8 = i := by omega
  have hlt : i % 8 < 8 := by omega
  simpa [byteAt, BitVec.getLsbD_extractLsb', hpos, hlt, BitVec.getLsbD_eq_getElem hi] using hbit

theorem wordBytes_injective (h : wordBytes v = wordBytes u) : v = u := by
  simp only [wordBytes, List.cons.injEq, and_true] at h
  obtain ⟨h0, h1, h2, h3⟩ := h
  apply ext_byteAt
  intro j hj
  obtain rfl | rfl | rfl | rfl : j = 0 ∨ j = 1 ∨ j = 2 ∨ j = 3 := by omega
  · exact h0
  · exact h1
  · exact h2
  · exact h3

/-- The last `k` bytes of one word before the others of the next one. -/
def straddle (k : ℕ) (v u : Word) : Word := (v <<< (32 - k * 8)) ||| (u >>> (k * 8))

theorem byteAt_straddle_left {k j : ℕ} (hk : k ≤ 4) (hj : j < k) (v u : Word) :
    byteAt (straddle k v u) j = byteAt v (j + 4 - k) := by
  ext i hi
  have hu : u.getLsbD (k * 8 + (24 - 8 * j + i)) = false := BitVec.getLsbD_of_ge _ _ (by omega)
  have hbit : 24 - 8 * (j + 4 - k) + i = 24 - 8 * j + i - (32 - k * 8) := by omega
  have hin : 24 - 8 * j + i < 32 := by omega
  have hhigh : ¬24 - 8 * j + i < 32 - k * 8 := by omega
  rw [byteAt, byteAt, straddle, BitVec.getElem_extractLsb', BitVec.getElem_extractLsb', BitVec.getLsbD_or,
    BitVec.getLsbD_shiftLeft, BitVec.getLsbD_ushiftRight, hu, hbit, Bool.or_false]
  simp [hin, hhigh]

theorem byteAt_straddle_right {k j : ℕ} (hk : k ≤ j) (hj : j < 4) (v u : Word) :
    byteAt (straddle k v u) j = byteAt u (j - k) := by
  ext i hi
  have hlow : 24 - 8 * j + i < 32 - k * 8 := by omega
  have hbit : 24 - 8 * (j - k) + i = k * 8 + (24 - 8 * j + i) := by omega
  rw [byteAt, byteAt, straddle, BitVec.getElem_extractLsb', BitVec.getElem_extractLsb', BitVec.getLsbD_or,
    BitVec.getLsbD_shiftLeft, BitVec.getLsbD_ushiftRight, hbit]
  simp [hlow]

theorem wordBytes_straddle {k : ℕ} (hk : k ≤ 4) (v u : Word) :
    wordBytes (straddle k v u) = (wordBytes v).drop (4 - k) ++ (wordBytes u).take (4 - k) := by
  have hl := fun j hj => byteAt_straddle_left (k := k) (j := j) hk hj v u
  have hr := fun j hj hj' => byteAt_straddle_right (k := k) (j := j) hj hj' v u
  obtain rfl | rfl | rfl | rfl | rfl : k = 0 ∨ k = 1 ∨ k = 2 ∨ k = 3 ∨ k = 4 := by omega
  all_goals simp [wordBytes, hl, hr]

/-! ### Words in a memory -/

theorem zero_or_ushiftRight {k : ℕ} (hk : k ≤ 4) (v : Word) : straddle (4 - k) 0 v = v >>> (32 - k * 8) := by
  have hshift : (4 - k) * 8 = 32 - k * 8 := by omega
  simp [straddle, hshift]

theorem shiftLeft_or_zero {k : ℕ} (hk : k ≤ 4) (v : Word) : straddle (4 - k) v 0 = v <<< (k * 8) := by
  have hshift : 32 - (4 - k) * 8 = k * 8 := by omega
  simp [straddle, hshift]

/-- The first bytes of one word are kept before those of the next one. -/
theorem wordBytes_keep_left {k : ℕ} (hk : k ≤ 4) (v u : Word) :
    wordBytes ((v &&& (BitVec.allOnes 32 <<< (32 - k * 8))) ||| (u >>> (k * 8))) =
      (wordBytes v).take k ++ (wordBytes u).take (4 - k) := by
  have hmask : v &&& (BitVec.allOnes 32 <<< (32 - k * 8)) = (v >>> (32 - k * 8)) <<< (32 - k * 8) := by
    ext i hi
    rw [BitVec.getElem_and, BitVec.getElem_shiftLeft, BitVec.getElem_shiftLeft, BitVec.getElem_ushiftRight,
      BitVec.getElem_allOnes]
    grind
  have hfour : 4 - (4 - k) = k := by omega
  rw [hmask, ← zero_or_ushiftRight hk, ← straddle, wordBytes_straddle hk, wordBytes_straddle (by omega), hfour,
    List.drop_left' (by simp)]

/-- The last bytes of one word are kept behind those of the word before. -/
theorem wordBytes_keep_right {k : ℕ} (hk : k ≤ 4) (v u : Word) :
    wordBytes ((v <<< (32 - k * 8)) ||| (u &&& (BitVec.allOnes 32 >>> (k * 8)))) =
      (wordBytes v).drop (4 - k) ++ (wordBytes u).drop k := by
  have hmask : u &&& (BitVec.allOnes 32 >>> (k * 8)) = (u <<< (k * 8)) >>> (k * 8) := by
    ext i hi
    rw [BitVec.getElem_and, BitVec.getElem_ushiftRight, BitVec.getElem_ushiftRight, BitVec.getLsbD_shiftLeft,
      BitVec.getLsbD_allOnes]
    grind
  have hfour : 4 - (4 - k) = k := by omega
  rw [hmask, ← shiftLeft_or_zero hk, ← straddle, wordBytes_straddle hk, wordBytes_straddle (by omega), hfour,
    List.take_left' (by simp)]

/-- The words between the words of a list are the same bytes without the first and the last ones. -/
theorem flatMap_straddle {k : ℕ} (hk : k ≤ 4) (v : Word) (vs : List Word) :
    (wordBytes v).take (4 - k) ++ (List.zipWith (straddle k) (v :: vs) vs).flatMap wordBytes ++
        (wordBytes ((v :: vs).getLastD 0)).drop (4 - k) =
      (v :: vs).flatMap wordBytes := by
  induction vs generalizing v with
  | nil => simp
  | cons u us ih =>
    have hlast : (v :: u :: us).getLastD 0 = (u :: us).getLastD 0 := by simp
    rw [List.zipWith_cons_cons, List.flatMap_cons, wordBytes_straddle hk, List.flatMap_cons, ← ih u, hlast]
    simp only [List.append_assoc]
    rw [← List.append_assoc ((wordBytes v).take _), List.take_append_drop]

/-! ### Words of four bytes -/

def wordOf (b c d e : Byte) : Word :=
  b.setWidth 32 <<< 24 ||| c.setWidth 32 <<< 16 ||| d.setWidth 32 <<< 8 ||| e.setWidth 32

theorem wordBytes_wordOf (b c d e : Byte) : wordBytes (wordOf b c d e) = [b, c, d, e] := by
  simp only [wordBytes, List.cons.injEq, and_true]
  refine ⟨?_, ?_, ?_, ?_⟩
  all_goals
    ext i hi
    simp [byteAt, wordOf]
    grind

theorem flatMap_wordBytes_injective {vs us : List Word} (h : vs.flatMap wordBytes = us.flatMap wordBytes) : vs = us := by
  induction vs generalizing us with
  | nil =>
    cases us with
    | nil => rfl
    | cons u us => simp [wordBytes] at h
  | cons v vs ih =>
    cases us with
    | nil => simp [wordBytes] at h
    | cons u us =>
      rw [List.flatMap_cons, List.flatMap_cons] at h
      obtain ⟨hv, hvs⟩ := List.append_inj h rfl
      rw [wordBytes_injective hv, ih hvs]

@[simp] theorem length_flatMap_wordBytes (vs : List Word) : (vs.flatMap wordBytes).length = 4 * vs.length := by
  induction vs with
  | nil => rfl
  | cons v vs ih =>
    rw [List.flatMap_cons, List.length_append, ih, length_wordBytes, List.length_cons]
    omega

/-! ### Words in a memory -/

def wordAt (mem : BitVec w → Byte) (a : BitVec w) : Word :=
  wordOf (mem a) (mem (a + 1)) (mem (a + 1 + 1)) (mem (a + 1 + 1 + 1))

def storeWord (mem : BitVec w → Byte) (a : BitVec w) (v : Word) : BitVec w → Byte := store mem a (wordBytes v)

def readWords (mem : BitVec w → Byte) (a : BitVec w) : ℕ → List Word
  | 0 => []
  | n + 1 => wordAt mem a :: readWords mem (a + 4) n

def storeWords (mem : BitVec w → Byte) (a : BitVec w) : List Word → BitVec w → Byte
  | [] => mem
  | v :: vs => storeWords (storeWord mem a v) (a + 4) vs

theorem wordBytes_wordAt (mem : BitVec w → Byte) (a : BitVec w) : wordBytes (wordAt mem a) = load mem a 4 :=
  wordBytes_wordOf ..

@[simp] theorem length_readWords (mem : BitVec w → Byte) (a : BitVec w) (n : ℕ) :
    (readWords mem a n).length = n := by
  induction n generalizing a with
  | zero => rfl
  | succ n ih => rw [readWords, List.length_cons, ih]

theorem flatMap_readWords (mem : BitVec w → Byte) (a : BitVec w) (n : ℕ) :
    (readWords mem a n).flatMap wordBytes = load mem a (4 * n) := by
  induction n generalizing a with
  | zero => rfl
  | succ n ih =>
    rw [readWords, List.flatMap_cons, wordBytes_wordAt, ih, Nat.mul_succ, Nat.add_comm, load_add]
    rfl

theorem storeWords_eq {vs : List Word} (hw : 4 * vs.length ≤ 2 ^ w) :
    storeWords mem a vs = store mem a (vs.flatMap wordBytes) := by
  induction vs generalizing mem a with
  | nil => rfl
  | cons v vs ih =>
    rw [List.length_cons] at hw
    rw [storeWords, ih (by omega), storeWord, List.flatMap_cons, ← store_append]
    · rfl
    · rw [length_wordBytes, length_flatMap_wordBytes]
      omega

/-- These words lie in the memory from the address on. -/
def HoldsWords (mem : BitVec w → Byte) (a : BitVec w) (vs : List Word) : Prop :=
  load mem a (4 * vs.length) = vs.flatMap wordBytes

section

variable {vs us : List Word}

theorem holdsWords_append :
    HoldsWords mem a (vs ++ us) ↔ HoldsWords mem a vs ∧ HoldsWords mem (a + BitVec.ofNat w (4 * vs.length)) us := by
  rw [HoldsWords, HoldsWords, HoldsWords, List.length_append, Nat.mul_add, load_add, List.flatMap_append]
  constructor
  · intro h
    exact List.append_inj h (by rw [length_load, length_flatMap_wordBytes])
  · rintro ⟨hvs, hus⟩
    rw [hvs, hus]

theorem holdsWords_readWords (mem : BitVec w → Byte) (a : BitVec w) (n : ℕ) :
    HoldsWords mem a (readWords mem a n) := by
  rw [HoldsWords, flatMap_readWords, length_readWords]

theorem HoldsWords.readWords_eq (h : HoldsWords mem a vs) : readWords mem a vs.length = vs :=
  flatMap_wordBytes_injective ((flatMap_readWords mem a _).trans h)

theorem holdsWords_store (hw : 4 * vs.length ≤ 2 ^ w) : HoldsWords (store mem a (vs.flatMap wordBytes)) a vs := by
  rw [HoldsWords, ← length_flatMap_wordBytes]
  apply load_store
  rwa [length_flatMap_wordBytes]

theorem HoldsWords.store_behind {k : ℕ} (h : HoldsWords mem (a + BitVec.ofNat w k) vs) (hk : bs.length ≤ k)
    (hw : k + 4 * vs.length ≤ 2 ^ w) : HoldsWords (store mem a bs) (a + BitVec.ofNat w k) vs :=
  (load_store_behind hk hw).trans h

theorem HoldsWords.store_before (h : HoldsWords mem a vs) (hw : 4 * vs.length + bs.length ≤ 2 ^ w) :
    HoldsWords (store mem (a + BitVec.ofNat w (4 * vs.length)) bs) a vs :=
  (load_store_before hw).trans h

end

end ByteMemory

end OnlDaemons.Lib

import OnlDaemons.Lib.ByteMemory
import Mathlib.Algebra.BigOperators.Group.List.Basic

/-!
# The one's complement sum

The carry out of 16 bits is added again at the lowest bit. The sum does not depend on the order of what is added: it is
zero for zeros only, and is known modulo `2 ^ 16 - 1` otherwise.

## Main definitions

- `addCarry` — one addition
- `halfWords` — the 16 bit words of a list of bytes, with a zero behind an odd one
- `onesSum` — the sum of bytes
- `SumsUp` — the sum of bytes with their checksum

## Main results

- `foldl_addCarry` — the sum of numbers of 16 bits, in any order
- `wrap_complement` — the complement makes a sum complete
-/

namespace OnlDaemons.Lib

namespace OnesComplement
open ByteMemory

def addCarry (c x : ℕ) : ℕ := (c + x) % 2 ^ 16 + (c + x) / 2 ^ 16

/-- The number of 16 bits that a sum comes to. -/
def wrap (n : ℕ) : ℕ := if n = 0 then 0 else (n - 1) % 65535 + 1

variable {c x n m : ℕ} {xs ys : List ℕ} {bs cs : List Byte}

theorem wrap_le (n : ℕ) : wrap n ≤ 65535 := by
  unfold wrap
  split <;> omega

theorem wrap_of_le (h : n ≤ 65535) : wrap n = n := by
  unfold wrap
  split <;> omega

theorem wrap_wrap_add (n m : ℕ) : wrap (wrap n + m) = wrap (n + m) := by
  unfold wrap
  split <;> split <;> split <;> omega

theorem wrap_eq_zero : wrap n = 0 ↔ n = 0 := by
  unfold wrap
  split <;> omega

theorem addCarry_eq (hc : c ≤ 65535) (hx : x ≤ 65535) : addCarry c x = wrap (c + x) := by
  unfold addCarry wrap
  split <;> omega

theorem foldl_addCarry (hc : c ≤ 65535) (hxs : ∀ x ∈ xs, x ≤ 65535) : xs.foldl addCarry c = wrap (c + xs.sum) := by
  induction xs generalizing c with
  | nil => simp [wrap_of_le hc]
  | cons x xs ih =>
    have hx : x ≤ 65535 := hxs x (List.mem_cons_self ..)
    rw [List.foldl_cons, addCarry_eq hc hx, ih (wrap_le _) fun y hy => hxs y (List.mem_cons_of_mem _ hy),
      wrap_wrap_add, List.sum_cons, Nat.add_assoc]

/-! ### Bytes -/

def halfWords : List Byte → List ℕ
  | [] => []
  | [b] => [b.toNat * 256]
  | b :: c :: bs => (b.toNat * 256 + c.toNat) :: halfWords bs

def onesSum (bs : List Byte) : ℕ := (halfWords bs).foldl addCarry 0

/-- What a receiver looks for in bytes that contain their checksum. -/
def SumsUp (bs : List Byte) : Prop := onesSum bs = 65535

instance (bs : List Byte) : Decidable (SumsUp bs) := inferInstanceAs (Decidable (_ = _))

theorem halfWords_le : ∀ bs : List Byte, ∀ x ∈ halfWords bs, x ≤ 65535
  | [], x, h => by simp [halfWords] at h
  | [b], x, h => by
    have hb := b.isLt
    simp only [halfWords, List.mem_singleton] at h
    omega
  | b :: c :: bs, x, h => by
    have hb := b.isLt
    have hc := c.isLt
    rw [halfWords, List.mem_cons] at h
    rcases h with rfl | h
    · omega
    · exact halfWords_le bs x h

theorem onesSum_eq (bs : List Byte) : onesSum bs = wrap (halfWords bs).sum := by
  rw [onesSum, foldl_addCarry (Nat.zero_le _) (halfWords_le bs), Nat.zero_add]

def highHalf (v : Word) : ℕ := (v >>> 16).toNat

def lowHalf (v : Word) : ℕ := (v &&& 0xffff).toNat

theorem highHalf_le (v : Word) : highHalf v ≤ 65535 := by
  have hv := v.isLt
  rw [highHalf, BitVec.toNat_ushiftRight, Nat.shiftRight_eq_div_pow]
  omega

theorem lowHalf_le (v : Word) : lowHalf v ≤ 65535 := by
  rw [lowHalf, BitVec.toNat_and]
  exact Nat.and_le_right

theorem toNat_byteAt (v : Word) {j : ℕ} : (byteAt v j).toNat = v.toNat / 2 ^ (24 - 8 * j) % 256 := by
  rw [byteAt, BitVec.extractLsb'_toNat, Nat.shiftRight_eq_div_pow]

theorem highHalf_eq (v : Word) : highHalf v = (byteAt v 0).toNat * 256 + (byteAt v 1).toNat := by
  have hv := v.isLt
  rw [highHalf, BitVec.toNat_ushiftRight, Nat.shiftRight_eq_div_pow, toNat_byteAt, toNat_byteAt]
  omega

theorem lowHalf_eq (v : Word) : lowHalf v = (byteAt v 2).toNat * 256 + (byteAt v 3).toNat := by
  have hmask : (0xffff : Word).toNat = 2 ^ 16 - 1 := rfl
  rw [lowHalf, BitVec.toNat_and, hmask, Nat.and_two_pow_sub_one_eq_mod, toNat_byteAt, toNat_byteAt]
  omega

theorem halfWords_wordBytes_append (v : Word) (bs : List Byte) :
    halfWords (wordBytes v ++ bs) = highHalf v :: lowHalf v :: halfWords bs := by
  rw [highHalf_eq, lowHalf_eq]
  rfl

def halves (v : Word) : ℕ := highHalf v + lowHalf v

theorem sum_halfWords_words (vs : List Word) (bs : List Byte) :
    (halfWords (vs.flatMap wordBytes ++ bs)).sum = (vs.map halves).sum + (halfWords bs).sum := by
  induction vs with
  | nil => simp
  | cons v vs ih =>
    rw [List.flatMap_cons, List.append_assoc, halfWords_wordBytes_append, List.sum_cons, List.sum_cons, ih, List.map_cons,
      List.sum_cons, halves]
    omega

/-- With the complement of the sum of the others the sum is complete. -/
theorem wrap_complement (n : ℕ) : wrap (n + (65535 - wrap n)) = 65535 := by
  unfold wrap
  split <;> split <;> omega

end OnesComplement

end OnlDaemons.Lib

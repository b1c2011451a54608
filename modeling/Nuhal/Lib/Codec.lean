import Mathlib.Data.List.Induction
import Mathlib.Data.Nat.Bitwise
import Mathlib.Tactic.NormNum

/-!
# Big-endian numbers as bytes

`bigEndian k v` is the `k`-byte big-endian form of `v` (its digits in base 256, most significant
first) and `ofBigEndian` reads such a form back: reading what was written gives `v` modulo
`256 ^ k` (`ofBigEndian_bigEndian`), and writing what was read gives the bytes
(`bigEndian_ofBigEndian`).

C code writes such forms with masks and shifts and reads them with shifts and bitwise or.
`and_shiftRight_mod` and `or_shiftLeft` turn those into the digits.
-/

namespace Nuhal.Lib

/-- The `k` low digits of `v` in base 256, most significant first. -/
def bigEndian : Nat → Nat → List UInt8
  | 0, _ => []
  | k + 1, v => bigEndian k (v / 256) ++ [UInt8.ofNat v]

/-- The number with the given digits in base 256. -/
def ofBigEndian (l : List UInt8) : Nat := l.foldl (fun acc b => 256 * acc + b.toNat) 0

@[simp] theorem length_bigEndian (k v : Nat) : (bigEndian k v).length = k := by
  induction k generalizing v with
  | zero => rfl
  | succ k ih => rw [bigEndian, List.length_append, ih, List.length_singleton]

theorem ofBigEndian_concat (l : List UInt8) (b : UInt8) :
    ofBigEndian (l ++ [b]) = 256 * ofBigEndian l + b.toNat := by
  unfold ofBigEndian
  rw [List.foldl_append]
  rfl

/-- **Writing a number and reading it back** keeps its `k` low digits. -/
theorem ofBigEndian_bigEndian (k v : Nat) : ofBigEndian (bigEndian k v) = v % 256 ^ k := by
  induction k generalizing v with
  | zero => rw [Nat.pow_zero, Nat.mod_one]; rfl
  | succ k ih =>
    have hb : (UInt8.ofNat v).toNat = v % 256 := UInt8.toNat_ofNat'
    rw [bigEndian, ofBigEndian_concat, ih, hb, Nat.pow_succ, Nat.mul_comm (256 ^ k) 256,
      Nat.mod_mul, Nat.add_comm]

/-- **Reading bytes and writing the number back** gives the bytes. -/
theorem bigEndian_ofBigEndian (l : List UInt8) : bigEndian l.length (ofBigEndian l) = l := by
  induction l using List.reverseRecOn with
  | nil => rfl
  | append_singleton l b ih =>
    have hb := b.toNat_lt
    have hdiv : (256 * ofBigEndian l + b.toNat) / 256 = ofBigEndian l := by omega
    have hbyte : UInt8.ofNat (256 * ofBigEndian l + b.toNat) = b := by
      apply UInt8.toNat_inj.mp
      rw [UInt8.toNat_ofNat']
      omega
    rw [ofBigEndian_concat, List.length_append, List.length_singleton, bigEndian, hdiv, ih, hbyte]

theorem ofBigEndian_lt (l : List UInt8) : ofBigEndian l < 256 ^ l.length := by
  induction l using List.reverseRecOn with
  | nil => exact Nat.one_pos
  | append_singleton l b ih =>
    have hb := b.toNat_lt
    rw [ofBigEndian_concat, List.length_append, List.length_singleton, Nat.pow_succ]
    omega

/-- Masking a byte out and shifting it down is taking a digit. -/
theorem and_shiftRight_mod {m k : Nat} (v : Nat) (hm : m >>> (8 * k) = 255) :
    (v &&& m) >>> (8 * k) % 256 = v / 256 ^ k % 256 := by
  rw [Nat.shiftRight_and_distrib, hm, Nat.and_two_pow_sub_one_eq_mod _ 8,
    Nat.shiftRight_eq_div_pow, Nat.pow_mul]
  norm_num

/-- Or-ing a shifted number onto bits below it is adding it. -/
theorem or_shiftLeft {a k : Nat} (h : a < 2 ^ k) (b : Nat) : a ||| b <<< k = a + 2 ^ k * b := by
  rw [Nat.or_comm, ← Nat.shiftLeft_add_eq_or_of_lt h, Nat.shiftLeft_eq, Nat.mul_comm,
    Nat.add_comm]

theorem shiftLeft_mod {b k w : Nat} (h : b * 2 ^ k < w) : b <<< k % w = b <<< k := by
  rw [Nat.shiftLeft_eq, Nat.mod_eq_of_lt h]

end Nuhal.Lib

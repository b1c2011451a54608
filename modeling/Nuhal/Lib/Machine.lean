import Mathlib.Algebra.Group.Int.Defs
import Mathlib.Algebra.Group.Nat.Defs
import Nuhal.Lib.Run

/-!
# Machine arithmetic that remembers an overflow

A `Machine ε` computes on 32-bit integers. Its state says whether the result of some operation so
far did not fit: an unsigned difference below zero, a conversion that changes the value, the
negation of the least signed integer. The operation then goes on with the value modulo `2 ^ 32`.

* `checked_of_fits`: an operation whose result fits leaves the state as it was.
* `subU32_of_le`, `toI32_of_lt`, `toU32_of_nonneg`, `negI32_of_ne`: when the results fit.
* `toInt_toInt32_of_lt`, `toInt_neg_toInt32`: what the conversions and the negation then mean.
-/

namespace Nuhal.Lib

/-- A program on 32-bit integers; the state says whether a result so far did not fit. -/
abbrev Machine (ε α : Type) := Run Bool ε α

namespace Machine

variable {ε α : Type}

/-- An operation with the result `a`, which fits or does not. -/
def checked (fits : Bool) (a : α) : Machine ε α := fun overflow => (.ok a, overflow || !fits)

/-- `a - b` on `uint32_t`. -/
def subU32 (a b : UInt32) : Machine ε UInt32 := checked (decide (b ≤ a)) (a - b)

/-- `(int32_t) a`. -/
def toI32 (a : UInt32) : Machine ε Int32 := checked (decide (a.toNat < 2 ^ 31)) a.toInt32

/-- `(uint32_t) a`. -/
def toU32 (a : Int32) : Machine ε UInt32 := checked (decide (0 ≤ a.toInt)) a.toUInt32

/-- `-a` on `int32_t`. -/
def negI32 (a : Int32) : Machine ε Int32 := checked (decide (a ≠ Int32.minValue)) (-a)

theorem checked_of_fits {fits : Bool} (h : fits = true) (a : α) (overflow : Bool) :
    (checked fits a : Machine ε α) overflow = (.ok a, overflow) := by
  unfold checked
  rw [h, Bool.not_true, Bool.or_false]

theorem subU32_of_le {a b : UInt32} (h : b ≤ a) (overflow : Bool) :
    (subU32 a b : Machine ε UInt32) overflow = (.ok (a - b), overflow) :=
  checked_of_fits (decide_eq_true h) _ _

theorem toI32_of_lt {a : UInt32} (h : a.toNat < 2 ^ 31) (overflow : Bool) :
    (toI32 a : Machine ε Int32) overflow = (.ok a.toInt32, overflow) :=
  checked_of_fits (decide_eq_true h) _ _

theorem toU32_of_nonneg {a : Int32} (h : 0 ≤ a.toInt) (overflow : Bool) :
    (toU32 a : Machine ε UInt32) overflow = (.ok a.toUInt32, overflow) :=
  checked_of_fits (decide_eq_true h) _ _

theorem negI32_of_ne {a : Int32} (h : a ≠ Int32.minValue) (overflow : Bool) :
    (negI32 a : Machine ε Int32) overflow = (.ok (-a), overflow) :=
  checked_of_fits (decide_eq_true h) _ _

/-! ## What the results mean -/

theorem toInt_toInt32_of_lt {a : UInt32} (h : a.toNat < 2 ^ 31) : a.toInt32.toInt = a.toNat := by
  show a.toBitVec.toInt = a.toBitVec.toNat
  have hlt : a.toBitVec.toNat < 2 ^ 31 := h
  exact BitVec.toInt_eq_toNat_of_lt (by omega)

theorem toInt_neg_toInt32 {a : UInt32} (h : a.toNat < 2 ^ 31) :
    (-a.toInt32).toInt = -(a.toNat : Int) := by
  rw [Int32.toInt_neg, toInt_toInt32_of_lt h]
  exact Int.bmod_eq_of_le (by omega) (by omega)

theorem toInt32_ne_minValue {a : UInt32} (h : a.toNat < 2 ^ 31) : a.toInt32 ≠ Int32.minValue := by
  intro heq
  have hint := congrArg Int32.toInt heq
  rw [toInt_toInt32_of_lt h] at hint
  have hmin : Int32.minValue.toInt = -2147483648 := rfl
  omega

/-- A `uint32_t` that is converted and negated. -/
theorem toNat_toUInt32 (a : Int32) : (a.toUInt32.toNat : Int) = a.toInt % 2 ^ 32 := by
  show ((a.toBitVec.toNat : Nat) : Int) = a.toBitVec.toInt % 2 ^ 32
  rw [BitVec.toInt_eq_toNat_cond]
  have := a.toBitVec.isLt
  split <;> omega

end Machine

end Nuhal.Lib

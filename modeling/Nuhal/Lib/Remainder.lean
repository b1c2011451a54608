import Mathlib.Algebra.Order.Floor.Ring
import Mathlib.Tactic.Linarith
import Mathlib.Tactic.Ring

/-!
# The truncated remainder

`fmod x y` is what is left of `x` after the whole multiples of `y` in it, counted towards zero: it
has the sign of `x`.

* `fmod_neg`: it is odd in `x`.
* `abs_fmod_lt`: it is less than `y` in size.
* `fmod_of_abs_lt`: it does not change what is less than `y` already.
* `abs_truncate_le`, `abs_sub_truncate_lt`: truncation goes towards zero, by less than one.
-/

namespace Nuhal.Lib

variable {K : Type} [Field K] [LinearOrder K] [FloorRing K]

/-- `q` without its fraction. -/
def truncate (q : K) : Int := if 0 ≤ q then ⌊q⌋ else ⌈q⌉

/-- The truncated remainder of `x` by `y`. -/
def fmod (x y : K) : K := x - truncate (x / y) * y

variable [IsStrictOrderedRing K] {x y : K}

theorem truncate_neg (q : K) : truncate (-q) = -truncate q := by
  unfold truncate
  rcases lt_trichotomy q 0 with hneg | rfl | hpos
  · rw [if_pos (by linarith), if_neg (by linarith), Int.floor_neg]
  · simp
  · rw [if_neg (by linarith), if_pos (by linarith), Int.ceil_neg]

theorem truncate_of_nonneg {q : K} (h : 0 ≤ q) :
    0 ≤ (truncate q : K) ∧ (truncate q : K) ≤ q ∧ q < truncate q + 1 := by
  unfold truncate
  rw [if_pos h]
  exact ⟨by exact_mod_cast Int.floor_nonneg.mpr h, Int.floor_le q, Int.lt_floor_add_one q⟩

theorem abs_truncate_le (q : K) : |(truncate q : K)| ≤ |q| := by
  rcases le_total 0 q with hq | hq
  · obtain ⟨hnonneg, hle, -⟩ := truncate_of_nonneg hq
    rwa [abs_of_nonneg hnonneg, abs_of_nonneg hq]
  · obtain ⟨hnonneg, hle, -⟩ := truncate_of_nonneg (neg_nonneg.mpr hq)
    rw [truncate_neg] at hnonneg hle
    push_cast at hnonneg hle
    rw [abs_of_nonpos hq, abs_of_nonpos (neg_nonneg.mp hnonneg)]
    exact hle

theorem abs_sub_truncate_lt (q : K) : |q - truncate q| < 1 := by
  rcases le_total 0 q with hq | hq
  · obtain ⟨-, hle, hlt⟩ := truncate_of_nonneg hq
    exact abs_lt.mpr ⟨by linarith, by linarith⟩
  · obtain ⟨-, hle, hlt⟩ := truncate_of_nonneg (neg_nonneg.mpr hq)
    rw [truncate_neg] at hle hlt
    push_cast at hle hlt
    exact abs_lt.mpr ⟨by linarith, by linarith⟩

theorem fmod_neg (x y : K) : fmod (-x) y = -fmod x y := by
  unfold fmod
  rw [neg_div, truncate_neg]
  push_cast
  ring

theorem fmod_of_nonneg (hx : 0 ≤ x) (hy : 0 < y) : 0 ≤ fmod x y ∧ fmod x y < y := by
  have hle := (le_div_iff₀ hy).mp (Int.floor_le (x / y))
  have hlt := (div_lt_iff₀ hy).mp (Int.lt_floor_add_one (x / y))
  unfold fmod truncate
  rw [if_pos (div_nonneg hx (le_of_lt hy))]
  constructor
  · linarith
  · linarith

theorem abs_fmod_lt (x : K) (hy : 0 < y) : |fmod x y| < y := by
  rcases le_total 0 x with hx | hx
  · obtain ⟨hnonneg, hlt⟩ := fmod_of_nonneg hx hy
    rwa [abs_of_nonneg hnonneg]
  · obtain ⟨hnonneg, hlt⟩ := fmod_of_nonneg (neg_nonneg.mpr hx) hy
    rw [fmod_neg] at hnonneg hlt
    rwa [← abs_neg, abs_of_nonneg hnonneg]

theorem fmod_of_abs_lt (h : |x| < y) : fmod x y = x := by
  have hy : 0 < y := lt_of_le_of_lt (abs_nonneg x) h
  obtain ⟨hlow, hhigh⟩ := abs_lt.mp h
  unfold fmod truncate
  split_ifs with hsign
  · have hzero : ⌊x / y⌋ = 0 := by
      rw [Int.floor_eq_zero_iff]
      exact ⟨hsign, (div_lt_one hy).mpr hhigh⟩
    rw [hzero, Int.cast_zero, zero_mul, sub_zero]
  · have hzero : ⌈x / y⌉ = 0 := by
      rw [Int.ceil_eq_zero_iff]
      refine ⟨?_, le_of_not_ge hsign⟩
      rw [lt_div_iff₀ hy]
      linarith
    rw [hzero, Int.cast_zero, zero_mul, sub_zero]

end Nuhal.Lib

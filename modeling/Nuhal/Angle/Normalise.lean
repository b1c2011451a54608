import Mathlib.Data.Rat.Floor
import Nuhal.All.Utilities

/-!
# Normalised angles (`nuhal_all/src/utilities.c:16-27`)

* `normalizeAngle_range`, `normalizeAngle_turns`, `normalizeAngle_fixed`, `normalizeAngle_neg`: the
  result is at most half a turn, whole turns from the angle, and normalised; the function is odd.
* `near_congruent`: two angles of at most half a turn, whole turns apart, are equal or the two
  half-turns.
* `normalizeAngle_correct`: **all of it together**.
-/

namespace Nuhal.Angle

open Nuhal.Lib Nuhal.All

variable {K : Type} [Field K] [LinearOrder K] [FloorRing K] [IsStrictOrderedRing K] {pi : K}

theorem normalizeAngle_range (hpi : 0 < pi) (x : K) :
    -pi ≤ normalizeAngle pi x ∧ normalizeAngle pi x ≤ pi := by
  have htwo : 0 < 2 * pi := by linarith
  obtain ⟨hlow, hhigh⟩ := abs_lt.mp (abs_fmod_lt x htwo)
  unfold normalizeAngle
  dsimp only
  split_ifs with habove hbelow
  · exact ⟨by linarith, by linarith⟩
  · exact ⟨by linarith, by linarith⟩
  · exact ⟨le_of_not_gt hbelow, le_of_not_gt habove⟩

omit [IsStrictOrderedRing K] in
theorem normalizeAngle_turns (pi x : K) : ∃ k : Int, normalizeAngle pi x = x + k * (2 * pi) := by
  unfold normalizeAngle fmod
  dsimp only
  generalize truncate (x / (2 * pi)) = q
  split_ifs with habove hbelow
  · refine ⟨-q - 1, ?_⟩
    push_cast
    ring
  · refine ⟨-q + 1, ?_⟩
    push_cast
    ring
  · refine ⟨-q, ?_⟩
    push_cast
    ring

/-- Half a turn either way is left as it is. -/
theorem normalizeAngle_of_near (hpi : 0 < pi) {x : K} (hlow : -pi ≤ x) (hhigh : x ≤ pi) :
    normalizeAngle pi x = x := by
  have hlt : |x| < 2 * pi := abs_lt.mpr ⟨by linarith, by linarith⟩
  unfold normalizeAngle
  rw [fmod_of_abs_lt hlt]
  dsimp only
  rw [if_neg (not_lt_of_ge hhigh), if_neg (not_lt_of_ge hlow)]

theorem normalizeAngle_fixed (hpi : 0 < pi) (x : K) :
    normalizeAngle pi (normalizeAngle pi x) = normalizeAngle pi x := by
  obtain ⟨hlow, hhigh⟩ := normalizeAngle_range hpi x
  exact normalizeAngle_of_near hpi hlow hhigh

theorem normalizeAngle_neg (hpi : 0 < pi) (x : K) :
    normalizeAngle pi (-x) = -normalizeAngle pi x := by
  unfold normalizeAngle
  rw [fmod_neg]
  dsimp only
  generalize fmod x (2 * pi) = a
  split_ifs <;> linarith

/-- Two angles of at most half a turn that are whole turns apart are equal, or they are the two
half-turns. -/
theorem near_congruent (hpi : 0 < pi) {a b : K} (ha : -pi ≤ a ∧ a ≤ pi) (hb : -pi ≤ b ∧ b ≤ pi)
    {k : Int} (hk : b = a + k * (2 * pi)) :
    b = a ∨ (a = pi ∧ b = -pi) ∨ (a = -pi ∧ b = pi) := by
  have htwo : 0 ≤ 2 * pi := by linarith
  have hless : k < 2 := by
    by_contra hge
    have hcast : (2 : K) ≤ k := by exact_mod_cast not_lt.mp hge
    have hfar := mul_le_mul_of_nonneg_right hcast htwo
    linarith [ha.1, hb.2]
  have hmore : -2 < k := by
    by_contra hle
    have hcast : (k : K) ≤ -2 := by exact_mod_cast not_lt.mp hle
    have hfar := mul_le_mul_of_nonneg_right hcast htwo
    linarith [ha.2, hb.1]
  obtain rfl | rfl | rfl : k = -1 ∨ k = 0 ∨ k = 1 := by omega
  · right
    left
    push_cast at hk
    exact ⟨by linarith [ha.2, hb.1], by linarith [ha.2, hb.1]⟩
  · left
    rw [hk, Int.cast_zero, zero_mul, add_zero]
  · right
    right
    push_cast at hk
    exact ⟨by linarith [ha.1, hb.2], by linarith [ha.1, hb.2]⟩

/-- **Normalising an angle.** It comes to at most half a turn, whole turns from the angle; it is
normalised then, the function is odd, and angles that are whole turns apart come to the same, but
for the half-turn and its negative. -/
theorem normalizeAngle_correct (hpi : 0 < pi) (x : K) :
    (-pi ≤ normalizeAngle pi x ∧ normalizeAngle pi x ≤ pi) ∧
    (∃ k : Int, normalizeAngle pi x = x + k * (2 * pi)) ∧
    normalizeAngle pi (normalizeAngle pi x) = normalizeAngle pi x ∧
    normalizeAngle pi (-x) = -normalizeAngle pi x ∧
    ∀ (y : K) (k : Int), y = x + k * (2 * pi) →
      normalizeAngle pi y = normalizeAngle pi x ∨
        (normalizeAngle pi x = pi ∧ normalizeAngle pi y = -pi) ∨
        (normalizeAngle pi x = -pi ∧ normalizeAngle pi y = pi) := by
  refine ⟨normalizeAngle_range hpi x, normalizeAngle_turns pi x, normalizeAngle_fixed hpi x,
    normalizeAngle_neg hpi x, fun y k hy => ?_⟩
  obtain ⟨i, hi⟩ := normalizeAngle_turns pi x
  obtain ⟨j, hj⟩ := normalizeAngle_turns pi y
  have hturns : normalizeAngle pi y = normalizeAngle pi x + (j + k - i : Int) * (2 * pi) := by
    rw [hi, hj, hy]
    push_cast
    ring
  exact near_congruent hpi (normalizeAngle_range hpi x) (normalizeAngle_range hpi y) hturns

/-- Three turns and a half, with `pi` as three: one half-turn or the other. -/
theorem normalizeAngle_three_turns :
    normalizeAngle (3 : ℚ) (-21) = normalizeAngle 3 21 ∨
      (normalizeAngle (3 : ℚ) 21 = 3 ∧ normalizeAngle (3 : ℚ) (-21) = -3) ∨
      (normalizeAngle (3 : ℚ) 21 = -3 ∧ normalizeAngle (3 : ℚ) (-21) = 3) :=
  (normalizeAngle_correct (by decide) 21).2.2.2.2 (-21) (-7) (by decide +kernel)

end Nuhal.Angle

import Mathlib.Algebra.Order.Ring.Rat
import Nuhal.Control.Calls

/-!
# When back calculation holds the integrator (`nuhal_all/src/pid.c:24-43`)

`ANTIWINDUP_BACK_CALCULATE` leaves the error out of the integral if the control would be saturated
by it. The comment in the code names three cases in which it accumulates: the control is not
saturated, it is saturated high and the integral error gets smaller, or it is saturated low and
the integral error gets bigger. The comparisons are strict on both sides, so that a control that
lies exactly on a limit is in none of them.

* `accumulates_or_onLimit`: off the limits, an error that would not push is accumulated.
* `freezesOnlyWhenPushed_iff`: **the integrator is held only if it must be, except on the limits**.
* `held_on_limit`: an integrator at its limit that the opposite error does not release.
-/

namespace Nuhal.Control

open Nuhal.Lib Nuhal.All

variable {F : Type} [CommRing F] [LinearOrder F]

/-- Accumulating the error would push the control further into saturation, or there is none. -/
def PushesFurther (gains : PidGains F) (st : PidState F) (error : F) : Prop :=
  (gains.uMax ≤ prospective gains st error ∧ 0 < error) ∨
    (prospective gains st error ≤ gains.uMin ∧ error < 0) ∨ error = 0

/-- In every saturate mode the call accumulates its error, unless that would push further. -/
def FreezesOnlyWhenPushed (gains : PidGains F) (st : PidState F) (reference measurement : F) :
    Prop :=
  ∀ saturate, ∃ u st', pidCompute (some gains) (some st) reference measurement saturate
      .backCalculate = .ok (u, st') ∧
    (¬ PushesFurther gains st (reference - measurement) →
      st'.iError = st.iError + (reference - measurement))

/-- The control with the error accumulated lies exactly on a limit, and the error leads back. -/
def OnLimit (gains : PidGains F) (st : PidState F) (error : F) : Prop :=
  (prospective gains st error = gains.uMax ∧ error < 0) ∨
    (prospective gains st error = gains.uMin ∧ 0 < error)

variable {gains : PidGains F} {st : PidState F} {error : F}

/-- An error that leads back from a limit does not push, and is not accumulated either. -/
theorem OnLimit.held (h : OnLimit gains st error) (hlimits : gains.uMin < gains.uMax) :
    ¬ PushesFurther gains st error ∧ ¬ Accumulates gains st error := by
  unfold PushesFurther Accumulates
  rcases h with ⟨hu, hneg⟩ | ⟨hu, hpos⟩
  · have hne := ne_of_lt hneg
    have hge := not_lt_of_gt hneg
    rw [hu]
    simp [hne, hge, not_le_of_gt hlimits]
  · have hne := ne_of_gt hpos
    have hge := not_lt_of_gt hpos
    rw [hu]
    simp [hne, hge, not_le_of_gt hlimits]

/-- Off the limits, an error that would not push further is accumulated. -/
theorem accumulates_or_onLimit (hpush : ¬ PushesFurther gains st error) :
    Accumulates gains st error ∨ OnLimit gains st error := by
  unfold PushesFurther at hpush
  push Not at hpush
  obtain ⟨hhigh, hlow, hne⟩ := hpush
  unfold Accumulates OnLimit
  rcases lt_or_gt_of_ne hne with hneg | hpos
  · -- below the lower limit a negative error would push
    have hmin : gains.uMin < prospective gains st error := by
      by_contra hle
      exact absurd hneg (not_lt_of_ge (hlow (le_of_not_gt hle)))
    rcases lt_trichotomy (prospective gains st error) gains.uMax with hlt | heq | hgt
    · exact Or.inl (Or.inl ⟨hmin, hlt⟩)
    · exact Or.inr (Or.inl ⟨heq, hneg⟩)
    · exact Or.inl (Or.inr (Or.inl ⟨hneg, hgt⟩))
  · have hmax : prospective gains st error < gains.uMax := by
      by_contra hge
      exact absurd hpos (not_lt_of_ge (hhigh (le_of_not_gt hge)))
    rcases lt_trichotomy (prospective gains st error) gains.uMin with hlt | heq | hgt
    · exact Or.inl (Or.inr (Or.inr ⟨hpos, hlt⟩))
    · exact Or.inr (Or.inr ⟨heq, hpos⟩)
    · exact Or.inl (Or.inl ⟨hgt, hmax⟩)

/-- **The integrator is held only if it must be, except on the limits.** The exception is a control
that would lie exactly on a limit while the error leads away from it. -/
theorem freezesOnlyWhenPushed_iff (gains : PidGains F) (hlimits : gains.uMin < gains.uMax)
    (st : PidState F) (reference measurement : F) :
    FreezesOnlyWhenPushed gains st reference measurement ↔
      ¬ OnLimit gains st (reference - measurement) := by
  unfold FreezesOnlyWhenPushed
  constructor
  · intro hfreeze hon
    obtain ⟨u, st', hcall, hi⟩ := hfreeze .none
    obtain ⟨hpush, hacc⟩ := hon.held hlimits
    rw [pidCompute_eq, integralAfter_of_not_accumulates gains st hacc] at hcall
    cases hcall
    have hzero : reference - measurement = 0 := left_eq_add.mp (hi hpush)
    exact hpush (Or.inr (Or.inr hzero))
  · intro hoff saturate
    refine ⟨_, _, pidCompute_eq gains st reference measurement saturate .backCalculate, ?_⟩
    intro hpush
    exact integralAfter_of_accumulates gains st ((accumulates_or_onLimit hpush).resolve_right hoff)

/-- A purely integral controller whose limit is ten. -/
def integralGains : PidGains ℚ :=
  { kp := 0, ki := 1, kd := 0, uMax := 10, uMin := -10, iMax := 100, iMin := -100 }

theorem released_beyond_limit :
    FreezesOnlyWhenPushed integralGains { pError := 0, iError := 12, dError := 0 } 0 1 := by
  refine (freezesOnlyWhenPushed_iff integralGains (by decide +kernel) _ 0 1).mpr ?_
  unfold OnLimit
  decide +kernel

/-- **An integrator that is not released.** An error of minus one would bring the control from
eleven back to its limit; it is not accumulated. -/
theorem held_on_limit :
    0 ≤ integralGains.ki ∧ integralGains.uMin < integralGains.uMax ∧
      ¬ FreezesOnlyWhenPushed integralGains { pError := 0, iError := 11, dError := 0 } 0 1 := by
  refine ⟨by decide +kernel, by decide +kernel, ?_⟩
  intro hfreeze
  obtain ⟨u, st', hcall, hi⟩ := hfreeze .none
  have hheld : pidCompute (some integralGains) (some { pError := 0, iError := 11, dError := 0 })
      0 1 .none .backCalculate = .ok (11, { pError := -1, iError := 11, dError := -1 }) := by
    decide +kernel
  rw [hheld] at hcall
  cases hcall
  have hpush :
      ¬ PushesFurther integralGains { pError := 0, iError := 11, dError := 0 } (0 - 1) := by
    unfold PushesFurther
    decide +kernel
  exact absurd (hi hpush) (by decide +kernel)

end Nuhal.Control

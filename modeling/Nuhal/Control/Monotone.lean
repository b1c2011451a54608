import Mathlib.Algebra.Order.Ring.Rat
import Mathlib.Tactic.GCongr
import Mathlib.Tactic.Ring
import Nuhal.Control.Windup

/-!
# The effort and the reference (`nuhal_all/src/pid.c:6-79`)

Two calls from one state that differ in the reference only.

* `controlAfter_le_iff`: the second control signal is the larger one if and only if what the
  proportional and the derivative part gain makes up for what the integral part loses.
* `integralAfter_mono`: it loses nothing, unless back calculation leaves out an error.
* `effort_mono`: **the effort is monotone in the reference, exactly unless back calculation lets
  the control signal fall** and no limit hides that.
* `effort_falls_back`: with back calculation it may; the guard that keeps the integrator from
  winding up drops the whole error at once.
-/

namespace Nuhal.Control

open Nuhal.Lib Nuhal.All

variable {F : Type} [CommRing F] [LinearOrder F]

/-- From one state, the first reference gives no larger an effort than the second. -/
def EffortLe (gains : PidGains F) (st : PidState F) (r₁ r₂ measurement : F)
    (saturate : SaturateType) (antiwindup : AntiwindupType) : Prop :=
  ∃ u₁ st₁ u₂ st₂,
    pidCompute (some gains) (some st) r₁ measurement saturate antiwindup = .ok (u₁, st₁) ∧
    pidCompute (some gains) (some st) r₂ measurement saturate antiwindup = .ok (u₂, st₂) ∧
    u₁ ≤ u₂

/-- The control signal of a call, before the output is bounded. -/
def controlAfter (gains : PidGains F) (st : PidState F) (error : F) (antiwindup : AntiwindupType) :
    F :=
  controlSignal gains error (integralAfter gains st error antiwindup) (error - st.pError)

/-- From one error to the next, back calculation takes more out of the integral part of the control
signal than the other parts gain. -/
def FallsBack (gains : PidGains F) (st : PidState F) (e₁ e₂ : F) : Prop :=
  (gains.kp + gains.kd) * (e₂ - e₁) <
    gains.ki * (integralAfter gains st e₁ .backCalculate -
      integralAfter gains st e₂ .backCalculate)

/-- The output limits bring two control signals together, or in order. -/
def Hidden (gains : PidGains F) (saturate : SaturateType) (u₁ u₂ : F) : Prop :=
  saturate = .output ∧ (u₁ ≤ gains.uMin ∨ gains.uMax ≤ u₂ ∨ gains.uMax ≤ gains.uMin)

variable {gains : PidGains F} {e₁ e₂ : F}

omit [CommRing F] in
theorem saturateOutput_le_iff (hu : gains.uMin ≤ gains.uMax) (saturate : SaturateType) {u₁ u₂ : F} :
    saturateOutput gains saturate u₁ ≤ saturateOutput gains saturate u₂ ↔
      u₁ ≤ u₂ ∨ Hidden gains saturate u₁ u₂ := by
  unfold Hidden
  cases saturate with
  | output =>
    rw [saturateOutput_output gains hu, saturateOutput_output gains hu, clamp_le_clamp_iff,
      and_iff_right rfl]
  | none =>
    show u₁ ≤ u₂ ↔ _
    rw [or_iff_left (fun h => by cases h.1)]

/-- The efforts are in order if the control signals are, or if the limits hide that they are not. -/
theorem effortLe_iff (hu : gains.uMin ≤ gains.uMax) (st : PidState F) (r₁ r₂ measurement : F)
    (saturate : SaturateType) (antiwindup : AntiwindupType) :
    EffortLe gains st r₁ r₂ measurement saturate antiwindup ↔
      controlAfter gains st (r₁ - measurement) antiwindup ≤
          controlAfter gains st (r₂ - measurement) antiwindup ∨
        Hidden gains saturate (controlAfter gains st (r₁ - measurement) antiwindup)
          (controlAfter gains st (r₂ - measurement) antiwindup) := by
  rw [← saturateOutput_le_iff hu]
  have hcall₁ := pidCompute_eq gains st r₁ measurement saturate antiwindup
  have hcall₂ := pidCompute_eq gains st r₂ measurement saturate antiwindup
  constructor
  · rintro ⟨u₁, st₁, u₂, st₂, hrun₁, hrun₂, hle⟩
    cases hrun₁.symm.trans hcall₁
    cases hrun₂.symm.trans hcall₂
    exact hle
  · exact fun hle => ⟨_, _, _, _, hcall₁, hcall₂, hle⟩

variable [IsStrictOrderedRing F]

/-- What the proportional and the derivative part gain has to make up for what the integral part
loses. -/
theorem controlAfter_le_iff (st : PidState F) (antiwindup : AntiwindupType) :
    controlAfter gains st e₁ antiwindup ≤ controlAfter gains st e₂ antiwindup ↔
      gains.ki * (integralAfter gains st e₁ antiwindup - integralAfter gains st e₂ antiwindup) ≤
        (gains.kp + gains.kd) * (e₂ - e₁) := by
  have hdiff : controlAfter gains st e₂ antiwindup - controlAfter gains st e₁ antiwindup =
      (gains.kp + gains.kd) * (e₂ - e₁) -
        gains.ki * (integralAfter gains st e₁ antiwindup -
          integralAfter gains st e₂ antiwindup) := by
    unfold controlAfter controlSignal
    ring
  rw [← sub_nonneg, hdiff, sub_nonneg]

/-- The integral follows the error, unless back calculation leaves an error out. -/
theorem integralAfter_mono (hi : gains.iMin ≤ gains.iMax) (st : PidState F)
    {antiwindup : AntiwindupType} (hmode : antiwindup ≠ .backCalculate) (he : e₁ ≤ e₂) :
    integralAfter gains st e₁ antiwindup ≤ integralAfter gains st e₂ antiwindup := by
  have hsum : st.iError + e₁ ≤ st.iError + e₂ := by gcongr
  cases antiwindup with
  | none => exact hsum
  | saturate =>
    unfold integralAfter
    dsimp only
    rw [saturateIntegral_eq gains hi, saturateIntegral_eq gains hi]
    exact clamp_mono hsum
  | backCalculate => exact absurd rfl hmode

/-- **The effort is monotone in the reference, exactly unless back calculation lets the control
signal fall** and no limit hides that. -/
theorem effort_mono (gains : PidGains F) (hkp : 0 ≤ gains.kp) (hki : 0 ≤ gains.ki)
    (hkd : 0 ≤ gains.kd) (hu : gains.uMin ≤ gains.uMax) (hi : gains.iMin ≤ gains.iMax)
    (st : PidState F) (measurement : F) (saturate : SaturateType) (antiwindup : AntiwindupType)
    (r₁ r₂ : F) (hr : r₁ ≤ r₂) :
    EffortLe gains st r₁ r₂ measurement saturate antiwindup ↔
      (antiwindup = .backCalculate → FallsBack gains st (r₁ - measurement) (r₂ - measurement) →
        Hidden gains saturate (controlAfter gains st (r₁ - measurement) antiwindup)
          (controlAfter gains st (r₂ - measurement) antiwindup)) := by
  rw [effortLe_iff hu, controlAfter_le_iff]
  have he : r₁ - measurement ≤ r₂ - measurement := by gcongr
  by_cases hmode : antiwindup = .backCalculate
  · subst hmode
    rw [← not_lt]
    exact ⟨fun h _ hfalls => h.resolve_left (not_not_intro hfalls),
      fun h => or_iff_not_imp_left.mpr fun hfalls => h rfl (not_not.mp hfalls)⟩
  · refine iff_of_true (.inl ?_) fun h => absurd h hmode
    have hintegral := integralAfter_mono hi st hmode he
    have hloss := mul_nonpos_of_nonneg_of_nonpos hki (sub_nonpos.mpr hintegral)
    exact hloss.trans (mul_nonneg (add_nonneg hkp hkd) (sub_nonneg.mpr he))

/-- A controller with a proportional and an integral part whose limit is ten. -/
def mixedGains : PidGains ℚ := { integralGains with kp := 1 }

/-- An error of four is accumulated and one of eleven is not, which the proportional part makes up
for. -/
theorem effort_mono_four_eleven : EffortLe mixedGains zeroState 4 11 0 .output .backCalculate := by
  refine (effort_mono mixedGains (by decide +kernel) (by decide +kernel) (by decide +kernel)
    (by decide +kernel) (by decide +kernel) zeroState 0 .output .backCalculate 4 11
    (by decide +kernel)).mpr fun _ hfalls => ?_
  unfold FallsBack at hfalls
  exact absurd hfalls (by decide +kernel)

/-- **A larger error that gives a smaller effort.** The limit of `integralGains` is ten: an error
of nine is accumulated, and an error of eleven is not. -/
theorem effort_falls_back :
    ¬ ∀ gains : PidGains ℚ, 0 ≤ gains.kp → 0 ≤ gains.ki → 0 ≤ gains.kd →
      gains.uMin ≤ gains.uMax → gains.iMin ≤ gains.iMax →
      ∀ (st : PidState ℚ) (measurement : ℚ) (saturate : SaturateType)
        (antiwindup : AntiwindupType) (r₁ r₂ : ℚ), r₁ ≤ r₂ →
        EffortLe gains st r₁ r₂ measurement saturate antiwindup := by
  intro hmono
  obtain ⟨u₁, st₁, u₂, st₂, hcall₁, hcall₂, hle⟩ := hmono integralGains (by decide +kernel)
    (by decide +kernel) (by decide +kernel) (by decide +kernel) (by decide +kernel) zeroState 0
    .output .backCalculate 9 11 (by decide +kernel)
  have hnine : pidCompute (some integralGains) (some zeroState) 9 0 .output .backCalculate =
      .ok (9, { pError := 9, iError := 9, dError := 9 }) := by decide +kernel
  have heleven : pidCompute (some integralGains) (some zeroState) 11 0 .output .backCalculate =
      .ok (0, { pError := 11, iError := 0, dError := 11 }) := by decide +kernel
  rw [hnine] at hcall₁
  rw [heleven] at hcall₂
  cases hcall₁
  cases hcall₂
  exact absurd hle (by decide +kernel)

end Nuhal.Control

import Nuhal.All.Pid
import Nuhal.Lib.Clamp
import Nuhal.Lib.Each

/-!
# Calls of the PID controller (`nuhal_all/src/pid.c:6-79`)

A controller is run by calling `pid_compute` again and again on one state. What a call is given,
its modes included, is a `PidCall`; a run is `Run.each (pidCall gains)` over a list of them.

* `pidCompute_eq`: what one call returns and leaves, by the integral error it leaves.
* `saturateOutput_output`, `saturateIntegral_eq`: the two bounds are clamps.
* `pidCall_of_within`: **inside all limits the modes make no difference**.
-/

namespace Nuhal.Control

open Nuhal.Lib Nuhal.All

variable {F : Type} [CommRing F]

/-- What one call of `pid_compute` is given besides the gains and the state. -/
structure PidCall (F : Type) where
  reference : F
  measurement : F
  saturate : SaturateType
  antiwindup : AntiwindupType

/-- The error of a call. -/
def PidCall.error (call : PidCall F) : F := call.reference - call.measurement

/-- The state before the first call. -/
def zeroState : PidState F := { pError := 0, iError := 0, dError := 0 }

/-- The control signal of an error if all of it were accumulated. -/
def prospective (gains : PidGains F) (st : PidState F) (error : F) : F :=
  gains.kp * error + gains.ki * (st.iError + error) + gains.kd * (error - st.pError)

variable [LinearOrder F]

/-- `pid_compute` on the controller's own gains and state. -/
def pidCall (gains : PidGains F) (call : PidCall F) : Run (PidState F) Halt F := fun st =>
  match pidCompute (some gains) (some st) call.reference call.measurement call.saturate
      call.antiwindup with
  | .ok (u, st') => (.ok u, st')
  | .error e => (.error e, st)

/-- Back calculation accumulates the error. -/
def Accumulates (gains : PidGains F) (st : PidState F) (error : F) : Prop :=
  (gains.uMin < prospective gains st error ∧ prospective gains st error < gains.uMax) ∨
    (error < 0 ∧ gains.uMax < prospective gains st error) ∨
    (0 < error ∧ prospective gains st error < gains.uMin)

/-- The integral error that a call leaves. -/
def integralAfter (gains : PidGains F) (st : PidState F) (error : F) : AntiwindupType → F
  | .none => st.iError + error
  | .backCalculate =>
    backCalculate gains error st.iError (st.iError + error) (prospective gains st error)
  | .saturate => saturateIntegral gains (st.iError + error)

variable (gains : PidGains F) (st : PidState F) (reference measurement : F)
  (saturate : SaturateType) (antiwindup : AntiwindupType)

/-- What a call returns and leaves. -/
theorem pidCompute_eq :
    pidCompute (some gains) (some st) reference measurement saturate antiwindup =
      .ok (saturateOutput gains saturate (controlSignal gains (reference - measurement)
          (integralAfter gains st (reference - measurement) antiwindup)
          (reference - measurement - st.pError)),
        { pError := reference - measurement
          iError := integralAfter gains st (reference - measurement) antiwindup
          dError := reference - measurement - st.pError }) := by
  cases antiwindup <;> rfl

theorem pidCall_eq (call : PidCall F) :
    pidCall gains call st =
      (.ok (saturateOutput gains call.saturate (controlSignal gains call.error
          (integralAfter gains st call.error call.antiwindup) (call.error - st.pError))),
        { pError := call.error
          iError := integralAfter gains st call.error call.antiwindup
          dError := call.error - st.pError }) := by
  unfold pidCall
  rw [pidCompute_eq]
  rfl

/-- Calls on the controller's own gains and state return. -/
theorem pidCalls_return (calls : List (PidCall F)) :
    ∃ us st', Run.each (pidCall gains) calls st = (.ok us, st') := by
  have hstep : ∀ call ∈ calls, ∀ (k : Nat) (st : PidState F), True →
      ∃ u st', pidCall gains call st = (.ok u, st') ∧ True :=
    fun call _ _ st _ => ⟨_, _, pidCall_eq gains st call, trivial⟩
  obtain ⟨us, st', hrun, -⟩ := Run.each_counts hstep (k := 0) (s := st) trivial
  exact ⟨us, st', hrun⟩

omit [CommRing F] in
theorem saturateOutput_output (hlimits : gains.uMin ≤ gains.uMax) (u : F) :
    saturateOutput gains .output u = clamp gains.uMin gains.uMax u := (clamp_eq_ite hlimits).symm

omit [CommRing F] in
theorem saturateIntegral_eq (hlimits : gains.iMin ≤ gains.iMax) (i : F) :
    saturateIntegral gains i = clamp gains.iMin gains.iMax i := (clamp_eq_ite hlimits).symm

omit [CommRing F] in
/-- The output limits bind nothing that is inside them. -/
theorem saturateOutput_of_within {u : F} (hmin : gains.uMin < u) (hmax : u < gains.uMax) :
    saturateOutput gains saturate u = u := by
  cases saturate with
  | output =>
    unfold saturateOutput
    dsimp only
    rw [if_neg (not_lt_of_gt hmax), if_neg (not_lt_of_gt hmin)]
  | none => rfl

theorem integralAfter_of_accumulates {error : F} (h : Accumulates gains st error) :
    integralAfter gains st error .backCalculate = st.iError + error := if_pos h

theorem integralAfter_of_not_accumulates {error : F} (h : ¬ Accumulates gains st error) :
    integralAfter gains st error .backCalculate = st.iError := if_neg h

/-- Inside all limits every mode accumulates the whole error. -/
theorem integralAfter_of_within {error : F} (hmin : gains.uMin < prospective gains st error)
    (hmax : prospective gains st error < gains.uMax) (hlow : gains.iMin ≤ st.iError + error)
    (hhigh : st.iError + error ≤ gains.iMax) :
    integralAfter gains st error antiwindup = st.iError + error := by
  cases antiwindup with
  | none => rfl
  | backCalculate => exact integralAfter_of_accumulates gains st (Or.inl ⟨hmin, hmax⟩)
  | saturate =>
    unfold integralAfter saturateIntegral
    dsimp only
    rw [if_neg (not_lt_of_ge hhigh), if_neg (not_lt_of_ge hlow)]

/-- A call that accumulates the whole error and bounds nothing. -/
theorem pidCall_of_whole {call : PidCall F}
    (hi : integralAfter gains st call.error call.antiwindup = st.iError + call.error)
    (hu : saturateOutput gains call.saturate (prospective gains st call.error) =
      prospective gains st call.error) :
    pidCall gains call st =
      (.ok (prospective gains st call.error),
        { pError := call.error
          iError := st.iError + call.error
          dError := call.error - st.pError }) := by
  rw [pidCall_eq, hi]
  unfold prospective at hu ⊢
  unfold controlSignal
  rw [hu]

/-- **Inside all limits the modes make no difference.** -/
theorem pidCall_of_within {call : PidCall F} (hmin : gains.uMin < prospective gains st call.error)
    (hmax : prospective gains st call.error < gains.uMax)
    (hlow : gains.iMin ≤ st.iError + call.error) (hhigh : st.iError + call.error ≤ gains.iMax) :
    pidCall gains call st =
      (.ok (prospective gains st call.error),
        { pError := call.error
          iError := st.iError + call.error
          dError := call.error - st.pError }) :=
  pidCall_of_whole gains st
    (integralAfter_of_within gains st call.antiwindup hmin hmax hlow hhigh)
    (saturateOutput_of_within gains call.saturate hmin hmax)

/-- Without limits the whole error is accumulated and nothing is bounded. -/
theorem pidCall_of_none {call : PidCall F} (hsat : call.saturate = .none)
    (hwindup : call.antiwindup = .none) :
    pidCall gains call st =
      (.ok (prospective gains st call.error),
        { pError := call.error
          iError := st.iError + call.error
          dError := call.error - st.pError }) := by
  refine pidCall_of_whole gains st ?_ ?_
  · rw [hwindup]
    rfl
  · rw [hsat]
    rfl

end Nuhal.Control

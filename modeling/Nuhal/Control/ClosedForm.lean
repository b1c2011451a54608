import Mathlib.Algebra.BigOperators.Group.Finset.Basic
import Mathlib.Algebra.Order.Ring.Rat
import Nuhal.Control.Calls

/-!
# The closed form of a PID run

Over a run from the zero state the controller is its textbook formula: with `e_n` the error of the
call `n`, counted from one, and `e_0 = 0`, the effort is
`kp * e_n + ki * (e_1 + ... + e_n) + kd * (e_n - e_(n-1))`.

* `stateAfter_step`: one call takes the state of the formula to the next one.
* `pid_closedForm`: **the run is its formula**, without modes, and with any modes while all limits
  are kept.
-/

namespace Nuhal.Control

open Nuhal.Lib Nuhal.All

variable {F : Type} [CommRing F]

/-! ## The formula -/

/-- `e_n`: the error of the call `n`, counted from one. -/
def nthError (calls : List (PidCall F)) : Nat → F
  | 0 => 0
  | n + 1 => (calls[n]?.map PidCall.error).getD 0

/-- `e_1 + ... + e_n`. -/
def errorSum (calls : List (PidCall F)) (n : Nat) : F :=
  ∑ k ∈ Finset.range n, nthError calls (k + 1)

/-- `u_n`, the effort that the formula gives for the call `n`. -/
def closedForm (gains : PidGains F) (calls : List (PidCall F)) (n : Nat) : F :=
  gains.kp * nthError calls n + gains.ki * errorSum calls n +
    gains.kd * (nthError calls n - nthError calls (n - 1))

/-- The state that the formula gives after the call `n`. -/
def stateAfter (calls : List (PidCall F)) (n : Nat) : PidState F where
  pError := nthError calls n
  iError := errorSum calls n
  dError := nthError calls n - nthError calls (n - 1)

variable (gains : PidGains F) (calls : List (PidCall F))

@[simp] theorem stateAfter_zero : stateAfter calls 0 = zeroState := by
  simp [stateAfter, zeroState, nthError, errorSum]

theorem nthError_succ {k : Nat} (hk : k < calls.length) :
    nthError calls (k + 1) = calls[k].error := by
  simp [nthError, hk]

theorem errorSum_succ (n : Nat) :
    errorSum calls (n + 1) = errorSum calls n + nthError calls (n + 1) :=
  Finset.sum_range_succ _ n

/-- The effort of the formula is the control signal with the whole error accumulated. -/
theorem prospective_stateAfter {k : Nat} (hk : k < calls.length) :
    prospective gains (stateAfter calls k) calls[k].error = closedForm gains calls (k + 1) := by
  unfold prospective closedForm stateAfter
  rw [errorSum_succ, nthError_succ calls hk, Nat.add_sub_cancel]

theorem stateAfter_succ {k : Nat} (hk : k < calls.length) :
    stateAfter calls (k + 1) =
      { pError := calls[k].error
        iError := (stateAfter calls k).iError + calls[k].error
        dError := calls[k].error - (stateAfter calls k).pError } := by
  unfold stateAfter
  rw [errorSum_succ, nthError_succ calls hk, Nat.add_sub_cancel]

/-! ## The run -/

variable [LinearOrder F]

/-- The run over the calls returns `u_1, u_2, ...` and leaves the state of the formula. -/
def IsClosedForm (gains : PidGains F) (calls : List (PidCall F)) : Prop :=
  Run.each (pidCall gains) calls zeroState =
    (.ok ((List.range calls.length).map fun k => closedForm gains calls (k + 1)),
      stateAfter calls calls.length)

/-- The call `n` of the formula keeps all limits. -/
structure KeepsLimits (gains : PidGains F) (calls : List (PidCall F)) (n : Nat) : Prop where
  uMin : gains.uMin < closedForm gains calls n
  uMax : closedForm gains calls n < gains.uMax
  iMin : gains.iMin ≤ errorSum calls n
  iMax : errorSum calls n ≤ gains.iMax

/-- One call that accumulates the whole error and bounds nothing is one step of the formula. -/
theorem stateAfter_step {k : Nat} (hk : k < calls.length)
    (hcall : (calls[k].saturate = .none ∧ calls[k].antiwindup = .none) ∨
      KeepsLimits gains calls (k + 1)) :
    pidCall gains calls[k] (stateAfter calls k) =
      (.ok (closedForm gains calls (k + 1)), stateAfter calls (k + 1)) := by
  rw [← prospective_stateAfter gains calls hk, stateAfter_succ calls hk]
  rcases hcall with ⟨hsat, hwindup⟩ | hkeeps
  · exact pidCall_of_none gains _ hsat hwindup
  · have hu := prospective_stateAfter gains calls hk
    have hi : (stateAfter calls k).iError + calls[k].error = errorSum calls (k + 1) := by
      rw [errorSum_succ, nthError_succ calls hk]
      rfl
    refine pidCall_of_within gains _ ?_ ?_ ?_ ?_
    · rw [hu]
      exact hkeeps.uMin
    · rw [hu]
      exact hkeeps.uMax
    · rw [hi]
      exact hkeeps.iMin
    · rw [hi]
      exact hkeeps.iMax

/-- A run is its formula if every call is one step of it. -/
theorem isClosedForm_of_steps
    (step : ∀ k (hk : k < calls.length), pidCall gains calls[k] (stateAfter calls k) =
      (.ok (closedForm gains calls (k + 1)), stateAfter calls (k + 1))) :
    IsClosedForm gains calls := by
  unfold IsClosedForm
  rw [← stateAfter_zero calls]
  exact Run.each_of_states step

/-- **The closed form of a PID run.** Without modes the run is its formula; and if no call of the
formula passes a limit, it is its formula in all modes, even if they change from call to call. -/
theorem pid_closedForm :
    ((∀ call ∈ calls, call.saturate = .none ∧ call.antiwindup = .none) →
        IsClosedForm gains calls) ∧
      ((∀ n, 1 ≤ n → n ≤ calls.length → KeepsLimits gains calls n) → IsClosedForm gains calls) := by
  constructor
  · intro hnone
    refine isClosedForm_of_steps gains calls fun k hk => ?_
    exact stateAfter_step gains calls hk (Or.inl (hnone _ (List.getElem_mem hk)))
  · intro hkeeps
    refine isClosedForm_of_steps gains calls fun k hk => ?_
    exact stateAfter_step gains calls hk (Or.inr (hkeeps (k + 1) (Nat.le_add_left 1 k) hk))

/-- Three calls whose modes change. -/
def mixedCalls : List (PidCall ℚ) :=
  [{ reference := 3, measurement := 1, saturate := .output, antiwindup := .backCalculate },
    { reference := 3, measurement := 7 / 2, saturate := .none, antiwindup := .saturate },
    { reference := 3, measurement := 4, saturate := .output, antiwindup := .none }]

/-- Gains with limits that `mixedCalls` keeps. -/
def wideGains : PidGains ℚ :=
  { kp := 2, ki := 1, kd := 1 / 2, uMax := 10, uMin := -10, iMax := 5, iMin := -5 }

theorem pid_closedForm_mixed :
    IsClosedForm wideGains (mixedCalls.map fun call =>
        { call with saturate := .none, antiwindup := .none }) ∧
      IsClosedForm wideGains mixedCalls := by
  constructor
  · refine (pid_closedForm wideGains _).1 ?_
    decide +kernel
  · refine (pid_closedForm wideGains mixedCalls).2 ?_
    intro n hpos hle
    have hle' : n ≤ 3 := hle
    obtain rfl | rfl | rfl : n = 1 ∨ n = 2 ∨ n = 3 := by omega
    all_goals constructor <;> decide +kernel

end Nuhal.Control

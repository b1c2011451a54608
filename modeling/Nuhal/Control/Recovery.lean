import Mathlib.Algebra.Order.Ring.Rat
import Nuhal.Control.Calls

/-!
# Recovery from windup (`nuhal_all/src/pid.c:44-56`)

`ANTIWINDUP_SATURATE` clamps the integral error after every call, so that it forgets how long it
was wound up.

* `integral_counts`: what holds of the integral error after as many calls as there were.
* `limited_after`: one call is enough to be within the limits.
* `windup_recovery`: **`n` errors below minus `eps` take the integral error down by `n * eps`**,
  from the upper limit at the most, and the other way round.
-/

namespace Nuhal.Control

open Nuhal.Lib Nuhal.All

variable {F : Type} [CommRing F] [LinearOrder F] {gains : PidGains F} {call : PidCall F}

theorem pidCall_saturate (hlimits : gains.iMin ≤ gains.iMax) (hmode : call.antiwindup = .saturate)
    (st : PidState F) : ∃ u st', pidCall gains call st = (.ok u, st') ∧
      st'.iError = clamp gains.iMin gains.iMax (st.iError + call.error) := by
  rw [pidCall_eq, hmode]
  exact ⟨_, _, rfl, saturateIntegral_eq gains hlimits _⟩

/-- If every call takes `B k` of the integral error to `B (k + 1)`, all of them add their
number. -/
theorem integral_counts (hlimits : gains.iMin ≤ gains.iMax) {B : Nat → F → Prop}
    {calls : List (PidCall F)} (hmode : ∀ call ∈ calls, call.antiwindup = .saturate)
    (step : ∀ call ∈ calls, ∀ k i, B k i →
      B (k + 1) (clamp gains.iMin gains.iMax (i + call.error)))
    {st : PidState F} (hstart : B 0 st.iError) :
    ∃ us st', Run.each (pidCall gains) calls st = (.ok us, st') ∧ B calls.length st'.iError := by
  have hstep : ∀ call ∈ calls, ∀ k (st : PidState F), B k st.iError →
      ∃ u st', pidCall gains call st = (.ok u, st') ∧ B (k + 1) st'.iError := by
    intro call hcall k st hB
    obtain ⟨u, st', hrun, hi⟩ := pidCall_saturate hlimits (hmode call hcall) st
    refine ⟨u, st', hrun, ?_⟩
    rw [hi]
    exact step call hcall k st.iError hB
  obtain ⟨us, st', hrun, hB⟩ := Run.each_counts hstep hstart
  rw [Nat.zero_add] at hB
  exact ⟨us, st', hrun, hB⟩

/-- After a call the integral error is within its limits. -/
theorem limited_after (hlimits : gains.iMin ≤ gains.iMax) {calls : List (PidCall F)}
    (hcalls : calls ≠ []) (hmode : ∀ call ∈ calls, call.antiwindup = .saturate) (st : PidState F) :
    ∃ us st', Run.each (pidCall gains) calls st = (.ok us, st') ∧
      gains.iMin ≤ st'.iError ∧ st'.iError ≤ gains.iMax := by
  let Limited (k : Nat) (i : F) : Prop := 0 < k → gains.iMin ≤ i ∧ i ≤ gains.iMax
  have hstart : Limited 0 st.iError := fun h => absurd h (Nat.lt_irrefl 0)
  obtain ⟨us, st', hrun, hlimited⟩ := integral_counts hlimits hmode
    (fun _ _ _ _ _ _ => ⟨le_clamp, clamp_le hlimits⟩) hstart
  exact ⟨us, st', hrun, hlimited (List.length_pos_iff.mpr hcalls)⟩

variable [IsStrictOrderedRing F]

/-- Errors of at most minus `eps` take the integral error down. -/
theorem recovery_down (hlimits : gains.iMin ≤ gains.iMax) {eps : F} (heps : 0 < eps)
    {calls : List (PidCall F)} (hmode : ∀ call ∈ calls, call.antiwindup = .saturate)
    (herror : ∀ call ∈ calls, call.error ≤ -eps) {st : PidState F}
    (hlow : gains.iMin ≤ st.iError) (hhigh : st.iError ≤ gains.iMax) :
    ∃ us st', Run.each (pidCall gains) calls st = (.ok us, st') ∧ gains.iMin ≤ st'.iError ∧
      st'.iError ≤ max gains.iMin (gains.iMax - calls.length * eps) := by
  let Down (k : Nat) (i : F) : Prop :=
    gains.iMin ≤ i ∧ i ≤ max gains.iMin (gains.iMax - k * eps)
  have hstart : Down 0 st.iError := ⟨hlow, le_max_of_le_right (by simpa using hhigh)⟩
  refine integral_counts hlimits hmode ?_ hstart
  intro call hcall k i hdown
  exact ⟨le_clamp, clamp_add_le heps hdown.2 (herror call hcall)⟩

/-- Errors of at least `eps` take the integral error up. -/
theorem recovery_up (hlimits : gains.iMin ≤ gains.iMax) {eps : F} (heps : 0 < eps)
    {calls : List (PidCall F)} (hmode : ∀ call ∈ calls, call.antiwindup = .saturate)
    (herror : ∀ call ∈ calls, eps ≤ call.error) {st : PidState F}
    (hlow : gains.iMin ≤ st.iError) (hhigh : st.iError ≤ gains.iMax) :
    ∃ us st', Run.each (pidCall gains) calls st = (.ok us, st') ∧
      min gains.iMax (gains.iMin + calls.length * eps) ≤ st'.iError ∧
      st'.iError ≤ gains.iMax := by
  let Up (k : Nat) (i : F) : Prop :=
    min gains.iMax (gains.iMin + k * eps) ≤ i ∧ i ≤ gains.iMax
  have hstart : Up 0 st.iError := ⟨min_le_of_right_le (by simpa using hlow), hhigh⟩
  refine integral_counts hlimits hmode ?_ hstart
  intro call hcall k i hup
  exact ⟨le_clamp_add heps hup.1 (herror call hcall), clamp_le hlimits⟩

/-- **Recovery from windup does not depend on the history.** -/
theorem windup_recovery (gains : PidGains F) (hlimits : gains.iMin ≤ gains.iMax)
    (before after : List (PidCall F)) (hbefore : before ≠ [])
    (hmode : ∀ call ∈ before ++ after, call.antiwindup = .saturate) (eps : F) (heps : 0 < eps)
    (st : PidState F) :
    ∃ us st', Run.each (pidCall gains) (before ++ after) st = (.ok us, st') ∧
      ((∀ call ∈ after, call.error ≤ -eps) → gains.iMin ≤ st'.iError ∧
        st'.iError ≤ max gains.iMin (gains.iMax - after.length * eps)) ∧
      ((∀ call ∈ after, eps ≤ call.error) →
        min gains.iMax (gains.iMin + after.length * eps) ≤ st'.iError ∧
        st'.iError ≤ gains.iMax) := by
  have hmodeBefore : ∀ call ∈ before, call.antiwindup = .saturate :=
    fun call hcall => hmode call (List.mem_append_left _ hcall)
  have hmodeAfter : ∀ call ∈ after, call.antiwindup = .saturate :=
    fun call hcall => hmode call (List.mem_append_right _ hcall)
  obtain ⟨us₁, st₁, hfirst, hlow, hhigh⟩ := limited_after hlimits hbefore hmodeBefore st
  obtain ⟨us₂, st₂, hlast⟩ := pidCalls_return gains st₁ after
  refine ⟨us₁ ++ us₂, st₂, Run.each_append hfirst hlast, ?_, ?_⟩
  · intro herror
    obtain ⟨us, st', hrun, hbounds⟩ := recovery_down hlimits heps hmodeAfter herror hlow hhigh
    rw [hlast] at hrun
    cases hrun
    exact hbounds
  · intro herror
    obtain ⟨us, st', hrun, hbounds⟩ := recovery_up hlimits heps hmodeAfter herror hlow hhigh
    rw [hlast] at hrun
    cases hrun
    exact hbounds

/-- Gains with an integral error of at most five units. -/
def limitedGains : PidGains ℚ :=
  { kp := 1, ki := 1, kd := 0, uMax := 10, uMin := -10, iMax := 5, iMin := -5 }

/-- A call with the given error. -/
def limitedCall (error : ℚ) : PidCall ℚ :=
  { reference := error, measurement := 0, saturate := .output, antiwindup := .saturate }

/-- Wound up for three calls with large errors, then three errors of minus one: two of the five
units are left. -/
theorem windup_recovery_three :
    ∃ us st', Run.each (pidCall limitedGains) (List.replicate 3 (limitedCall 100) ++
        List.replicate 3 (limitedCall (-1))) zeroState = (.ok us, st') ∧
      -5 ≤ st'.iError ∧ st'.iError ≤ 2 := by
  obtain ⟨us, st', hrun, hdown, -⟩ := windup_recovery limitedGains (by decide +kernel)
    (List.replicate 3 (limitedCall 100)) (List.replicate 3 (limitedCall (-1))) (by decide +kernel)
    (by decide +kernel) 1 (by decide +kernel) zeroState
  obtain ⟨hlow, hhigh⟩ := hdown (by decide +kernel)
  exact ⟨us, st', hrun, hlow, hhigh.trans (by decide +kernel)⟩

end Nuhal.Control

import Mathlib.Data.Nat.Find
import Nuhal.Clock.Elapsed

/-!
# Delays (`nuhal_all/src/time.c:5-23`)

A delay looks at the elapsed time until there is enough of it. The header asks for less than a
period (`time.h:29-38`). What has to fit is the delay and one pause between two looks, into the 32
bits of the elapsed time: longer ago than that, the elapsed time may have come round again.

* `delayLoop_eq`, `timeDelay_early`: the loop ends at the first look that shows enough.
* `timeDelay_returns`: when it ends, on a clock that is looked at often enough.
* `delay_exact`: **no delay is too short**, and where it fits it is too long by a pause at most.
-/

namespace Nuhal.Clock

open Nuhal.All Nuhal.Linux

variable {P : Nat} {τ : Nat → Nat} {period wait : UInt32} {current : Nat → UInt32}

/-! ## The loop -/

/-- If the look at `m` is the first that shows enough, the loop ends there. -/
theorem delayLoop_eq {k m fuel : Nat} (hkm : k < m) (hfuel : m ≤ k + fuel)
    (hless : ∀ j, k < j → j < m → (elapsedAfter period current j).1 < wait)
    (henough : ¬ (elapsedAfter period current m).1 < wait) :
    delayLoop period current wait fuel (k + 1) (elapsedAfter period current k).2 = some m := by
  induction fuel generalizing k with
  | zero => omega
  | succ fuel ih =>
    unfold delayLoop
    show (if (elapsedAfter period current (k + 1)).1 < wait then
      delayLoop period current wait fuel (k + 2) (elapsedAfter period current (k + 1)).2
      else some (k + 1)) = some m
    rcases Nat.eq_or_lt_of_le (Nat.succ_le_of_lt hkm) with rfl | hmore
    · rw [if_neg henough]
    · rw [if_pos (hless (k + 1) (Nat.lt_succ_self k) hmore)]
      exact ih hmore (by omega) fun j hj hjm => hless j (Nat.lt_of_succ_lt hj) hjm

/-- Where the loop ends there was enough. -/
theorem delayLoop_enough {k m fuel : Nat}
    (hloop : delayLoop period current wait fuel (k + 1) (elapsedAfter period current k).2 =
      some m) : ¬ (elapsedAfter period current m).1 < wait := by
  induction fuel generalizing k with
  | zero => cases hloop
  | succ fuel ih =>
    unfold delayLoop at hloop
    have hnext : (if (elapsedAfter period current (k + 1)).1 < wait then
      delayLoop period current wait fuel (k + 2) (elapsedAfter period current (k + 1)).2
      else some (k + 1)) = some m := hloop
    by_cases hgoes : (elapsedAfter period current (k + 1)).1 < wait
    · rw [if_pos hgoes] at hnext
      exact ih hnext
    · rw [if_neg hgoes] at hnext
      cases hnext
      exact hgoes

/-! ## One clock -/

/-- **A delay is never too short**, however rarely the clock is looked at and however long the delay
is. -/
theorem timeDelay_early (hmono : Monotone τ) (h : Counts P τ period current) {fuel m : Nat}
    (hdelay : timeDelay period current wait fuel = some m) : wait.toNat ≤ τ m - τ 0 := by
  have hshows : ∀ i, (current i).toNat = τ i % period.toNat := fun i => by rw [h.2 i, h.1]
  have henough : ¬ (elapsedAfter period current m).1 < wait := delayLoop_enough hdelay
  exact Nat.le_trans (UInt32.le_iff_toNat_le.mp (UInt32.not_lt.mp henough))
    (elapsedAfter_le hmono hshows m).2.2

/-- The look at `m` ends the delay: it is the first one, or it comes a pause after one that was too
early. -/
structure Ended (τ : Nat → Nat) (wait gap : Nat) (delay : Nat → Option Nat) (m : Nat) : Prop where
  returns : ∀ fuel, m ≤ fuel → delay fuel = some m
  enough : wait ≤ τ m - τ 0
  first : ∀ j, 0 < j → j < m → τ j - τ 0 < wait
  late : τ m - τ 0 ≤ wait + gap

/-- A delay that fits, on a clock that is looked at often enough and does not stand still. -/
theorem timeDelay_returns {gap : Nat} (hmono : ∀ i, τ i ≤ τ (i + 1))
    (hgap : ∀ i, τ (i + 1) - τ i ≤ gap) (hperiod : gap < P) (hpasses : ∀ T, ∃ i, T ≤ τ i)
    (h : Counts P τ period current) (hfits : wait.toNat + gap ≤ 2 ^ 32) :
    ∃ m, Ended τ wait.toNat gap (timeDelay period current wait) m := by
  have hstart : ∀ i, τ 0 ≤ τ i := fun i => monotone_nat_of_le_succ hmono (Nat.zero_le i)
  have hexact := elapsedAfter_counts hmono (fun i => Nat.lt_of_le_of_lt (hgap i) hperiod) h
  obtain ⟨m, ⟨hpos, henough⟩, hfirst⟩ : ∃ m, (0 < m ∧ wait.toNat ≤ τ m - τ 0) ∧
      ∀ j, j < m → ¬ (0 < j ∧ wait.toNat ≤ τ j - τ 0) := by
    have hsome : ∃ m, 0 < m ∧ wait.toNat ≤ τ m - τ 0 := by
      obtain ⟨i, hi⟩ := hpasses (τ 0 + wait.toNat)
      exact ⟨i + 1, Nat.succ_pos i, by have := hmono i; omega⟩
    classical
    exact ⟨Nat.find hsome, Nat.find_spec hsome, fun j hj => Nat.find_min hsome hj⟩
  have hbefore : ∀ j, 0 < j → j < m → τ j - τ 0 < wait.toNat := by
    intro j hj hjm
    have hnot := hfirst j hjm
    omega
  have hlate : τ m - τ 0 ≤ wait.toNat + gap ∧ τ m - τ 0 < 2 ^ 32 := by
    obtain ⟨k, rfl⟩ : ∃ k, m = k + 1 := ⟨m - 1, by omega⟩
    have hstep := hgap k
    have hle := hmono k
    have hk := hstart k
    have hbits := period.toNat_lt
    rw [h.1] at hbits
    rcases Nat.eq_zero_or_pos k with rfl | hk0
    · rcases Nat.eq_zero_or_pos wait.toNat with hzero | hwait <;> omega
    · have hless := hbefore k hk0 (Nat.lt_succ_self k)
      omega
  refine ⟨m, fun fuel hfuel => ?_, henough, hbefore, hlate.1⟩
  refine delayLoop_eq hpos (by omega) (fun j hj hjm => ?_) ?_
  · have hless := hbefore j hj hjm
    rw [UInt32.lt_iff_toNat_lt, (hexact j).2]
    have hwait := wait.toNat_lt
    rw [Nat.mod_eq_of_lt (by omega)]
    exact hless
  · rw [UInt32.lt_iff_toNat_lt, (hexact m).2, Nat.mod_eq_of_lt hlate.2]
    exact Nat.not_lt.mpr henough

/-! ## Any platform -/

/-- What is promised of a delay on a clock that counts the true times `τ` modulo `P`. -/
def Delays (P gap : Nat) (τ : Nat → Nat) (wait : UInt32) (delay : Nat → Option Nat) : Prop :=
  (∀ fuel m, delay fuel = some m → wait.toNat ≤ τ m - τ 0) ∧
    ((∀ i, τ (i + 1) - τ i ≤ gap) → gap < P → wait.toNat + gap ≤ 2 ^ 32 → (∀ T, ∃ i, T ≤ τ i) →
      ∃ m, Ended τ wait.toNat gap delay m)

theorem timeDelay_delays (gap : Nat) (hmono : ∀ i, τ i ≤ τ (i + 1)) (h : Counts P τ period current)
    (wait : UInt32) : Delays P gap τ wait (timeDelay period current wait) :=
  ⟨fun _ _ => timeDelay_early (monotone_nat_of_le_succ hmono) h,
    fun hgap hperiod hfits hpasses => timeDelay_returns hmono hgap hperiod hpasses h hfits⟩

/-- **Delays are exact up to a pause.** On a clock that counts the true times modulo any period, no
delay ends before its time is over, however rarely the clock is looked at. If it is looked at once
in `gap`, which is less than a period and with the delay fits 32 bits, the delay ends: at the first
look after its time, and so at most `gap` late. For milliseconds and for microseconds; the clocks of
`nuhal_linux` are such clocks. -/
theorem delay_exact {gap : Nat} (hmono : ∀ i, τ i ≤ τ (i + 1)) (timer : Timer) (wait : UInt32) :
    (Counts P τ timer.periodMs timer.currentMs → Delays P gap τ wait (timeDelayMs timer wait)) ∧
    (Counts P τ timer.periodUs timer.currentUs → Delays P gap τ wait (timeDelayUs timer wait)) ∧
    ∀ tspec : Nat → Timespec,
      ((∀ i, timeOfDay 1000 1000000 (tspec i) < 2 ^ 64) →
        (∀ i, timeOfDay 1000 1000000 (tspec i) ≤ timeOfDay 1000 1000000 (tspec (i + 1))) →
        Delays (2 ^ 32 - 1) gap (fun i => timeOfDay 1000 1000000 (tspec i)) wait
          (timeDelayMs (hostTimer tspec) wait)) ∧
      ((∀ i, timeOfDay 1000000 1000 (tspec i) < 2 ^ 64) →
        (∀ i, timeOfDay 1000000 1000 (tspec i) ≤ timeOfDay 1000000 1000 (tspec (i + 1))) →
        Delays (2 ^ 32 - 1) gap (fun i => timeOfDay 1000000 1000 (tspec i)) wait
          (timeDelayUs (hostTimer tspec) wait)) :=
  ⟨fun h => timeDelay_delays gap hmono h wait, fun h => timeDelay_delays gap hmono h wait,
    fun tspec => ⟨fun hfits hforward =>
      timeDelay_delays gap hforward ((hostTimer_counts tspec).1 hfits) wait,
    fun hfits hforward => timeDelay_delays gap hforward ((hostTimer_counts tspec).2 hfits) wait⟩⟩

/-- On a clock of period 10 that is read every 7 units a delay of 15 ends at the third look. -/
theorem delay_exact_sevens :
    ∃ m, Ended (fun i => 7 * i) 15 7
      (timeDelayMs ⟨fun i => UInt32.ofNat (7 * i % 10), fun _ => 0, 10, 0⟩ 15) m := by
  refine ((@delay_exact 10 (fun i => 7 * i) 7 (fun i => ?_) _ 15).1 ⟨rfl, fun i => ?_⟩).2
    (fun i => ?_) (by decide) (by decide) fun T => ⟨T, ?_⟩
  · exact Nat.mul_le_mul_left 7 (Nat.le_succ i)
  · exact UInt32.toNat_ofNat_of_lt' (Nat.lt_trans (Nat.mod_lt _ (by decide)) (by decide))
  · show 7 * (i + 1) - 7 * i ≤ 7
    omega
  · show T ≤ 7 * T
    omega

end Nuhal.Clock

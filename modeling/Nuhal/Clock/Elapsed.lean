import Mathlib.Algebra.Group.Nat.Defs
import Mathlib.Order.Monotone.Basic
import Nuhal.Linux.Time

/-!
# Elapsed time across rollovers (`nuhal_all/src/time.c:25-74`)

A clock that reads the true time modulo its period, and is read at least once every period, loses
nothing: what `time_elapsed` adds is the true time since the last reading, and what it returns is
the true time since the stamp was set up, modulo `2 ^ 32`.

* `mod_step`: how a reading modulo the period moves in less than a period.
* `timeElapsed_counts`: one call of `time_elapsed`.
* `timeElapsed_le`, `elapsedAfter_le`: they never report more than the true time, however rarely
  the clock is read.
* `elapsedAfter_counts`: any number of calls, with any number of rollovers in between.
* `elapsedAfter_eq`: what the calls add up to on any clock at all.
* `hostTimer_counts`: the clocks of `nuhal_linux` are such clocks.
-/

namespace Nuhal.Clock

open Nuhal.All Nuhal.Linux

/-- The readings `current` of a clock with this period are the true times `τ` modulo `P`. -/
def Counts (P : Nat) (τ : Nat → Nat) (period : UInt32) (current : Nat → UInt32) : Prop :=
  period.toNat = P ∧ ∀ i, (current i).toNat = τ i % P

variable {P a b : Nat}

/-- Less than a period later the reading is either that much larger, or it has rolled over once. -/
theorem mod_step (hle : a ≤ b) (hnear : b - a < P) :
    (a % P ≤ b % P ∧ b % P - a % P = b - a) ∨ (b % P < a % P ∧ P - a % P + b % P = b - a) := by
  have hP : 0 < P := Nat.lt_of_le_of_lt (Nat.zero_le _) hnear
  have ha : a % P < P := Nat.mod_lt a hP
  have hb : b % P = (a % P + (b - a)) % P := by
    rw [Nat.mod_add_mod, Nat.add_sub_cancel' hle]
  by_cases hroll : a % P + (b - a) < P
  · have hsame : b % P = a % P + (b - a) := hb.trans (Nat.mod_eq_of_lt hroll)
    exact .inl (by omega)
  · have hless : b % P = (a % P + (b - a) - P) % P :=
      hb.trans (Nat.mod_eq_sub_mod (Nat.le_of_not_lt hroll))
    rw [Nat.mod_eq_of_lt (show a % P + (b - a) - P < P by omega)] at hless
    exact .inr (by omega)

/-- What the stamp knows at the true time `a`, having been set up at `start`. -/
structure Stamped (P start a : Nat) (stamp : TimeElapsed) : Prop where
  current : stamp.currTime.toNat = a % P
  elapsed : stamp.elapsedTime.toNat = (a - start) % 2 ^ 32

/-- **One call of `time_elapsed`** adds the true time since the one before. -/
theorem timeElapsed_counts {start : Nat} {period now : UInt32} {stamp : TimeElapsed}
    (h : Stamped P start a stamp) (hstart : start ≤ a) (hle : a ≤ b) (hnear : b - a < P)
    (hperiod : period.toNat = P) (hnow : now.toNat = b % P) :
    Stamped P start b (timeElapsed period stamp now).2 ∧
      (timeElapsed period stamp now).1.toNat = (b - start) % 2 ^ 32 := by
  suffices hsum : (timeElapsed period stamp now).1.toNat = (b - start) % 2 ^ 32 from
    ⟨⟨hnow, hsum⟩, hsum⟩
  have hP := period.toNat_lt
  have hold := h.current
  have hsum := h.elapsed
  unfold timeElapsed
  dsimp only
  rcases mod_step hle hnear with ⟨hge, hdiff⟩ | ⟨hlt, hdiff⟩
  · have hno : now ≥ stamp.currTime := UInt32.le_iff_toNat_le.mpr (by omega)
    have hstep : (now - stamp.currTime).toNat = b - a := by
      rw [UInt32.toNat_sub_of_le _ _ hno, hnow, hold, hdiff]
    rw [if_pos hno, UInt32.toNat_add, hsum, hstep]
    omega
  · have hroll : ¬ now ≥ stamp.currTime := by
      intro hno
      have hge := UInt32.le_iff_toNat_le.mp hno
      omega
    have hbelow : a % P < P := Nat.mod_lt a (by omega)
    have hle' : stamp.currTime ≤ period := UInt32.le_iff_toNat_le.mpr (by omega)
    have hstep : (period - stamp.currTime + now).toNat = b - a := by
      rw [UInt32.toNat_add, UInt32.toNat_sub_of_le _ _ hle', hperiod, hnow, hold, hdiff]
      exact Nat.mod_eq_of_lt (by omega)
    rw [if_neg hroll, UInt32.toNat_add, hsum, hstep]
    omega

/-- However rarely the clock is read, a call never returns more than the true time. -/
theorem timeElapsed_le {start : Nat} {period now : UInt32} {stamp : TimeElapsed}
    (hold : stamp.currTime.toNat = a % period.toNat) (hsum : stamp.elapsedTime.toNat ≤ a - start)
    (hstart : start ≤ a) (hle : a ≤ b) (hnow : now.toNat = b % period.toNat) :
    (timeElapsed period stamp now).1.toNat ≤ b - start := by
  have ha := Nat.div_add_mod a period.toNat
  have hb := Nat.div_add_mod b period.toNat
  have hturns : a / period.toNat ≤ b / period.toNat := Nat.div_le_div_right hle
  have hmul : period.toNat * (a / period.toNat) ≤ period.toNat * (b / period.toNat) :=
    Nat.mul_le_mul_left _ hturns
  unfold timeElapsed
  dsimp only
  by_cases hge : now ≥ stamp.currTime
  · have hdiff : (now - stamp.currTime).toNat = now.toNat - stamp.currTime.toNat :=
      UInt32.toNat_sub_of_le _ _ hge
    rw [if_pos hge, UInt32.toNat_add]
    have hmod := Nat.mod_le (stamp.elapsedTime.toNat + (now - stamp.currTime).toNat) (2 ^ 32)
    omega
  · have hlt : now.toNat < stamp.currTime.toNat := UInt32.lt_iff_toNat_lt.mp (UInt32.not_le.mp hge)
    have hround : a / period.toNat + 1 ≤ b / period.toNat := by
      by_contra hno
      have hsame : a / period.toNat = b / period.toNat := by omega
      rw [hsame] at ha
      omega
    have hmul' := Nat.mul_le_mul_left period.toNat hround
    rw [Nat.mul_add, Nat.mul_one] at hmul'
    have hpos : 0 < period.toNat := by
      by_contra hzero
      rw [Nat.eq_zero_of_not_pos hzero, Nat.div_zero, Nat.div_zero] at hround
      omega
    have hbelow : a % period.toNat < period.toNat := Nat.mod_lt a hpos
    have hdiff : (period - stamp.currTime).toNat = period.toNat - stamp.currTime.toNat :=
      UInt32.toNat_sub_of_le _ _ (UInt32.le_iff_toNat_le.mpr (by omega))
    rw [if_neg hge, UInt32.toNat_add]
    have hmod := Nat.mod_le (stamp.elapsedTime.toNat + (period - stamp.currTime + now).toNat)
      (2 ^ 32)
    have hturn : (period - stamp.currTime + now).toNat ≤
        (period - stamp.currTime).toNat + now.toNat := by
      rw [UInt32.toNat_add]
      exact Nat.mod_le _ _
    omega

/-- **Any number of calls.** -/
theorem elapsedAfter_counts {τ : Nat → Nat} {period : UInt32} {current : Nat → UInt32}
    (hmono : ∀ i, τ i ≤ τ (i + 1)) (hnear : ∀ i, τ (i + 1) - τ i < P)
    (h : Counts P τ period current) (n : Nat) :
    Stamped P (τ 0) (τ n) (elapsedAfter period current n).2 ∧
      (elapsedAfter period current n).1.toNat = (τ n - τ 0) % 2 ^ 32 := by
  induction n with
  | zero =>
    rw [Nat.sub_self]
    exact ⟨⟨h.2 0, by rw [Nat.sub_self]; rfl⟩, rfl⟩
  | succ n ih =>
    have hstart : τ 0 ≤ τ n := monotone_nat_of_le_succ hmono (Nat.zero_le n)
    exact timeElapsed_counts ih.1 hstart (hmono n) (hnear n) h.1 (h.2 (n + 1))

/-- However rarely the clock is read, no call returns more than the true time. -/
theorem elapsedAfter_le {τ : Nat → Nat} {period : UInt32} {current : Nat → UInt32}
    (hmono : Monotone τ) (hshows : ∀ i, (current i).toNat = τ i % period.toNat) (n : Nat) :
    (elapsedAfter period current n).2.currTime.toNat = τ n % period.toNat ∧
      (elapsedAfter period current n).2.elapsedTime.toNat ≤ τ n - τ 0 ∧
      (elapsedAfter period current n).1.toNat ≤ τ n - τ 0 := by
  induction n with
  | zero => exact ⟨hshows 0, Nat.zero_le _, Nat.zero_le _⟩
  | succ n ih =>
    have hle := timeElapsed_le ih.1 ih.2.1 (hmono (Nat.zero_le n)) (hmono (Nat.le_succ n))
      (hshows (n + 1))
    exact ⟨hshows (n + 1), hle, hle⟩

/-- How many of the first `n` steps of a clock go down, each a rollover to `time_elapsed`. -/
def rollovers (current : Nat → UInt32) : Nat → Nat
  | 0 => 0
  | n + 1 => rollovers current n + if current (n + 1) < current n then 1 else 0

/-- Whatever the clock reads, the differences add up to the last reading less the first, and a
period for each step down. -/
theorem elapsedAfter_eq (period : UInt32) (current : Nat → UInt32) (n : Nat) :
    (elapsedAfter period current n).2.currTime = current n ∧
      (elapsedAfter period current n).2.elapsedTime = (elapsedAfter period current n).1 ∧
      (elapsedAfter period current n).1 =
        current n - current 0 + period * UInt32.ofNat (rollovers current n) := by
  induction n with
  | zero =>
    refine ⟨rfl, rfl, ?_⟩
    show 0 = current 0 - current 0 + period * 0
    grind
  | succ n ih =>
    obtain ⟨hcurr, hsum, hval⟩ := ih
    refine ⟨rfl, rfl, ?_⟩
    show (timeElapsed _ _ _).1 = _
    unfold timeElapsed rollovers
    dsimp only
    rw [hcurr, hsum, hval]
    by_cases hroll : current (n + 1) < current n
    · rw [if_neg (UInt32.not_le.mpr hroll), if_pos hroll, UInt32.ofNat_add]
      grind
    · rw [if_pos (UInt32.not_lt.mp hroll), if_neg hroll]
      grind

/-! ## The clocks of Linux -/

/-- The time of day, in units of `nanoseconds` of which a second has `perSecond`. -/
def timeOfDay (perSecond nanoseconds : UInt64) (tspec : Timespec) : Nat :=
  tspec.tvSec.toNat * perSecond.toNat + tspec.tvNsec.toNat / nanoseconds.toNat

/-- As long as the time of day fits an `unsigned long`, a clock counts it modulo `UINT32_MAX`. -/
theorem timeCurrent_toNat {perSecond nanoseconds : UInt64} {tspec : Timespec}
    (hfits : timeOfDay perSecond nanoseconds tspec < 2 ^ 64) :
    (timeCurrent perSecond nanoseconds tspec).toNat =
      timeOfDay perSecond nanoseconds tspec % uint32Max.toNat := by
  have hlong : (tspec.tvSec * perSecond + tspec.tvNsec / nanoseconds).toNat =
      timeOfDay perSecond nanoseconds tspec := by
    rw [UInt64.toNat_add, UInt64.toNat_mul, UInt64.toNat_div, Nat.mod_add_mod]
    exact Nat.mod_eq_of_lt hfits
  have hbelow : timeOfDay perSecond nanoseconds tspec % uint32Max.toNat < uint32Max.toNat :=
    Nat.mod_lt _ (by decide)
  have hmax := uint32Max.toNat_lt
  unfold timeCurrent
  rw [UInt64.toNat_toUInt32, UInt64.toNat_mod, hlong, UInt32.toNat_toUInt64]
  exact Nat.mod_eq_of_lt (Nat.lt_trans hbelow hmax)

theorem hostTimer_counts (tspec : Nat → Timespec) :
    ((∀ i, timeOfDay 1000 1000000 (tspec i) < 2 ^ 64) →
      Counts (2 ^ 32 - 1) (fun i => timeOfDay 1000 1000000 (tspec i)) (hostTimer tspec).periodMs
        (hostTimer tspec).currentMs) ∧
    ((∀ i, timeOfDay 1000000 1000 (tspec i) < 2 ^ 64) →
      Counts (2 ^ 32 - 1) (fun i => timeOfDay 1000000 1000 (tspec i)) (hostTimer tspec).periodUs
        (hostTimer tspec).currentUs) :=
  ⟨fun hfits => ⟨rfl, fun i => timeCurrent_toNat (hfits i)⟩,
    fun hfits => ⟨rfl, fun i => timeCurrent_toNat (hfits i)⟩⟩

/-! ## Any platform -/

/-- **Elapsed time is exact.** On a clock that counts the true times `τ` modulo any period `P` and
is read at least once a period, the `n`-th call after the stamp was set up returns the true time
since then, modulo `2 ^ 32`; for milliseconds and for microseconds. The clocks of `nuhal_linux`
count the time of day modulo `UINT32_MAX`. -/
theorem elapsed_exact {P : Nat} {τ : Nat → Nat} (hmono : ∀ i, τ i ≤ τ (i + 1))
    (hnear : ∀ i, τ (i + 1) - τ i < P) (timer : Timer) :
    (Counts P τ timer.periodMs timer.currentMs →
      ∀ n, (elapsedMs timer n).1.toNat = (τ n - τ 0) % 2 ^ 32) ∧
    (Counts P τ timer.periodUs timer.currentUs →
      ∀ n, (elapsedUs timer n).1.toNat = (τ n - τ 0) % 2 ^ 32) ∧
    ∀ tspec : Nat → Timespec,
      ((∀ i, timeOfDay 1000 1000000 (tspec i) < 2 ^ 64) →
        Counts (2 ^ 32 - 1) (fun i => timeOfDay 1000 1000000 (tspec i))
          (hostTimer tspec).periodMs (hostTimer tspec).currentMs) ∧
      ((∀ i, timeOfDay 1000000 1000 (tspec i) < 2 ^ 64) →
        Counts (2 ^ 32 - 1) (fun i => timeOfDay 1000000 1000 (tspec i))
          (hostTimer tspec).periodUs (hostTimer tspec).currentUs) := by
  refine ⟨fun h n => ?_, fun h n => ?_, hostTimer_counts⟩
  · exact (elapsedAfter_counts hmono hnear h n).2
  · exact (elapsedAfter_counts hmono hnear h n).2

/-- A clock of period 10 that is read every 7 units: the third call, after two rollovers. -/
theorem elapsed_exact_sevens :
    (elapsedMs ⟨fun i => UInt32.ofNat (7 * i % 10), fun _ => 0, 10, 0⟩ 3).1.toNat = 21 := by
  refine (elapsed_exact (P := 10) (τ := fun i => 7 * i) (fun i => ?_) (fun i => ?_) _).1
    ⟨rfl, fun i => ?_⟩ 3
  · exact Nat.mul_le_mul_left 7 (Nat.le_succ i)
  · show 7 * (i + 1) - 7 * i < 10
    omega
  · exact UInt32.toNat_ofNat_of_lt' (Nat.lt_trans (Nat.mod_lt _ (by decide)) (by decide))

end Nuhal.Clock

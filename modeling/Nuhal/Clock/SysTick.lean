import Mathlib.Algebra.Order.Field.Basic
import Mathlib.Algebra.Order.Ring.Rat
import Mathlib.Tactic.FieldSimp
import Mathlib.Tactic.Linarith
import Mathlib.Tactic.Ring
import Nuhal.Clock.Elapsed
import Nuhal.Tiva.Time

/-!
# Elapsed time on SysTick (`nuhal_tiva/src/time_tiva.c`)

On the Tiva the readings are ticks rounded down to whole milliseconds, and so is the period. The
header asks for a call per rollover period (`time.h:84-98`). That is not enough: two calls less than
a period apart, with a reload between them, may read the same millisecond. The reload does not show
then, and `time_elapsed` leaves out a whole period.

* `CountsDown.reading`, `CountsDown.periodMs`: a reading and the period, without the shifts.
* `CountsDown.step`: between two calls SysTick reloads at most once.
* `CountsDown.rollovers_eq`: where every reload shows, the steps down are the reloads.
* `rounded_close`: what the rounding of two readings and of `k` periods amounts to.
* `elapsed_accurate`: **where every reload shows, and the milliseconds fit**, the elapsed time is
  off by at most one millisecond and one for each reload.
* `elapsed_missed_reload`: a reload that does not show.
-/

namespace Nuhal.Clock

open Nuhal.All Nuhal.Tiva

/-- SysTick counts down from its period less one, `perMs` ticks a millisecond, and is looked at at
the true tick times `t`, less than a period apart; tick 0 is a reload. -/
structure CountsDown (tick : SysTick) (perMs : Nat) (t : Nat → Nat) (value : Nat → UInt32) :
    Prop where
  bits : tick.period.toNat < 2 ^ 24
  hertz : tick.clockHz.toNat = 1000 * perMs
  pos : 0 < perMs
  le_period : perMs ≤ tick.period.toNat
  shows : ∀ i, (value i).toNat = tick.period.toNat - 1 - t i % tick.period.toNat
  mono : ∀ i, t i ≤ t (i + 1)
  near : ∀ i, t (i + 1) - t i < tick.period.toNat

/-- How often SysTick reloads between the tick times `a` and `b`. -/
def reloads (tick : SysTick) (a b : Nat) : Nat := b / tick.period.toNat - a / tick.period.toNat

/-- Among the first `n` calls, one that comes after a reload reads less whole milliseconds than the
one before it. -/
def ReloadsShow (tick : SysTick) (t : Nat → Nat) (value : Nat → UInt32) (n : Nat) : Prop :=
  ∀ i < n, t i / tick.period.toNat < t (i + 1) / tick.period.toNat →
    Tiva.timeCurrentMs tick (value (i + 1)) < Tiva.timeCurrentMs tick (value i)

/-- From the first reading to the `n`-th there are less than `2 ^ 32` whole milliseconds. -/
def CountFits (tick : SysTick) (t : Nat → Nat) (value : Nat → UInt32) (n : Nat) : Prop :=
  (Tiva.timeCurrentMs tick (value n)).toNat + (timePeriodMs tick).toNat * reloads tick (t 0) (t n) <
    (Tiva.timeCurrentMs tick (value 0)).toNat + 2 ^ 32

/-- The `n`-th call is off by at most one millisecond, and one for each reload. -/
def Accurate (tick : SysTick) (t : Nat → Nat) (value : Nat → UInt32) (n : Nat) : Prop :=
  |((elapsedMs (tivaTimer tick value) n).1.toNat : ℚ) -
    ((t n : ℚ) - t 0) / ((tick.clockHz.toNat : ℚ) / 1000)| ≤ 1 + reloads tick (t 0) (t n)

variable {tick : SysTick} {perMs n : Nat} {t : Nat → Nat} {value : Nat → UInt32}

/-! ## Readings -/

/-- Of 24 bits, the shift to the left loses none, and the shift back rounds nothing more. -/
theorem shifted_div {ticks perUnit : UInt32} (hbits : ticks.toNat < 2 ^ 24) :
    (((ticks <<< 8) / perUnit) >>> 8).toNat = ticks.toNat / perUnit.toNat := by
  have hshift : (8 : UInt32).toNat % 32 = 8 := by decide
  have hfits : ticks.toNat * 2 ^ 8 < 2 ^ 32 := by omega
  rw [UInt32.toNat_shiftRight, UInt32.toNat_div, UInt32.toNat_shiftLeft, hshift,
    Nat.shiftLeft_eq, Nat.shiftRight_eq_div_pow, Nat.mod_eq_of_lt hfits,
    Nat.div_div_eq_div_mul, Nat.mul_div_mul_right _ _ (by decide)]

namespace CountsDown

theorem period_pos (h : CountsDown tick perMs t value) : 0 < tick.period.toNat :=
  Nat.lt_of_lt_of_le h.pos h.le_period

theorem monotone (h : CountsDown tick perMs t value) : Monotone t := monotone_nat_of_le_succ h.mono

theorem ticksPerMs (h : CountsDown tick perMs t value) : (tick.clockHz / 1000).toNat = perMs := by
  rw [UInt32.toNat_div, h.hertz]
  exact Nat.mul_div_cancel_left perMs (by decide)

theorem reading (h : CountsDown tick perMs t value) (i : Nat) :
    (Tiva.timeCurrentMs tick (value i)).toNat = (1 + t i % tick.period.toNat) / perMs := by
  have hbelow : t i % tick.period.toNat < tick.period.toNat := Nat.mod_lt _ h.period_pos
  have hshows := h.shows i
  have hbits := h.bits
  have hup : (tick.period - value i).toNat = 1 + t i % tick.period.toNat := by
    rw [UInt32.toNat_sub_of_le _ _ (UInt32.le_iff_toNat_le.mpr (by omega))]
    omega
  unfold Tiva.timeCurrentMs Tiva.timeCurrent
  rw [shifted_div (by omega), hup, h.ticksPerMs]

theorem periodMs (h : CountsDown tick perMs t value) :
    (timePeriodMs tick).toNat = tick.period.toNat / perMs := by
  unfold timePeriodMs timePeriod
  rw [shifted_div h.bits, h.ticksPerMs]

/-! ## Reloads -/

/-- From one call to the next SysTick goes on within its period, or it reloads once. -/
theorem step (h : CountsDown tick perMs t value) (i : Nat) :
    (t i / tick.period.toNat = t (i + 1) / tick.period.toNat ∧
      t i % tick.period.toNat ≤ t (i + 1) % tick.period.toNat) ∨
    t i / tick.period.toNat + 1 = t (i + 1) / tick.period.toNat := by
  have ha := Nat.div_add_mod (t i) tick.period.toNat
  have hb := Nat.div_add_mod (t (i + 1)) tick.period.toNat
  have hle := h.mono i
  have hnear := h.near i
  rcases Nat.lt_or_ge (t i / tick.period.toNat) (t (i + 1) / tick.period.toNat) with hlt | hge
  · right
    by_contra hne
    have htwo : t i / tick.period.toNat + 2 ≤ t (i + 1) / tick.period.toNat := by omega
    have hmul := Nat.mul_le_mul_left tick.period.toNat htwo
    rw [Nat.mul_add] at hmul
    have hbelow : t i % tick.period.toNat < tick.period.toNat := Nat.mod_lt _ h.period_pos
    omega
  · have hsame := Nat.le_antisymm (Nat.div_le_div_right hle) hge
    rw [hsame] at ha
    exact .inl ⟨hsame, by omega⟩

/-- Without a reload the readings do not go down, so the steps down are the reloads that show. -/
theorem rollovers_eq (h : CountsDown tick perMs t value) (n : Nat)
    (hshow : ReloadsShow tick t value n) :
    t 0 / tick.period.toNat + rollovers (fun i => Tiva.timeCurrentMs tick (value i)) n =
      t n / tick.period.toNat := by
  induction n with
  | zero => rfl
  | succ n ih =>
    have hold := ih fun i hi => hshow i (Nat.lt_succ_of_lt hi)
    unfold rollovers
    rcases h.step n with ⟨hsame, hle⟩ | hnext
    · have hup : ¬ Tiva.timeCurrentMs tick (value (n + 1)) < Tiva.timeCurrentMs tick (value n) := by
        rw [UInt32.lt_iff_toNat_lt, h.reading, h.reading, Nat.not_lt]
        exact Nat.div_le_div_right (Nat.add_le_add_left hle 1)
      rw [if_neg hup]
      omega
    · rw [if_pos (hshow n (Nat.lt_succ_self n) (by omega))]
      omega

/-- The first reading is made up for, by the last one or by a period. -/
theorem reading_zero_le (h : CountsDown tick perMs t value) (n : Nat) :
    (Tiva.timeCurrentMs tick (value 0)).toNat ≤ (Tiva.timeCurrentMs tick (value n)).toNat +
      (timePeriodMs tick).toNat * reloads tick (t 0) (t n) := by
  have hle := h.monotone (Nat.zero_le n)
  rw [h.reading, h.reading, h.periodMs]
  rcases Nat.eq_zero_or_pos (reloads tick (t 0) (t n)) with hzero | hpos
  · have hsame : t 0 / tick.period.toNat = t n / tick.period.toNat :=
      Nat.le_antisymm (Nat.div_le_div_right hle) (Nat.sub_eq_zero_iff_le.mp hzero)
    have ha := Nat.div_add_mod (t 0) tick.period.toNat
    have hb := Nat.div_add_mod (t n) tick.period.toNat
    rw [hsame] at ha
    exact Nat.le_add_right_of_le (Nat.div_le_div_right (by omega))
  · have hbelow : t 0 % tick.period.toNat < tick.period.toNat := Nat.mod_lt _ h.period_pos
    have hperiod : (1 + t 0 % tick.period.toNat) / perMs ≤ tick.period.toNat / perMs :=
      Nat.div_le_div_right (by omega)
    exact Nat.le_add_left_of_le (hperiod.trans (Nat.le_mul_of_pos_right _ hpos))

/-- Where every reload shows, and the milliseconds fit, none of them is lost. -/
theorem elapsed_eq (h : CountsDown tick perMs t value) (hshow : ReloadsShow tick t value n)
    (hfits : CountFits tick t value n) :
    (elapsedMs (tivaTimer tick value) n).1.toNat + (Tiva.timeCurrentMs tick (value 0)).toNat =
      (Tiva.timeCurrentMs tick (value n)).toNat +
        (timePeriodMs tick).toNat * reloads tick (t 0) (t n) := by
  have hroll : rollovers (fun i => Tiva.timeCurrentMs tick (value i)) n =
      reloads tick (t 0) (t n) := by
    have hcount := h.rollovers_eq n hshow
    unfold reloads
    omega
  have hstart := h.reading_zero_le n
  have hval := elapsedAfter_eq (timePeriodMs tick) (fun i => Tiva.timeCurrentMs tick (value i)) n
  have hnat := congrArg UInt32.toNat hval.2.2
  rw [hroll, UInt32.toNat_add, UInt32.toNat_sub, UInt32.toNat_mul, UInt32.toNat_ofNat',
    Nat.mul_mod_mod] at hnat
  have hfirst := (Tiva.timeCurrentMs tick (value 0)).toNat_lt
  unfold CountFits at hfits
  have helapsed : elapsedMs (tivaTimer tick value) n =
      elapsedAfter (timePeriodMs tick) (fun i => Tiva.timeCurrentMs tick (value i)) n := rfl
  rw [helapsed]
  omega

/-- The true time, reload by reload. -/
theorem true_ticks (h : CountsDown tick perMs t value) (n : Nat) :
    (t n : ℚ) - t 0 = reloads tick (t 0) (t n) * tick.period.toNat +
      (t n % tick.period.toNat : ℕ) - (t 0 % tick.period.toNat : ℕ) := by
  have hturns : t 0 / tick.period.toNat ≤ t n / tick.period.toNat :=
    Nat.div_le_div_right (h.monotone (Nat.zero_le n))
  have ha : (t 0 : ℚ) = _ := congrArg Nat.cast (Nat.div_add_mod (t 0) tick.period.toNat).symm
  have hb : (t n : ℚ) = _ := congrArg Nat.cast (Nat.div_add_mod (t n) tick.period.toNat).symm
  unfold reloads
  rw [ha, hb, Nat.cast_sub hturns]
  push_cast
  ring

end CountsDown

/-! ## Rounding -/

/-- What is rounded down is off by less than one unit. -/
theorem round_down {x c : Nat} (hc : 0 < c) :
    (c : ℚ) * (x / c : ℕ) ≤ x ∧ (x : ℚ) ≤ c * (x / c : ℕ) + c := by
  constructor
  · exact_mod_cast Nat.mul_div_le x c
  · exact_mod_cast (Nat.lt_mul_div_succ x hc).le

/-- Of two rounded readings and `k` rounded periods, each is off by one unit at most; the readings
are off the same way, so that together they are off by no more than one. -/
theorem rounded_close {a b c p k : Nat} (hc : 0 < c) :
    |(((1 + b) / c + p / c * k : ℕ) : ℚ) - ((1 + a) / c : ℕ) - ((k : ℚ) * p + b - a) / c| ≤
      1 + k := by
  obtain ⟨hb, hb'⟩ := round_down (x := 1 + b) hc
  obtain ⟨ha, ha'⟩ := round_down (x := 1 + a) hc
  obtain ⟨hp, hp'⟩ := round_down (x := p) hc
  have hk : (0 : ℚ) ≤ k := Nat.cast_nonneg k
  have hcpos : (0 : ℚ) < c := by exact_mod_cast hc
  have hlow := mul_le_mul_of_nonneg_left hp hk
  have hhigh := mul_le_mul_of_nonneg_left hp' hk
  have hscale : (((1 + b) / c + p / c * k : ℕ) : ℚ) - ((1 + a) / c : ℕ) -
      ((k : ℚ) * p + b - a) / c =
      (c * ((1 + b) / c : ℕ) - b - (c * ((1 + a) / c : ℕ) - a) -
        k * (p - c * (p / c : ℕ))) / c := by
    push_cast
    field_simp
    ring
  rw [hscale, abs_le, le_div_iff₀ hcpos, div_le_iff₀ hcpos]
  push_cast at *
  constructor
  · linarith
  · linarith

/-! ## Runs -/

/-- **Elapsed time on SysTick is accurate where every reload shows.** For every run of calls less
than a period apart of which each one that comes after a reload reads less whole milliseconds than
the one before, and that takes less than `2 ^ 32` of them, what the last call returns differs from
the true time by at most one millisecond and one for each reload. -/
theorem elapsed_accurate (h : CountsDown tick perMs t value) (n : Nat)
    (hshow : ReloadsShow tick t value n) (hfits : CountFits tick t value n) :
    Accurate tick t value n := by
  have hsum := h.elapsed_eq hshow hfits
  rw [h.reading, h.reading, h.periodMs] at hsum
  have hvalue : ((elapsedMs (tivaTimer tick value) n).1.toNat : ℚ) =
      (((1 + t n % tick.period.toNat) / perMs +
        tick.period.toNat / perMs * reloads tick (t 0) (t n) : ℕ) : ℚ) -
        ((1 + t 0 % tick.period.toNat) / perMs : ℕ) := by
    rw [← hsum, Nat.cast_add, add_sub_cancel_right]
  have hhertz : (tick.clockHz.toNat : ℚ) / 1000 = perMs := by
    rw [h.hertz]
    push_cast
    ring
  unfold Accurate
  rw [hvalue, h.true_ticks, hhertz]
  exact rounded_close h.pos

/-- What SysTick shows at the tick times `t`. -/
def valueAt (tick : SysTick) (t : Nat → Nat) (i : Nat) : UInt32 :=
  UInt32.ofNat (tick.period.toNat - 1 - t i % tick.period.toNat)

theorem toNat_valueAt (tick : SysTick) (t : Nat → Nat) (i : Nat) :
    (valueAt tick t i).toNat = tick.period.toNat - 1 - t i % tick.period.toNat := by
  have hlt := tick.period.toNat_lt_size
  exact UInt32.toNat_ofNat_of_lt (by omega)

/-- Ten ticks a millisecond and a period of 10 ms, looked at every 3.5 ms: six calls, two
reloads. -/
theorem elapsed_accurate_two_reloads :
    Accurate ⟨100, 10000⟩ (fun i => 35 * i) (valueAt ⟨100, 10000⟩ fun i => 35 * i) 6 := by
  have h : CountsDown ⟨100, 10000⟩ 10 (fun i => 35 * i)
      (valueAt ⟨100, 10000⟩ fun i => 35 * i) :=
    { bits := by decide
      hertz := rfl
      pos := by decide
      le_period := by decide
      shows := toNat_valueAt _ _
      mono := fun i => Nat.mul_le_mul_left 35 (Nat.le_succ i)
      near := fun i => by simp [Nat.mul_add] }
  exact elapsed_accurate h 6 (by unfold ReloadsShow; decide) (by unfold CountFits; decide)

/-- The tick times of two calls, the first one tick after a reload and the second at the next. -/
def almostAPeriod (i : Nat) : Nat := if i = 0 then 1 else 16777215

/-- **A reload that does not show.** At 80 MHz, with the longest period there is, both calls read 0
and the second returns 0; the true time is 209 ms. -/
theorem elapsed_missed_reload :
    CountsDown ⟨16777215, 80000000⟩ 80000 almostAPeriod
        (valueAt ⟨16777215, 80000000⟩ almostAPeriod) ∧
      ¬ Accurate ⟨16777215, 80000000⟩ almostAPeriod
        (valueAt ⟨16777215, 80000000⟩ almostAPeriod) 1 := by
  have hperiod : (16777215 : UInt32).toNat = 16777215 := rfl
  refine ⟨{ bits := by decide
            hertz := rfl
            pos := by decide
            le_period := by decide
            shows := toNat_valueAt _ _
            mono := fun i => ?_
            near := fun i => ?_ }, ?_⟩
  · unfold almostAPeriod
    split <;> split <;> omega
  · unfold almostAPeriod
    rw [hperiod]
    split <;> split <;> omega
  · have hvalue : (elapsedMs (tivaTimer ⟨16777215, 80000000⟩
        (valueAt ⟨16777215, 80000000⟩ almostAPeriod)) 1).1 = 0 := by decide +kernel
    have hreload : reloads ⟨16777215, 80000000⟩ (almostAPeriod 0) (almostAPeriod 1) = 1 := by
      decide +kernel
    have hhertz : (80000000 : UInt32).toNat = 80000000 := rfl
    unfold Accurate
    rw [hvalue, hreload, hhertz]
    norm_num [almostAPeriod, abs_le]

end Nuhal.Clock

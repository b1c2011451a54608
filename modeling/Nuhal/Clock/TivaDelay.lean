import Nuhal.Clock.Delay
import Nuhal.Clock.SysTick

/-!
# Delays on SysTick (`nuhal_all/src/time.c:5-13`, `nuhal_tiva/src/time_tiva.c`)

On the Tiva the clock counts whole milliseconds, and so does its period: each reload of SysTick
loses what is left over of a millisecond. So a delay is longer than it was asked to be, but hardly
shorter.

* `counted`: the milliseconds that add up to the elapsed time.
* `ticks_counted`, `counted_step`: how they go with the true ticks.
* `reloadsShow_of_gap`: which pauses between two looks are short enough for every reload to show.
* `tiva_delay`: **a delay ends less than a millisecond early, and late by no more than a pause and
  what the reloads lose.**
-/

namespace Nuhal.Clock

open Nuhal.All Nuhal.Tiva

variable {tick : SysTick} {perMs gap : Nat} {t : Nat → Nat} {value : Nat → UInt32} {wait : UInt32}

/-- The whole milliseconds at the `n`-th look since the reload before the first one. -/
def counted (tick : SysTick) (perMs : Nat) (t : Nat → Nat) (n : Nat) : Nat :=
  (1 + t n % tick.period.toNat) / perMs + tick.period.toNat / perMs * reloads tick (t 0) (t n)

/-- What is rounded down is less than a unit off. -/
theorem mul_div_close {c : Nat} (hc : 0 < c) (x : Nat) : c * (x / c) ≤ x ∧ x < c * (x / c) + c :=
  ⟨Nat.mul_div_le x c, Nat.lt_mul_div_succ x hc⟩

theorem counted_zero : counted tick perMs t 0 = (1 + t 0 % tick.period.toNat) / perMs := by
  unfold counted reloads
  rw [Nat.sub_self, Nat.mul_zero, Nat.add_zero]

namespace CountsDown

/-- The ticks since the reload before the first look. -/
theorem ticks_eq (h : CountsDown tick perMs t value) (n : Nat) :
    tick.period.toNat * reloads tick (t 0) (t n) + t n % tick.period.toNat =
      t n - t 0 + t 0 % tick.period.toNat := by
  have hle := h.monotone (Nat.zero_le n)
  have ha := Nat.div_add_mod (t 0) tick.period.toNat
  have hb := Nat.div_add_mod (t n) tick.period.toNat
  have hturns := Nat.mul_le_mul_left tick.period.toNat
    (Nat.div_le_div_right (c := tick.period.toNat) hle)
  unfold reloads
  rw [Nat.mul_sub]
  omega

/-- **The ticks that were counted**: no more than there were, and for each reload less than a
millisecond is missing. -/
theorem ticks_counted (h : CountsDown tick perMs t value) (n : Nat) :
    perMs * counted tick perMs t n ≤ 1 + t 0 % tick.period.toNat + (t n - t 0) ∧
      1 + t 0 % tick.period.toNat + (t n - t 0) <
        perMs * counted tick perMs t n + perMs + perMs * reloads tick (t 0) (t n) := by
  have hticks := h.ticks_eq n
  obtain ⟨hlow, hhigh⟩ := mul_div_close h.pos (1 + t n % tick.period.toNat)
  obtain ⟨hlow', hhigh'⟩ := mul_div_close h.pos tick.period.toNat
  have hreloads := Nat.mul_le_mul_right (reloads tick (t 0) (t n)) hlow'
  have hreloads' := Nat.mul_le_mul_right (reloads tick (t 0) (t n)) (Nat.le_of_lt hhigh')
  rw [Nat.add_mul] at hreloads'
  unfold counted
  rw [Nat.mul_add, ← Nat.mul_assoc]
  omega

/-- From one look to the next. -/
theorem counted_step (h : CountsDown tick perMs t value) (n : Nat)
    (hgap : t (n + 1) - t n ≤ gap) :
    counted tick perMs t (n + 1) ≤ counted tick perMs t n + (gap / perMs + 1) := by
  have hle := h.mono n
  have hlate : (1 + t n % tick.period.toNat + gap) / perMs ≤
      (1 + t n % tick.period.toNat) / perMs + (gap / perMs + 1) := by
    rw [Nat.add_div h.pos]
    split <;> omega
  have ha := Nat.div_add_mod (t n) tick.period.toNat
  have hb := Nat.div_add_mod (t (n + 1)) tick.period.toNat
  have hstart := Nat.div_le_div_right (c := tick.period.toNat) (h.monotone (Nat.zero_le n))
  unfold counted reloads
  rcases h.step n with ⟨hsame, -⟩ | hnext
  · rw [← hsame] at hb ⊢
    have hmore : (1 + t (n + 1) % tick.period.toNat) / perMs ≤
        (1 + t n % tick.period.toNat + gap) / perMs := Nat.div_le_div_right (by omega)
    omega
  · rw [← hnext, Nat.mul_add, Nat.mul_one] at hb
    have hmore : (1 + t (n + 1) % tick.period.toNat) / perMs + tick.period.toNat / perMs ≤
        (1 + t n % tick.period.toNat + gap) / perMs :=
      Nat.div_add_div_le_add_div.trans (Nat.div_le_div_right (by omega))
    rw [← hnext, Nat.sub_add_comm hstart, Nat.mul_add, Nat.mul_one]
    omega

/-- Pauses that leave out a millisecond of the period let every reload show. -/
theorem reloadsShow_of_gap (h : CountsDown tick perMs t value)
    (hgap : ∀ i, t (i + 1) - t i ≤ gap) (hshort : gap + perMs ≤ tick.period.toNat) (n : Nat) :
    ReloadsShow tick t value n := by
  intro i _ hreload
  have ha := Nat.div_add_mod (t i) tick.period.toNat
  have hb := Nat.div_add_mod (t (i + 1)) tick.period.toNat
  have hnext : t i / tick.period.toNat + 1 = t (i + 1) / tick.period.toNat := by
    rcases h.step i with ⟨hsame, -⟩ | hnext
    · omega
    · exact hnext
  rw [← hnext, Nat.mul_add, Nat.mul_one] at hb
  have hi := hgap i
  have hdown : 1 + t (i + 1) % tick.period.toNat + perMs ≤ 1 + t i % tick.period.toNat := by omega
  rw [UInt32.lt_iff_toNat_lt, h.reading, h.reading]
  have hdiv := Nat.div_le_div_right (c := perMs) hdown
  rw [Nat.add_div_right _ h.pos] at hdiv
  exact hdiv

/-- The elapsed time, as long as it fits. -/
theorem elapsed_counted (h : CountsDown tick perMs t value)
    (hgap : ∀ i, t (i + 1) - t i ≤ gap) (hshort : gap + perMs ≤ tick.period.toNat) {n : Nat}
    (hfits : counted tick perMs t n < counted tick perMs t 0 + 2 ^ 32) :
    (elapsedMs (tivaTimer tick value) n).1.toNat + counted tick perMs t 0 =
      counted tick perMs t n := by
  have hsame : ∀ k, (Tiva.timeCurrentMs tick (value k)).toNat +
      (timePeriodMs tick).toNat * reloads tick (t 0) (t k) = counted tick perMs t k := by
    intro k
    rw [h.reading, h.periodMs]
    rfl
  have hfirst : (Tiva.timeCurrentMs tick (value 0)).toNat = counted tick perMs t 0 := by
    rw [h.reading, counted_zero]
  have helapsed := h.elapsed_eq (h.reloadsShow_of_gap hgap hshort n)
    (by unfold CountFits; rw [hsame, hfirst]; exact hfits)
  rw [hsame, hfirst] at helapsed
  exact helapsed

/-- SysTick goes on, and so does the count. -/
theorem counted_passes (h : CountsDown tick perMs t value) (hpasses : ∀ T, ∃ i, T ≤ t i)
    (count : Nat) : ∃ n, count ≤ counted tick perMs t n := by
  obtain ⟨n, hn⟩ := hpasses (tick.period.toNat * (t 0 / tick.period.toNat + count))
  refine ⟨n, ?_⟩
  have hreloads : count ≤ reloads tick (t 0) (t n) := by
    have hdiv := Nat.div_le_div_right (c := tick.period.toNat) hn
    rw [Nat.mul_div_cancel_left _ h.period_pos] at hdiv
    unfold reloads
    omega
  have hperiod : 1 ≤ tick.period.toNat / perMs := Nat.div_pos h.le_period h.pos
  unfold counted
  exact hreloads.trans (Nat.le_add_left_of_le (Nat.le_mul_of_pos_left _ hperiod))

end CountsDown

/-- **Delays on SysTick.** If SysTick is looked at so often that a millisecond is left of every
period, and the delay with a pause fits, `time_delay_ms` returns. By then less than a millisecond of
the delay is missing, and it is too long by no more than a pause and a millisecond for each reload
of SysTick that fell into it. -/
theorem tiva_delay (h : CountsDown tick perMs t value) (hgap : ∀ i, t (i + 1) - t i ≤ gap)
    (hshort : gap + perMs ≤ tick.period.toNat) (hpasses : ∀ T, ∃ i, T ≤ t i)
    (hfits : wait.toNat + gap / perMs + 1 < 2 ^ 32) :
    ∃ m, (∀ fuel, m ≤ fuel → timeDelayMs (tivaTimer tick value) wait fuel = some m) ∧
      perMs * wait.toNat < t m - t 0 + perMs ∧
      t m - t 0 ≤ perMs * wait.toNat + gap + perMs * reloads tick (t 0) (t m) := by
  obtain ⟨m, ⟨hpos, henough⟩, hfirst⟩ : ∃ m, (0 < m ∧
      counted tick perMs t 0 + wait.toNat ≤ counted tick perMs t m) ∧
      ∀ j < m, ¬ (0 < j ∧ counted tick perMs t 0 + wait.toNat ≤ counted tick perMs t j) := by
    have hsome : ∃ m, 0 < m ∧ counted tick perMs t 0 + wait.toNat ≤ counted tick perMs t m := by
      obtain ⟨n, hn⟩ := h.counted_passes hpasses (counted tick perMs t 0 + wait.toNat + 1)
      refine ⟨n, Nat.pos_of_ne_zero fun hzero => ?_, Nat.le_of_succ_le hn⟩
      rw [hzero] at hn
      omega
    classical
    exact ⟨Nat.find hsome, Nat.find_spec hsome, fun j hj => Nat.find_min hsome hj⟩
  obtain ⟨k, rfl⟩ : ∃ k, m = k + 1 := ⟨m - 1, by omega⟩
  -- the look before the last one was the first, or too early
  have hbefore : ∀ j, 0 < j → j < k + 1 →
      counted tick perMs t j < counted tick perMs t 0 + wait.toNat := by
    intro j hj hjm
    have hnot := hfirst j hjm
    omega
  have hlast := h.counted_step k (hgap k)
  have hfitsLast : counted tick perMs t (k + 1) < counted tick perMs t 0 + 2 ^ 32 := by
    rcases Nat.eq_zero_or_pos k with rfl | hk
    · omega
    · have hless := hbefore k hk (Nat.lt_succ_self k)
      omega
  refine ⟨k + 1, fun fuel hfuel => ?_, ?_, ?_⟩
  · refine delayLoop_eq hpos (by omega) (fun j hj hjm => ?_) ?_
    · have hless := hbefore j hj hjm
      have helapsed := h.elapsed_counted hgap hshort (n := j) (by omega)
      rw [UInt32.lt_iff_toNat_lt]
      show (elapsedMs (tivaTimer tick value) j).1.toNat < _
      omega
    · have helapsed := h.elapsed_counted hgap hshort hfitsLast
      rw [UInt32.lt_iff_toNat_lt]
      show ¬ (elapsedMs (tivaTimer tick value) (k + 1)).1.toNat < _
      omega
  · obtain ⟨hcount, -⟩ := h.ticks_counted (k + 1)
    obtain ⟨-, hstart⟩ := h.ticks_counted 0
    have hmul := Nat.mul_le_mul_left perMs henough
    rw [Nat.mul_add] at hmul
    unfold reloads at hstart
    rw [Nat.sub_self, Nat.sub_self, Nat.mul_zero] at hstart
    omega
  · obtain ⟨-, hcount⟩ := h.ticks_counted k
    obtain ⟨hstart, -⟩ := h.ticks_counted 0
    have hstep := hgap k
    have hreloads : perMs * reloads tick (t 0) (t k) ≤ perMs * reloads tick (t 0) (t (k + 1)) :=
      Nat.mul_le_mul_left perMs (Nat.sub_le_sub_right (Nat.div_le_div_right (h.mono k)) _)
    rcases Nat.eq_zero_or_pos k with rfl | hk
    · omega
    · have hmul := Nat.mul_le_mul_left perMs (Nat.succ_le_of_lt (hbefore k hk (Nat.lt_succ_self k)))
      rw [Nat.mul_add, Nat.mul_succ] at hmul
      omega

/-- Ten ticks a millisecond and a period of 10 ms, looked at every 3.5 ms, and a delay of 15 ms. -/
theorem tiva_delay_fifteen :
    ∃ m, (∀ fuel, m ≤ fuel → timeDelayMs (tivaTimer ⟨100, 10000⟩
        (valueAt ⟨100, 10000⟩ fun i => 35 * i)) 15 fuel = some m) ∧
      10 * 15 < 35 * m - 35 * 0 + 10 ∧
      35 * m - 35 * 0 ≤ 10 * 15 + 35 + 10 * reloads ⟨100, 10000⟩ (35 * 0) (35 * m) := by
  have h : CountsDown ⟨100, 10000⟩ 10 (fun i => 35 * i)
      (valueAt ⟨100, 10000⟩ fun i => 35 * i) :=
    { bits := by decide
      hertz := rfl
      pos := by decide
      le_period := by decide
      shows := toNat_valueAt _ _
      mono := fun i => Nat.mul_le_mul_left 35 (Nat.le_succ i)
      near := fun i => by simp [Nat.mul_add] }
  exact @tiva_delay _ 10 35 _ _ 15 h (fun i => by simp [Nat.mul_add]) (by decide)
    (fun T => ⟨T, by omega⟩) (by decide)

end Nuhal.Clock

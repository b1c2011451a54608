import Nuhal.Clock.TivaDelay

/-!
# Loops that watch the clock (`nuhal_all/src/time.c:40-74`)

A loop with a deadline looks at the clock in each of its passes. When the first look comes is left
open: `uart_read_block_error` sets up its stamp, and then waits for data before its loop, which may
take longer than the clock takes to roll over.

* `Counting`: what a clock has to be for such a loop.
* `Watched`: what its stamp knows, `Watched.look`: one more look.
* **`Watched.deadline`**: the loop does not go on for longer than its deadline takes.
* `exactCounting`, `Ticking.counting`: the clocks of Linux and SysTick are such clocks.
-/

namespace Nuhal.Clock

open Nuhal.All Nuhal.Tiva

variable {read : Nat → UInt32} {period : UInt32} {gap jump : Nat} {count ticks : Nat → Nat}

/-- The clock shows `read t` at the true time `t`. Looked at again within `gap`, it adds what was
counted in between, no more than `jump`; and it does not count too slowly: `n` units take no more
than the time `ticks n`. -/
structure Counting (read : Nat → UInt32) (period : UInt32) (gap jump : Nat)
    (count ticks : Nat → Nat) : Prop where
  mono : Monotone count
  adds : ∀ {a b : Nat} (stamp : TimeElapsed), stamp.currTime = read a → a ≤ b → b ≤ a + gap →
    (timeElapsed period stamp (read b)).1.toNat =
      (stamp.elapsedTime.toNat + (count b - count a)) % 2 ^ 32
  jumps : ∀ {a b : Nat}, a ≤ b → b ≤ a + gap → count b ≤ count a + jump
  slow : ∀ {a b : Nat}, a ≤ b → b ≤ a + ticks (count b - count a)
  ticks_mono : Monotone ticks

/-! ## Stamps -/

/-- The stamp was looked at first at `first` and last at `last`, less than `bound` units later. -/
structure LookedAt (read : Nat → UInt32) (count : Nat → Nat) (bound : Nat) (stamp : TimeElapsed)
    (first last : Nat) : Prop where
  order : first ≤ last
  current : stamp.currTime = read last
  open_ : stamp.elapsedTime.toNat < bound
  counted : count last - count first ≤ stamp.elapsedTime.toNat

/-- At the time `t`, between two passes of a loop that began at `start`: there was no pass yet, or
the first look came no later than `early` after the start, and the last one was `slack` ago at
most. -/
def Watched (read : Nat → UInt32) (count : Nat → Nat) (start early slack bound : Nat)
    (stamp : TimeElapsed) (t : Nat) : Prop :=
  t = start ∨ ∃ first last, first ≤ start + early ∧ last ≤ t ∧ t ≤ last + slack ∧
    LookedAt read count bound stamp first last

variable {start early slack bound t t' : Nat} {stamp : TimeElapsed}

/-- **The deadline of a loop.** -/
theorem Watched.deadline (h : Counting read period gap jump count ticks)
    (hw : Watched read count start early slack bound stamp t) :
    t ≤ start + early + ticks bound + slack := by
  rcases hw with rfl | ⟨first, last, hfirst, -, hlast, hlooked⟩
  · omega
  · have hslow := h.slow hlooked.order
    have hticks := h.ticks_mono (Nat.le_of_lt (Nat.lt_of_le_of_lt hlooked.counted hlooked.open_))
    omega

/-- **One more look**, which does not end the loop. -/
theorem Watched.look (h : Counting read period gap jump count ticks)
    (hw : Watched read count start early slack bound stamp t) (hgap : slack + early ≤ gap)
    (hfits : bound + jump ≤ 2 ^ 32) (hle : t ≤ t') (hsoon : t' ≤ t + early)
    (hopen : (timeElapsed period stamp (read t')).1.toNat < bound) {t'' : Nat} (hle' : t' ≤ t'')
    (hslack : t'' ≤ t' + slack) :
    Watched read count start early slack bound (timeElapsed period stamp (read t')).2 t'' := by
  rcases hw with rfl | ⟨first, last, hfirst, hlast, hlate, hlooked⟩
  · exact .inr ⟨t', t', hsoon, hle', hslack,
      ⟨Nat.le_refl _, rfl, hopen, by rw [Nat.sub_self]; exact Nat.zero_le _⟩⟩
  · have hadds := h.adds stamp hlooked.current (hlast.trans hle) (by omega)
    have hjumps := h.jumps (hlast.trans hle) (show t' ≤ last + gap by omega)
    have hbelow := hlooked.open_
    rw [Nat.mod_eq_of_lt (by omega)] at hadds
    have hfirstLast := h.mono hlooked.order
    have hcounted := hlooked.counted
    refine .inr ⟨first, t', hfirst, hle', hslack,
      ⟨hlooked.order.trans (hlast.trans hle), rfl, hopen, ?_⟩⟩
    show count t' - count first ≤ (timeElapsed period stamp (read t')).1.toNat
    rw [hadds]
    omega

/-- Only the difference between two readings is added. -/
theorem timeElapsed_adds (period now : UInt32) (stamp : TimeElapsed) :
    (timeElapsed period stamp now).1 =
      stamp.elapsedTime + (timeElapsed period (timeElapsedInit stamp.currTime) now).1 := by
  unfold timeElapsed timeElapsedInit
  dsimp only
  split
  · rw [UInt32.zero_add]
  · rw [UInt32.zero_add]

/-! ## A clock that counts the time -/

/-- What a clock shows at the time `t` that counts units of `unit`, modulo its period. -/
def exactRead (period : UInt32) (unit t : Nat) : UInt32 :=
  UInt32.ofNat (t / unit % period.toNat)

theorem toNat_exactRead (hperiod : 0 < period.toNat) (unit t : Nat) :
    (exactRead period unit t).toNat = t / unit % period.toNat :=
  UInt32.toNat_ofNat_of_lt' (Nat.lt_trans (Nat.mod_lt _ hperiod) period.toNat_lt)

/-- What is counted between two looks. -/
theorem count_near {unit a b : Nat} (hunit : 0 < unit) (hsoon : b ≤ a + gap) :
    b / unit ≤ a / unit + (gap / unit + 1) := by
  have hdiv := Nat.div_le_div_right (c := unit) hsoon
  rw [Nat.add_div hunit] at hdiv
  split at hdiv <;> omega

/-- **A clock that counts the time is one for loops**, which look at it more than once a period. -/
theorem exactCounting {unit : Nat} (hunit : 0 < unit) (hgap : gap / unit + 1 < period.toNat) :
    Counting (exactRead period unit) period gap (gap / unit + 1) (· / unit)
      (fun n => unit * (n + 1)) where
  mono := fun _ _ hle => Nat.div_le_div_right hle
  adds := by
    intro a b stamp hcurrent hle hsoon
    have hshows := toNat_exactRead (Nat.lt_of_le_of_lt (Nat.zero_le _) hgap) unit
    have hstamped : Stamped period.toNat (a / unit) (a / unit)
        (timeElapsedInit (exactRead period unit a)) :=
      ⟨hshows a, by rw [Nat.sub_self]; rfl⟩
    have hnear : b / unit - a / unit < period.toNat :=
      Nat.lt_of_le_of_lt (Nat.sub_le_iff_le_add'.mpr (count_near hunit hsoon)) hgap
    have hcounts := timeElapsed_counts hstamped (Nat.le_refl _) (Nat.div_le_div_right hle) hnear
      rfl (hshows b)
    rw [timeElapsed_adds, hcurrent, UInt32.toNat_add, hcounts.2, Nat.add_mod_mod]
  jumps := fun _ hsoon => count_near hunit hsoon
  slow := by
    intro a b hle
    have ha := Nat.mul_div_le a unit
    have hb := Nat.lt_mul_div_succ b hunit
    have hdiv : a / unit ≤ b / unit := Nat.div_le_div_right hle
    obtain ⟨n, hn⟩ := Nat.exists_eq_add_of_le hdiv
    show b ≤ a + unit * (b / unit - a / unit + 1)
    rw [hn, Nat.add_sub_cancel_left]
    rw [hn] at hb
    simp only [Nat.mul_add, Nat.mul_one] at hb ⊢
    omega
  ticks_mono := fun _ _ hle => Nat.mul_le_mul_left unit (Nat.succ_le_succ hle)

/-! ## SysTick -/

/-- SysTick with `perMs` ticks a millisecond. -/
structure Ticking (tick : SysTick) (perMs : Nat) : Prop where
  bits : tick.period.toNat < 2 ^ 24
  hertz : tick.clockHz.toNat = 1000 * perMs
  pos : 0 < perMs
  le_period : perMs ≤ tick.period.toNat

/-- What SysTick shows at the true tick time `t`; tick 0 is a reload. -/
def sysTickRead (tick : SysTick) (t : Nat) : UInt32 :=
  Tiva.timeCurrentMs tick (UInt32.ofNat (tick.period.toNat - 1 - t % tick.period.toNat))

/-- The whole milliseconds up to the tick time `t`. -/
def sysTickCount (tick : SysTick) (perMs t : Nat) : Nat :=
  (1 + t % tick.period.toNat) / perMs + tick.period.toNat / perMs * (t / tick.period.toNat)

/-- The ticks that `n` milliseconds take at most: each reload loses less than one. -/
def sysTickTicks (tick : SysTick) (perMs n : Nat) : Nat :=
  perMs * (n + n / (tick.period.toNat / perMs) + 2)

variable {tick : SysTick} {perMs : Nat}

/-- The two looks at `a` and `b`. -/
def twoLooks (a b : Nat) (i : Nat) : Nat := if i = 0 then a else b

theorem twoLooks_succ (a b i : Nat) : twoLooks a b (i + 1) = b := if_neg (Nat.succ_ne_zero i)

namespace Ticking

theorem twoLooks_countsDown (h : Ticking tick perMs) {a b : Nat} (hle : a ≤ b)
    (hnear : b - a < tick.period.toNat) :
    CountsDown tick perMs (twoLooks a b) (valueAt tick (twoLooks a b)) where
  bits := h.bits
  hertz := h.hertz
  pos := h.pos
  le_period := h.le_period
  shows := toNat_valueAt _ _
  mono i := by
    rw [twoLooks_succ]
    unfold twoLooks
    split <;> omega
  near i := by
    rw [twoLooks_succ]
    unfold twoLooks
    split <;> omega

theorem period_pos (h : Ticking tick perMs) : 0 < tick.period.toNat :=
  Nat.lt_of_lt_of_le h.pos h.le_period

/-- Since the last reload there were no more milliseconds than there are in a period. -/
theorem since_reload (h : Ticking tick perMs) (t : Nat) :
    (1 + t % tick.period.toNat) / perMs ≤ tick.period.toNat / perMs := by
  have hbelow := Nat.mod_lt t h.period_pos
  exact Nat.div_le_div_right (by omega)

theorem count_mono (h : Ticking tick perMs) : Monotone (sysTickCount tick perMs) := by
  intro a b hle
  have ha := Nat.div_add_mod a tick.period.toNat
  have hb := Nat.div_add_mod b tick.period.toNat
  unfold sysTickCount
  rcases Nat.lt_or_eq_of_le (Nat.div_le_div_right (c := tick.period.toNat) hle) with hlt | hsame
  · have hsince := h.since_reload a
    have hmul := Nat.mul_le_mul_left (tick.period.toNat / perMs) (Nat.succ_le_of_lt hlt)
    rw [Nat.mul_succ] at hmul
    have hmore := Nat.le_add_left (tick.period.toNat / perMs * (b / tick.period.toNat))
      ((1 + b % tick.period.toNat) / perMs)
    omega
  · rw [← hsame] at hb ⊢
    have hsince : (1 + a % tick.period.toNat) / perMs ≤ (1 + b % tick.period.toNat) / perMs :=
      Nat.div_le_div_right (by omega)
    omega

/-- What was counted between two looks. -/
theorem counted_twoLooks (tick : SysTick) (perMs : Nat) {a b : Nat} (hle : a ≤ b) :
    counted tick perMs (twoLooks a b) 1 + sysTickCount tick perMs a =
      counted tick perMs (twoLooks a b) 0 + sysTickCount tick perMs b := by
  have hmul := Nat.mul_le_mul_left (tick.period.toNat / perMs)
    (Nat.div_le_div_right (c := tick.period.toNat) hle)
  rw [counted_zero]
  show (1 + b % tick.period.toNat) / perMs + tick.period.toNat / perMs *
    (b / tick.period.toNat - a / tick.period.toNat) + sysTickCount tick perMs a =
    (1 + a % tick.period.toNat) / perMs + sysTickCount tick perMs b
  unfold sysTickCount
  rw [Nat.mul_sub]
  omega

/-- SysTick loses less than a millisecond at a reload. -/
theorem count_slow (h : Ticking tick perMs) {a b : Nat} (hle : a ≤ b) :
    b ≤ a + sysTickTicks tick perMs (sysTickCount tick perMs b - sysTickCount tick perMs a) := by
  have ha := Nat.div_add_mod a tick.period.toNat
  have hb := Nat.div_add_mod b tick.period.toNat
  have hmono := h.count_mono hle
  have hperiod : 0 < tick.period.toNat / perMs := Nat.div_pos h.le_period h.pos
  obtain ⟨turns, hturns⟩ : ∃ turns, b / tick.period.toNat = a / tick.period.toNat + turns :=
    Nat.exists_eq_add_of_le (Nat.div_le_div_right hle)
  obtain ⟨n, hn⟩ : ∃ n, sysTickCount tick perMs b = sysTickCount tick perMs a + n :=
    Nat.exists_eq_add_of_le hmono
  have hcount := hn
  unfold sysTickCount at hcount
  rw [hturns, Nat.mul_add] at hcount
  -- the turns are counted, up to one of them
  have hsince := h.since_reload a
  have hlost : turns ≤ n / (tick.period.toNat / perMs) + 1 := by
    have hmore := Nat.le_add_left (tick.period.toNat / perMs * turns)
      ((1 + b % tick.period.toNat) / perMs)
    have hdiv : tick.period.toNat / perMs * turns ≤ n + tick.period.toNat / perMs := by omega
    have hle' := Nat.div_le_div_right (c := tick.period.toNat / perMs) hdiv
    rw [Nat.mul_div_cancel_left _ hperiod, Nat.add_div_right _ hperiod] at hle'
    exact hle'
  -- and their ticks are no more than what they counted and lost
  obtain ⟨-, hhigh⟩ := mul_div_close h.pos tick.period.toNat
  obtain ⟨hlow, -⟩ := mul_div_close h.pos (1 + a % tick.period.toNat)
  obtain ⟨-, hhigh'⟩ := mul_div_close h.pos (1 + b % tick.period.toNat)
  have hscaled := congrArg (perMs * ·) hcount
  have hturn := Nat.mul_le_mul_right turns (Nat.le_of_lt hhigh)
  have hlose := Nat.mul_le_mul_left perMs hlost
  rw [hn, Nat.add_sub_cancel_left]
  unfold sysTickTicks
  rw [hturns, Nat.mul_add] at hb
  simp only [Nat.mul_add, Nat.add_mul, Nat.mul_one, Nat.mul_assoc] at hscaled hturn hlose ⊢
  omega

/-- **SysTick is a clock for loops**, which look at it so often that a millisecond is left of each
period. -/
theorem counting (h : Ticking tick perMs) (hgap : gap + perMs ≤ tick.period.toNat) :
    Counting (sysTickRead tick) (timePeriodMs tick) gap (gap / perMs + 1)
      (sysTickCount tick perMs) (sysTickTicks tick perMs) := by
  have hpos := h.pos
  have hlooks : ∀ {a b : Nat}, a ≤ b → b ≤ a + gap →
      CountsDown tick perMs (twoLooks a b) (valueAt tick (twoLooks a b)) ∧
        ∀ i, twoLooks a b (i + 1) - twoLooks a b i ≤ gap := by
    intro a b hle hsoon
    refine ⟨h.twoLooks_countsDown hle (by omega), fun i => ?_⟩
    rw [twoLooks_succ]
    unfold twoLooks
    split <;> omega
  have hjumps : ∀ {a b : Nat}, a ≤ b → b ≤ a + gap →
      sysTickCount tick perMs b ≤ sysTickCount tick perMs a + (gap / perMs + 1) := by
    intro a b hle hsoon
    obtain ⟨hdown, hnear⟩ := hlooks hle hsoon
    have hstep := hdown.counted_step 0 (hnear 0)
    have hcounted := counted_twoLooks tick perMs hle
    rw [Nat.zero_add] at hstep
    omega
  refine ⟨h.count_mono, fun {a b} stamp hcurrent hle hsoon => ?_, hjumps, h.count_slow, ?_⟩
  · obtain ⟨hdown, hnear⟩ := hlooks hle hsoon
    have hcounted := counted_twoLooks tick perMs hle
    have hmono := h.count_mono hle
    have hfits : counted tick perMs (twoLooks a b) 1 <
        counted tick perMs (twoLooks a b) 0 + 2 ^ 32 := by
      have hstep := hdown.counted_step 0 (hnear 0)
      have hless := Nat.div_le_self gap perMs
      have hbits := h.bits
      rw [Nat.zero_add] at hstep
      omega
    have helapsed : (timeElapsed (timePeriodMs tick) (timeElapsedInit (sysTickRead tick a))
        (sysTickRead tick b)).1.toNat + counted tick perMs (twoLooks a b) 0 =
        counted tick perMs (twoLooks a b) 1 := hdown.elapsed_counted hnear hgap hfits
    rw [timeElapsed_adds, hcurrent, UInt32.toNat_add]
    congr 2
    omega
  · intro n m hle
    have hdiv := Nat.div_le_div_right (c := tick.period.toNat / perMs) hle
    exact Nat.mul_le_mul_left perMs (by omega)

end Ticking

end Nuhal.Clock

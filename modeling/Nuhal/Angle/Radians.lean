import Nuhal.All.Radians
import Nuhal.Angle.Normalise
import Nuhal.Angle.Zero

/-!
# Angles of an encoder (`nuhal_all/src/encoder.c:5-105`, `utilities.c:16-27`)

A shaft turns by any number of ticks, forwards or back, and the encoder shows where it is in the
turn. What is computed from a reading is an angle again.

* `ticks_radians`: whole turns of ticks are whole turns of angle.
* `encoder_angle`: **the angle of a reading is the normalised angle of the shaft**, but for the tick
  that is farthest from zero, which `encoder_ticks` always puts on the negative side.
* `zeroInput_radiansOf`, `radiansOf_close`: an angle in range is a number of ticks, within one tick.
* `encoder_tracks`: **an encoder that was zeroed at one reading shows the angle at every later
  one**, within one tick and whole turns.
-/

namespace Nuhal.Angle

open Nuhal.Lib Nuhal.All

variable {K : Type} [Field K] [LinearOrder K] [FloorRing K] [IsStrictOrderedRing K] {pi : K}

/-- The angle of `v` ticks, `N` of them to a turn. -/
def tickAngle (pi : K) (N : Nat) (v : Int) : K := turn pi * v / N

omit [LinearOrder K] [FloorRing K] [IsStrictOrderedRing K] in
theorem tickAngle_add (pi : K) (N : Nat) (v w : Int) :
    tickAngle pi N (v + w) = tickAngle pi N v + tickAngle pi N w := by
  unfold tickAngle turn
  push_cast
  ring

omit [FloorRing K] in
/-- Whole turns of ticks are whole turns of angle. -/
theorem ticks_radians (pi : K) {N : Nat} (hN : 0 < N) {v w : Int} (h : v ≡ w [ZMOD N]) :
    ∃ k : Int, tickAngle pi N v = tickAngle pi N w + k * (2 * pi) := by
  obtain ⟨k, hk⟩ := h.symm.dvd
  have hne : (N : K) ≠ 0 := Nat.cast_ne_zero.mpr (Nat.ne_of_gt hN)
  refine ⟨k, ?_⟩
  rw [show v = w + N * k by omega, tickAngle_add]
  unfold tickAngle turn
  push_cast
  field_simp

section Bounds

variable {N : Nat} {v : Int}

omit [FloorRing K]

theorem tickAngle_lt (hpi : 0 < pi) (hN : 0 < N) {c : Int} (h : 2 * v < c * N) :
    tickAngle pi N v < c * pi := by
  have hpos : (0 : K) < N := Nat.cast_pos.mpr hN
  have hcast : 2 * (v : K) < c * N := by exact_mod_cast h
  unfold tickAngle turn
  rw [div_lt_iff₀ hpos]
  linarith [mul_lt_mul_of_pos_left hcast hpi]

theorem lt_tickAngle (hpi : 0 < pi) (hN : 0 < N) {c : Int} (h : c * N < 2 * v) :
    c * pi < tickAngle pi N v := by
  have hpos : (0 : K) < N := Nat.cast_pos.mpr hN
  have hcast : (c : K) * N < 2 * v := by exact_mod_cast h
  unfold tickAngle turn
  rw [lt_div_iff₀ hpos]
  linarith [mul_lt_mul_of_pos_left hcast hpi]

theorem tickAngle_le (hpi : 0 < pi) (hN : 0 < N) {c : Int} (h : 2 * v ≤ c * N) :
    tickAngle pi N v ≤ c * pi := by
  have hpos : (0 : K) < N := Nat.cast_pos.mpr hN
  have hcast : 2 * (v : K) ≤ c * N := by exact_mod_cast h
  unfold tickAngle turn
  rw [div_le_iff₀ hpos]
  linarith [mul_le_mul_of_nonneg_left hcast (le_of_lt hpi)]

end Bounds

/-! ## The angle of a reading -/

/-- Centred ticks are the normalised angle, or a turn less at the tick that is farthest. -/
theorem tickAngle_normalised (hpi : 0 < pi) {N : Nat} (hN : 2 ≤ N) {v turned : Int}
    (hcentred : Centred N v) (hmod : v ≡ turned [ZMOD N]) :
    tickAngle pi N v = normalizeAngle pi (tickAngle pi N turned) ∨
      (2 * v ≤ -(N : Int) ∧
        tickAngle pi N v = normalizeAngle pi (tickAngle pi N turned) - 2 * pi) := by
  have hpos : 0 < N := by omega
  obtain ⟨k, hk⟩ := ticks_radians pi hpos hmod
  obtain ⟨j, hj⟩ := normalizeAngle_turns pi (tickAngle pi N turned)
  obtain ⟨hlow, hhigh⟩ := normalizeAngle_range hpi (tickAngle pi N turned)
  have hturns : tickAngle pi N v =
      normalizeAngle pi (tickAngle pi N turned) + (k - j : Int) * (2 * pi) := by
    rw [hj, hk]
    push_cast
    ring
  generalize normalizeAngle pi (tickAngle pi N turned) = x at hlow hhigh hturns ⊢
  generalize k - j = m at hturns
  obtain ⟨hcl, hch⟩ := hcentred
  by_cases hfar : 2 * v ≤ -(N : Int)
  · -- between two turns and one half turn below zero
    have habove := lt_tickAngle (v := v) hpi hpos (show (-2 : Int) * N < 2 * v by omega)
    have hbelow := tickAngle_le (v := v) hpi hpos (show 2 * v ≤ (-1 : Int) * N by omega)
    push_cast at habove hbelow
    have hmlow : -2 < m := by
      by_contra hle
      have hcast : (m : K) ≤ -2 := by exact_mod_cast not_lt.mp hle
      linarith [mul_le_mul_of_nonneg_right hcast (show (0 : K) ≤ 2 * pi by linarith)]
    have hmhigh : m < 1 := by
      by_contra hge
      have hcast : (1 : K) ≤ m := by exact_mod_cast not_lt.mp hge
      linarith [mul_le_mul_of_nonneg_right hcast (show (0 : K) ≤ 2 * pi by linarith)]
    obtain rfl | rfl : m = -1 ∨ m = 0 := by omega
    · refine .inr ⟨hfar, ?_⟩
      rw [hturns]
      push_cast
      ring
    · exact .inl (by rw [hturns, Int.cast_zero, zero_mul, add_zero])
  · have habove := lt_tickAngle (v := v) hpi hpos (show (-1 : Int) * N < 2 * v by omega)
    have hbelow := tickAngle_lt (v := v) hpi hpos (show 2 * v < (1 : Int) * N by omega)
    push_cast at habove hbelow
    rcases near_congruent hpi ⟨hlow, hhigh⟩ ⟨by linarith, by linarith⟩ hturns with
      hsame | ⟨-, hhalf⟩ | ⟨-, hhalf⟩
    · exact .inl hsame
    · linarith
    · linarith

/-- **The angle of a reading.** Where the shaft has turned by any number of ticks from the zero
position, `encoder_radians` of `encoder_ticks` is what `normalize_angle` makes of the angle by which
it has turned; only at the tick that is half a turn away or half a tick more, it is a whole turn
less where `normalize_angle` stays positive. -/
theorem encoder_angle (hpi : 0 < pi) (enc : Encoder) (hlow : 2 ≤ enc.ticksPerRev.toNat)
    (hmax : enc.ticksPerRev.toNat ≤ 2 ^ 31 - 1)
    (hzero : enc.zeroAngleTicks.toNat < enc.ticksPerRev.toNat) (raw : EncoderRaw)
    (hraw : raw.single.toNat < enc.ticksPerRev.toNat) (turned : Int)
    (hshows : (raw.single.toNat : Int) ≡
      readingAt enc.orientation enc.zeroAngleTicks.toNat turned [ZMOD enc.ticksPerRev.toNat]) :
    ∃ v angle, encoderTicks (some enc) raw false = (.ok v, false) ∧
      encoderRadians pi (some enc) v = .ok angle ∧
      (angle = normalizeAngle pi (tickAngle pi enc.ticksPerRev.toNat turned) ∨
        (2 * v.toInt ≤ -(enc.ticksPerRev.toNat : Int) ∧
          angle = normalizeAngle pi (tickAngle pi enc.ticksPerRev.toNat turned) - 2 * pi)) := by
  obtain ⟨v, hv, hmod, hcentred⟩ :=
    encoderTicks_spec enc raw (by omega) hraw (Nat.le_of_lt hzero) false
  exact ⟨v, _, hv, rfl, tickAngle_normalised hpi hlow (hcentred hlow)
    (hmod.trans (displacement_modEq_iff.mpr hshows))⟩

/-- Ten degrees below the zero position, a turn on, with `pi` as three. -/
theorem encoder_angle_degrees :
    ∃ v angle, encoderTicks (some ⟨360, 100, .upUp⟩) ⟨0, 90⟩ false = (.ok v, false) ∧
      encoderRadians (3 : ℚ) (some ⟨360, 100, .upUp⟩) v = .ok angle ∧
      (angle = normalizeAngle 3 (tickAngle 3 360 350) ∨
        (2 * v.toInt ≤ -360 ∧ angle = normalizeAngle 3 (tickAngle 3 360 350) - 2 * 3)) :=
  encoder_angle (by decide) ⟨360, 100, .upUp⟩ (by decide) (by decide) (by decide) ⟨0, 90⟩
    (by decide) 350 (by decide)

/-! ## Zeroing -/

section Zeroing

variable {enc : Encoder} {raw : EncoderRaw} {radians : K}

theorem abs_ticks_le (hpi : 0 < pi) {N : Nat} (hlow : -pi < radians) (hhigh : radians ≤ pi) :
    2 * (truncate (radians * N / (2 * pi))).natAbs ≤ N := by
  have htwo : 0 < 2 * pi := by linarith
  have hN : (0 : K) ≤ N := Nat.cast_nonneg N
  have hquotient : |radians * N / (2 * pi)| * (2 * pi) ≤ pi * N := by
    rw [abs_div, abs_of_pos htwo, div_mul_cancel₀ _ (ne_of_gt htwo), abs_mul, abs_of_nonneg hN]
    exact mul_le_mul_of_nonneg_right (abs_le.mpr ⟨le_of_lt hlow, hhigh⟩) hN
  have htruncate := mul_le_mul_of_nonneg_right (abs_truncate_le (radians * N / (2 * pi)))
    (le_of_lt htwo)
  have hcast : 2 * |(truncate (radians * N / (2 * pi)) : K)| ≤ N := by
    refine le_of_mul_le_mul_left ?_ hpi
    linarith
  have hint : 2 * |truncate (radians * N / (2 * pi))| ≤ (N : Int) := by exact_mod_cast hcast
  rw [Int.abs_eq_natAbs] at hint
  omega

theorem toInt_radiansOf (hpi : 0 < pi) {N : UInt32} (hmax : N.toNat ≤ 2 ^ 31 - 1)
    (hlow : -pi < radians) (hhigh : radians ≤ pi) :
    ((radiansOf pi radians).ticks N).toInt = truncate (radians * N.toNat / (2 * pi)) := by
  have hle := abs_ticks_le (N := N.toNat) hpi hlow hhigh
  show (Int32.ofInt (truncate (radians * N.toNat / (2 * pi)))).toInt = _
  exact Int32.toInt_ofInt_of_le (by omega) (by omega)

theorem zeroInput_radiansOf (hpi : 0 < pi) (hmax : enc.ticksPerRev.toNat ≤ 2 ^ 31 - 1)
    (hraw : raw.single.toNat < enc.ticksPerRev.toNat) (hknown : enc.orientation ≠ .unknown)
    (hlow : -pi < radians) (hhigh : radians ≤ pi) :
    ZeroInput enc raw (radiansOf pi radians) where
  turn := hmax
  reading := hraw
  known := hknown
  inRange := decide_eq_false (not_or.mpr ⟨not_le_of_gt hlow, not_lt_of_ge hhigh⟩)
  half := by
    rw [toInt_radiansOf hpi hmax hlow hhigh]
    exact abs_ticks_le hpi hlow hhigh

/-- Whole ticks are less than a tick from the angle. -/
theorem radiansOf_close (hpi : 0 < pi) {N : Nat} (hN : 0 < N) (radians : K) :
    |tickAngle pi N (truncate (radians * N / (2 * pi))) - radians| < tickAngle pi N 1 := by
  have hpos : (0 : K) < N := Nat.cast_pos.mpr hN
  have hstep : 0 < tickAngle pi N 1 := by
    unfold tickAngle turn
    rw [Int.cast_one, mul_one]
    exact div_pos (by linarith) hpos
  have hradians : radians = tickAngle pi N 1 * (radians * N / (2 * pi)) := by
    unfold tickAngle turn
    rw [Int.cast_one, mul_one]
    field_simp
  have hticks : tickAngle pi N (truncate (radians * N / (2 * pi))) =
      tickAngle pi N 1 * truncate (radians * N / (2 * pi)) := by
    unfold tickAngle turn
    rw [Int.cast_one, mul_one]
    ring
  have hclose := abs_sub_truncate_lt (radians * N / (2 * pi))
  rw [abs_sub_comm] at hclose
  rw [hticks]
  nth_rewrite 2 [hradians]
  rw [← mul_sub, abs_mul, abs_of_pos hstep]
  exact mul_lt_of_lt_one_right hstep hclose

end Zeroing

/-- What a later reading is from a zero position that was set at an earlier one. -/
theorem displacement_later {orientation : EncoderOrientation} {N r r' t turned : Int}
    (h : r' ≡ readingAt orientation r turned [ZMOD N]) :
    displacement orientation r' (zeroFor orientation r t) ≡ turned + t [ZMOD N] := by
  have hreading : readingAt orientation (zeroFor orientation r t) (turned + t) =
      readingAt orientation r turned := by
    cases orientation <;> simp only [readingAt, zeroFor] <;> ring
  rw [displacement_modEq_iff, hreading]
  exact h

/-- **A zeroed encoder tracks its shaft.** The zero position is set at one reading, for any angle in
`(-PI, PI]`; then the shaft turns by any number of ticks, in either direction. At the reading after
that the angle is what the first one was set to and what the shaft has turned since, less than one
tick off, up to whole turns; it is below half a turn, and less than a tick beyond it on the other
side. -/
theorem encoder_tracks (hpi : 0 < pi) (enc : Encoder) (hmax : enc.ticksPerRev.toNat ≤ 2 ^ 31 - 1)
    (hknown : enc.orientation ≠ .unknown) (raw later : EncoderRaw)
    (hraw : raw.single.toNat < enc.ticksPerRev.toNat)
    (hlater : later.single.toNat < enc.ticksPerRev.toNat) (radians : K) (hlow : -pi < radians)
    (hhigh : radians ≤ pi) (turned : Int)
    (hturned : (later.single.toNat : Int) ≡
      readingAt enc.orientation raw.single.toNat turned [ZMOD enc.ticksPerRev.toNat]) :
    ∃ zero v angle, ∃ k : Int,
      encoderZeroRaw (some enc) raw (radiansOf pi radians) false = (.ok zero, false) ∧
      encoderTicks (some { enc with zeroAngleTicks := zero }) later false = (.ok v, false) ∧
      encoderRadians pi (some enc) v = .ok angle ∧
      |angle - (radians + tickAngle pi enc.ticksPerRev.toNat turned + k * (2 * pi))| <
        tickAngle pi enc.ticksPerRev.toNat 1 ∧
      (2 ≤ enc.ticksPerRev.toNat → angle < pi ∧
        -pi - tickAngle pi enc.ticksPerRev.toNat 1 < angle) := by
  have hpos : 0 < enc.ticksPerRev.toNat := by omega
  obtain ⟨zero, hzero, hle, hmod, -⟩ :=
    encoderZeroRaw_spec (zeroInput_radiansOf hpi hmax hraw hknown hlow hhigh) false
  rw [toInt_radiansOf hpi hmax hlow hhigh] at hmod
  obtain ⟨v, hv, hticks, hcentred⟩ := encoderTicks_spec { enc with zeroAngleTicks := zero } later
    (by show enc.ticksPerRev.toNat < _; omega) hlater hle false
  have hback : v.toInt ≡ turned + truncate (radians * enc.ticksPerRev.toNat / (2 * pi))
      [ZMOD enc.ticksPerRev.toNat] :=
    hticks.trans ((displacement_modEq hmod).trans (displacement_later hturned))
  obtain ⟨k, hk⟩ := ticks_radians pi hpos hback
  rw [tickAngle_add] at hk
  have hclose := abs_lt.mp (radiansOf_close hpi hpos radians)
  refine ⟨zero, v, _, k, hzero, hv, rfl, ?_, fun htwo => ?_⟩
  · show |tickAngle pi enc.ticksPerRev.toNat v.toInt - _| < _
    rw [hk]
    exact abs_lt.mpr ⟨by linarith [hclose.1], by linarith [hclose.2]⟩
  · obtain ⟨hcl, hch⟩ := hcentred htwo
    have hcl' : -(((enc.ticksPerRev.toNat + 1) / 2 : Nat) : Int) ≤ v.toInt := hcl
    have hch' : v.toInt < ((enc.ticksPerRev.toNat / 2 : Nat) : Int) := hch
    have hbelow := tickAngle_lt hpi hpos
      (show 2 * v.toInt < (1 : Int) * enc.ticksPerRev.toNat by omega)
    have habove := lt_tickAngle hpi hpos
      (show (-1 : Int) * enc.ticksPerRev.toNat < 2 * (v.toInt + 1) by omega)
    rw [tickAngle_add] at habove
    push_cast at hbelow habove
    have hbelow' : tickAngle pi enc.ticksPerRev.toNat v.toInt < pi := by linarith
    have habove' : -pi - tickAngle pi enc.ticksPerRev.toNat 1 <
        tickAngle pi enc.ticksPerRev.toNat v.toInt := by linarith
    exact ⟨hbelow', habove'⟩

/-- A third of half a turn at the reading 120, and a quarter turn back from there. -/
theorem encoder_tracks_quarter :
    ∃ zero v angle, ∃ k : Int,
      encoderZeroRaw (some ⟨360, 0, .upUp⟩) ⟨0, 120⟩ (radiansOf (3 : ℚ) 1) false =
        (.ok zero, false) ∧
      encoderTicks (some ⟨360, zero, .upUp⟩) ⟨0, 30⟩ false = (.ok v, false) ∧
      encoderRadians (3 : ℚ) (some ⟨360, 0, .upUp⟩) v = .ok angle ∧
      |angle - (1 + tickAngle 3 360 (-90) + k * (2 * 3))| < tickAngle 3 360 1 ∧
      (2 ≤ 360 → angle < 3 ∧ -3 - tickAngle 3 360 1 < angle) :=
  encoder_tracks (by decide) ⟨360, 0, .upUp⟩ (by decide) (by decide) ⟨0, 120⟩ ⟨0, 30⟩ (by decide)
    (by decide) 1 (by decide) (by decide) (-90) (by decide)

end Nuhal.Angle

import Nuhal.All.Encoder
import Nuhal.Lib.Residue

/-!
# Normalised encoder ticks (`nuhal_all/src/encoder.c:5-50`)

A full turn is `N` ticks. `encoder_ticks` returns how far a reading is from the zero position, in
the sense of the orientation and modulo `N`, as the one number in `[-⌈N/2⌉, ⌊N/2⌋)`.

* `angleFull_spec`: the first half of the function, its four branches and no overflow.
* `encoderTicks_spec`: all of it, for a zero position up to `N` itself.
* `displacement_modEq_iff`: which reading is how far from the zero position.
* `ticks_normalise`: **encoder normalisation**, the value for each reading and one reading for each
  value.
-/

namespace Nuhal.Angle

open Nuhal.Lib Nuhal.Lib.Machine Nuhal.All

/-- How far the reading `r` is from the zero position `z`. -/
def displacement (orientation : EncoderOrientation) (r z : Int) : Int :=
  match orientation with
  | .upUp => r - z
  | _ => z - r

theorem displacement_of_eq {orientation : EncoderOrientation} (h : orientation = .upUp)
    (r z : Int) : displacement orientation r z = r - z := by
  rw [h]
  rfl

theorem displacement_of_ne {orientation : EncoderOrientation} (h : orientation ≠ .upUp)
    (r z : Int) : displacement orientation r z = z - r := by
  cases orientation with
  | upUp => exact absurd rfl h
  | upDown => rfl
  | unknown => rfl

/-- The reading that is `v` ticks from the zero position `z`. -/
def readingAt (orientation : EncoderOrientation) (z v : Int) : Int :=
  match orientation with
  | .upUp => z + v
  | _ => z - v

theorem readingAt_of_eq {orientation : EncoderOrientation} (h : orientation = .upUp)
    (z v : Int) : readingAt orientation z v = z + v := by
  rw [h]
  rfl

theorem readingAt_of_ne {orientation : EncoderOrientation} (h : orientation ≠ .upUp)
    (z v : Int) : readingAt orientation z v = z - v := by
  cases orientation with
  | upUp => exact absurd rfl h
  | upDown => rfl
  | unknown => rfl

/-- The zero position itself is at no distance. -/
@[simp] theorem readingAt_zero (orientation : EncoderOrientation) (z : Int) :
    readingAt orientation z 0 = z := by
  cases orientation <;> simp [readingAt]

/-! ## Readings and residues -/

/-- A reading is known by its residue. -/
theorem reading_eq_of_modEq {N : Nat} {r s : UInt32} (hr : r.toNat < N) (hs : s.toNat < N)
    (h : (r.toNat : Int) ≡ s.toNat [ZMOD N]) : r = s := by
  have heq := eq_of_modEq_of_near h (by omega) (by omega)
  exact UInt32.toNat_inj.mp (by omega)

/-- Each residue is the residue of a reading. -/
theorem exists_reading {N : UInt32} (hN : 0 < N.toNat) (x : Int) :
    ∃ r : UInt32, r.toNat < N.toNat ∧ (r.toNat : Int) ≡ x [ZMOD N.toNat] := by
  obtain ⟨r, hlt, hmod⟩ := exists_residue hN x
  have hr : (UInt32.ofNat r).toNat = r :=
    UInt32.toNat_ofNat_of_lt (Nat.lt_trans hlt N.toNat_lt_size)
  exact ⟨UInt32.ofNat r, by rwa [hr], by rwa [hr]⟩

theorem displacement_modEq_iff {orientation : EncoderOrientation} {N r z v : Int} :
    displacement orientation r z ≡ v [ZMOD N] ↔ r ≡ readingAt orientation z v [ZMOD N] := by
  by_cases hup : orientation = .upUp
  · rw [displacement_of_eq hup, readingAt_of_eq hup]
    exact ⟨fun h => by simpa using h.add_left z, fun h => by simpa using h.sub_right z⟩
  · rw [displacement_of_ne hup, readingAt_of_ne hup]
    exact ⟨fun h => by simpa using h.sub_left z, fun h => by simpa using h.sub_left z⟩

/-! ## The function -/

variable {enc : Encoder}

theorem subU32_spec {a b : UInt32} (h : b.toNat ≤ a.toNat) (overflow : Bool) :
    ∃ d : UInt32, (subU32 a b : Machine Halt UInt32) overflow = (.ok d, overflow) ∧
      d.toNat = a.toNat - b.toNat := by
  have hle := UInt32.le_iff_toNat_le.mpr h
  exact ⟨a - b, subU32_of_le hle overflow, UInt32.toNat_sub_of_le a b hle⟩

/-- The angle over the full interval is the displacement, modulo a full turn. -/
theorem angleFull_spec {ticks : UInt32} (hticks : ticks.toNat < enc.ticksPerRev.toNat)
    (hzero : enc.zeroAngleTicks.toNat ≤ enc.ticksPerRev.toNat) (overflow : Bool) :
    ∃ angle : UInt32, angleFull enc ticks overflow = (.ok angle, overflow) ∧
      angle.toNat ≤ enc.ticksPerRev.toNat ∧
      (angle.toNat : Int) ≡ displacement enc.orientation ticks.toNat enc.zeroAngleTicks.toNat
        [ZMOD enc.ticksPerRev.toNat] := by
  unfold angleFull
  by_cases habove : ticks > enc.zeroAngleTicks
  · have hlt := UInt32.lt_iff_toNat_lt.mp habove
    obtain ⟨zeroed, hzeroed, hdiff⟩ := subU32_spec (Nat.le_of_lt hlt) overflow
    have hzeroedInt : (zeroed.toNat : Int) = ticks.toNat - enc.zeroAngleTicks.toNat := by omega
    have hturn : zeroed.toNat ≤ enc.ticksPerRev.toNat := by omega
    rw [if_pos habove, Run.bind_of_ok hzeroed]
    by_cases hup : enc.orientation = .upUp
    · rw [if_pos hup, displacement_of_eq hup]
      exact ⟨zeroed, rfl, hturn, by rw [hzeroedInt]⟩
    · rw [if_neg hup, displacement_of_ne hup]
      obtain ⟨angle, hangle, hrest⟩ := subU32_spec hturn overflow
      exact ⟨angle, hangle, by omega, modEq_of_eq_add (by omega)⟩
  · have hle : ticks.toNat ≤ enc.zeroAngleTicks.toNat :=
      UInt32.le_iff_toNat_le.mp (UInt32.not_lt.mp habove)
    obtain ⟨zeroed, hzeroed, hdiff⟩ := subU32_spec hle overflow
    have hzeroedInt : (zeroed.toNat : Int) = enc.zeroAngleTicks.toNat - ticks.toNat := by omega
    have hturn : zeroed.toNat ≤ enc.ticksPerRev.toNat := by omega
    rw [if_neg habove, Run.bind_of_ok hzeroed]
    by_cases hup : enc.orientation = .upUp
    · rw [if_pos hup, displacement_of_eq hup]
      obtain ⟨angle, hangle, hrest⟩ := subU32_spec hturn overflow
      exact ⟨angle, hangle, by omega, modEq_of_eq_add (by omega)⟩
    · rw [if_neg hup, displacement_of_ne hup]
      exact ⟨zeroed, rfl, hturn, by rw [hzeroedInt]⟩

/-- Any reading, and a zero position up to a full turn: nothing overflows, and the value is
congruent to the displacement. Only on a turn of a single tick can it reach `⌊N/2⌋`, which is 0. -/
theorem encoderTicks_spec (enc : Encoder) (raw : EncoderRaw) (hmax : enc.ticksPerRev.toNat < 2 ^ 31)
    (hraw : raw.single.toNat < enc.ticksPerRev.toNat)
    (hzero : enc.zeroAngleTicks.toNat ≤ enc.ticksPerRev.toNat) (overflow : Bool) :
    ∃ v : Int32, encoderTicks (some enc) raw overflow = (.ok v, overflow) ∧
      v.toInt ≡ displacement enc.orientation raw.single.toNat enc.zeroAngleTicks.toNat
        [ZMOD enc.ticksPerRev.toNat] ∧
      (2 ≤ enc.ticksPerRev.toNat → Centred enc.ticksPerRev.toNat v.toInt) := by
  obtain ⟨angle, hangle, hle, hmod⟩ := angleFull_spec hraw hzero overflow
  have hhalf : (enc.ticksPerRev / 2).toNat = enc.ticksPerRev.toNat / 2 := UInt32.toNat_div _ _
  have hupper : (enc.ticksPerRev / 2).toNat < 2 ^ 31 := by omega
  have hrun : encoderTicks (some enc) raw overflow =
      (if angle < enc.ticksPerRev / 2 then toI32 angle
        else do negI32 (← toI32 (← subU32 enc.ticksPerRev angle)) : Machine Halt Int32)
        overflow := by
    show (angleFull enc raw.single >>= _) overflow = _
    rw [Run.bind_of_ok hangle, Run.bind_of_ok (toI32_of_lt hupper overflow),
      Run.bind_of_ok (toU32_of_nonneg (by rw [toInt_toInt32_of_lt hupper]; omega) overflow),
      UInt32.toUInt32_toInt32]
  rw [hrun]
  by_cases hbelow : angle < enc.ticksPerRev / 2
  · have hlt := UInt32.lt_iff_toNat_lt.mp hbelow
    have hfits : angle.toNat < 2 ^ 31 := by omega
    rw [if_pos hbelow, toI32_of_lt hfits]
    refine ⟨angle.toInt32, rfl, ?_, fun _ => ?_⟩
    · rw [toInt_toInt32_of_lt hfits]
      exact hmod
    · rw [toInt_toInt32_of_lt hfits]
      exact ⟨by omega, by omega⟩
  · have hge := UInt32.le_iff_toNat_le.mp (UInt32.not_lt.mp hbelow)
    obtain ⟨rest, hrest, hdiff⟩ := subU32_spec hle overflow
    have hfits : rest.toNat < 2 ^ 31 := by omega
    rw [if_neg hbelow, Run.bind_of_ok hrest, Run.bind_of_ok (toI32_of_lt hfits overflow),
      negI32_of_ne (toInt32_ne_minValue hfits)]
    refine ⟨-rest.toInt32, rfl, ?_, fun _ => ?_⟩
    · rw [toInt_neg_toInt32 hfits]
      exact (modEq_of_eq_add (by omega)).symm.trans hmod
    · rw [toInt_neg_toInt32 hfits]
      exact ⟨by omega, by omega⟩

/-! ## One reading for each value -/

/-- **Encoder normalisation.** For a turn of `2 ≤ N ≤ INT32_MAX` ticks and a zero position below
`N`, `encoder_ticks` takes any reading below `N` without any overflow to its displacement from the
zero position modulo `N`, in `[-⌈N/2⌉, ⌊N/2⌋)`, and to 0 just at the zero position; and every
number of that interval is the value at exactly one reading. -/
theorem ticks_normalise (enc : Encoder) (hlow : 2 ≤ enc.ticksPerRev.toNat)
    (hmax : enc.ticksPerRev.toNat ≤ 2 ^ 31 - 1)
    (hzero : enc.zeroAngleTicks.toNat < enc.ticksPerRev.toNat) :
    (∀ raw : EncoderRaw, raw.single.toNat < enc.ticksPerRev.toNat →
      ∃ v : Int32, encoderTicks (some enc) raw false = (.ok v, false) ∧
        v.toInt ≡ displacement enc.orientation raw.single.toNat enc.zeroAngleTicks.toNat
          [ZMOD enc.ticksPerRev.toNat] ∧
        Centred enc.ticksPerRev.toNat v.toInt ∧ (v = 0 ↔ raw.single = enc.zeroAngleTicks)) ∧
    ∀ (multi : UInt32) (v : Int), Centred enc.ticksPerRev.toNat v →
      ∃! r : UInt32, r.toNat < enc.ticksPerRev.toNat ∧
        ∃ w : Int32, encoderTicks (some enc) ⟨multi, r⟩ false = (.ok w, false) ∧ w.toInt = v := by
  refine ⟨fun raw hraw => ?_, fun multi v hv => ?_⟩
  · obtain ⟨v, hv, hmod, hcentred⟩ :=
      encoderTicks_spec enc raw (by omega) hraw (Nat.le_of_lt hzero) false
    refine ⟨v, hv, hmod, hcentred hlow, ?_, ?_⟩
    · rintro rfl
      have hresidue := displacement_modEq_iff.mp hmod.symm
      rw [show (0 : Int32).toInt = 0 from rfl, readingAt_zero] at hresidue
      exact reading_eq_of_modEq hraw hzero hresidue
    · intro hat
      rw [hat] at hmod
      have hnone : (0 : Int) ≡ displacement enc.orientation enc.zeroAngleTicks.toNat
          enc.zeroAngleTicks.toNat [ZMOD enc.ticksPerRev.toNat] := by
        refine (displacement_modEq_iff.mpr ?_).symm
        rw [readingAt_zero]
      have hint := (hcentred hlow).eq_of_modEq ⟨by omega, by omega⟩ (hmod.trans hnone.symm)
      exact Int32.toInt_inj.mp hint
  · obtain ⟨r, hr, hresidue⟩ := exists_reading (show 0 < enc.ticksPerRev.toNat by omega)
      (readingAt enc.orientation enc.zeroAngleTicks.toNat v)
    obtain ⟨w, hw, hmod, hcentred⟩ := encoderTicks_spec enc ⟨multi, r⟩ (by omega) hr
      (Nat.le_of_lt hzero) false
    have hval := (hcentred hlow).eq_of_modEq hv (hmod.trans (displacement_modEq_iff.mpr hresidue))
    refine ⟨r, ⟨hr, w, hw, hval⟩, ?_⟩
    rintro s ⟨hs, u, hu, huv⟩
    obtain ⟨w', hw', hmod', -⟩ := encoderTicks_spec enc ⟨multi, s⟩ (by omega) hs
      (Nat.le_of_lt hzero) false
    rw [hu] at hw'
    cases hw'
    rw [huv] at hmod'
    exact reading_eq_of_modEq hs hr
      ((displacement_modEq_iff.mp hmod'.symm).trans hresidue.symm)

/-- A reading 10 ticks below the zero position, on a turn of 360. -/
theorem ticks_normalise_degrees :
    ∃ v : Int32, encoderTicks (some ⟨360, 100, .upUp⟩) ⟨0, 90⟩ false = (.ok v, false) ∧
      v.toInt ≡ 90 - 100 [ZMOD 360] ∧ Centred 360 v.toInt ∧ (v = 0 ↔ (90 : UInt32) = 100) :=
  (ticks_normalise ⟨360, 100, .upUp⟩ (by decide) (by decide) (by decide)).1 ⟨0, 90⟩ (by decide)

example : encoderTicks (some ⟨360, 100, .upUp⟩) ⟨0, 90⟩ false = (.ok (-10), false) := rfl

example : encoderTicks (some ⟨360, 100, .upDown⟩) ⟨0, 120⟩ false = (.ok (-20), false) := rfl

end Nuhal.Angle

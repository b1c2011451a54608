import Nuhal.Angle.Ticks

/-!
# The zero position of an encoder (`nuhal_all/src/encoder.c:63-105`)

Given that a reading corresponds to some angle, `encoder_zero_raw` returns the raw count of the
angle zero. The angle enters as `t` ticks, at most half a turn either way.

* `uticks_spec`: a negative displacement becomes the one a turn on.
* `encoderZeroRaw_spec`: what the function returns, `N` itself included.
* `zero_undone`: **zeroing and normalising are inverse**.
* `zero_is_reading_iff`: **the result is a reading, except at `UP_UP` where the displacement is the
  reading itself**; `UP_UP` compares where `UP_DOWN` reduces, and at equality it returns `N`.
-/

namespace Nuhal.Angle

open Nuhal.Lib Nuhal.All

variable {enc : Encoder} {raw : EncoderRaw} {radians : Radians}

/-- Where the zero position is, if `t` ticks from it the encoder reads `r`. -/
def zeroFor (orientation : EncoderOrientation) (r t : Int) : Int :=
  match orientation with
  | .upUp => r - t
  | _ => r + t

/-- What `encoder_zero_raw` is given: a reading, an orientation that there is, and an angle in
range, of at most half a turn in ticks. -/
structure ZeroInput (enc : Encoder) (raw : EncoderRaw) (radians : Radians) : Prop where
  turn : enc.ticksPerRev.toNat ≤ 2 ^ 31 - 1
  reading : raw.single.toNat < enc.ticksPerRev.toNat
  known : enc.orientation ≠ .unknown
  inRange : radians.outOfRange = false
  half : 2 * (radians.ticks enc.ticksPerRev).toInt.natAbs ≤ enc.ticksPerRev.toNat

theorem displacement_zeroFor (orientation : EncoderOrientation) (r t : Int) :
    displacement orientation r (zeroFor orientation r t) = t := by
  cases orientation <;> simp [displacement, zeroFor]

theorem displacement_modEq {orientation : EncoderOrientation} {N r z w : Int}
    (h : z ≡ w [ZMOD N]) :
    displacement orientation r z ≡ displacement orientation r w [ZMOD N] := by
  cases orientation with
  | upUp => exact h.sub_left r
  | upDown => exact h.sub_right r
  | unknown => exact h.sub_right r

/-! ## The function -/

/-- The displacement as a count from 0 up. -/
theorem uticks_spec {t : Int32} (hturn : enc.ticksPerRev.toNat < 2 ^ 31)
    (hpos : 0 < enc.ticksPerRev.toNat) (hhalf : 2 * t.toInt.natAbs ≤ enc.ticksPerRev.toNat) :
    (uticks enc t).toNat < enc.ticksPerRev.toNat ∧
      ((uticks enc t).toNat : Int) ≡ t.toInt [ZMOD enc.ticksPerRev.toNat] := by
  have hunsigned := Machine.toNat_toUInt32 t
  unfold uticks
  by_cases hneg : t < 0
  · have hlt : t.toInt < 0 := Int32.lt_iff_toInt_lt.mp hneg
    have hsum : (t.toUInt32 + enc.ticksPerRev).toNat =
        (t.toUInt32.toNat + enc.ticksPerRev.toNat) % 2 ^ 32 := UInt32.toNat_add _ _
    rw [if_pos hneg]
    exact ⟨by omega, modEq_of_eq_add (by omega)⟩
  · have hge : 0 ≤ t.toInt := Int.not_lt.mp fun h => hneg (Int32.lt_iff_toInt_lt.mpr h)
    rw [if_neg hneg]
    refine ⟨by omega, ?_⟩
    rw [show (t.toUInt32.toNat : Int) = t.toInt by omega]

/-- The count that is returned is up to a turn, congruent to the zero position, and a whole turn
just where `UP_UP` finds the displacement equal to the reading. -/
theorem encoderZeroRaw_spec {σ : Type} (h : ZeroInput enc raw radians) (s : σ) :
    ∃ Z : UInt32, encoderZeroRaw (some enc) raw radians s = (.ok Z, s) ∧
      Z.toNat ≤ enc.ticksPerRev.toNat ∧
      (Z.toNat : Int) ≡ zeroFor enc.orientation raw.single.toNat
        (radians.ticks enc.ticksPerRev).toInt [ZMOD enc.ticksPerRev.toNat] ∧
      (Z.toNat = enc.ticksPerRev.toNat ↔ enc.orientation = .upUp ∧
        (raw.single.toNat : Int) ≡ (radians.ticks enc.ticksPerRev).toInt
          [ZMOD enc.ticksPerRev.toNat]) := by
  have hturn := h.turn
  have hreading := h.reading
  obtain ⟨hlt, hmod⟩ := uticks_spec (by omega) (by omega) h.half
  unfold encoderZeroRaw
  dsimp only
  rw [if_neg (by rw [h.inRange]; exact Bool.false_ne_true)]
  generalize uticks enc (radians.ticks enc.ticksPerRev) = ut at hlt hmod ⊢
  generalize (radians.ticks enc.ticksPerRev).toInt = t at hmod ⊢
  cases horientation : enc.orientation with
  | upUp =>
    have hsame : (raw.single.toNat : Int) ≡ t [ZMOD enc.ticksPerRev.toNat] ↔ raw.single = ut :=
      ⟨fun heq => reading_eq_of_modEq hreading hlt (heq.trans hmod.symm),
        fun heq => heq ▸ hmod⟩
    dsimp only
    by_cases hbelow : ut < raw.single
    · have hless := UInt32.lt_iff_toNat_lt.mp hbelow
      have hdiff : (raw.single - ut).toNat = raw.single.toNat - ut.toNat :=
        UInt32.toNat_sub_of_le _ _ (UInt32.le_of_lt hbelow)
      rw [if_pos hbelow]
      refine ⟨raw.single - ut, rfl, by omega, ?_, ?_⟩
      · rw [hdiff, Nat.cast_sub (Nat.le_of_lt hless)]
        exact hmod.sub_left _
      · rw [hsame]
        refine ⟨fun hfull => by omega, ?_⟩
        rintro ⟨-, heq⟩
        rw [heq] at hless
        exact absurd hless (Nat.lt_irrefl _)
    · have hge : raw.single.toNat ≤ ut.toNat := UInt32.le_iff_toNat_le.mp (UInt32.not_lt.mp hbelow)
      have hsum : (enc.ticksPerRev + raw.single).toNat =
          enc.ticksPerRev.toNat + raw.single.toNat := by
        rw [UInt32.toNat_add]
        exact Nat.mod_eq_of_lt (by omega)
      have hdiff : (enc.ticksPerRev + raw.single - ut).toNat =
          enc.ticksPerRev.toNat + raw.single.toNat - ut.toNat := by
        rw [UInt32.toNat_sub_of_le _ _ (UInt32.le_iff_toNat_le.mpr (by omega)), hsum]
      rw [if_neg hbelow]
      refine ⟨enc.ticksPerRev + raw.single - ut, rfl, by omega, ?_, ?_⟩
      · refine Int.ModEq.trans ?_ (hmod.sub_left _)
        exact modEq_of_eq_add (by omega)
      · rw [hsame, ← UInt32.toNat_inj]
        exact ⟨fun hfull => ⟨rfl, by omega⟩, fun heq => by omega⟩
  | upDown =>
    have hpos : 0 < enc.ticksPerRev.toNat := by omega
    have hsum : ((raw.single + ut) % enc.ticksPerRev).toNat =
        (raw.single.toNat + ut.toNat) % enc.ticksPerRev.toNat := by
      rw [UInt32.toNat_mod, UInt32.toNat_add, Nat.mod_eq_of_lt (show _ < 2 ^ 32 by omega)]
    have hbelow := Nat.mod_lt (raw.single.toNat + ut.toNat) hpos
    refine ⟨(raw.single + ut) % enc.ticksPerRev, rfl, by omega, ?_, fun hfull => by omega, ?_⟩
    · rw [hsum, Int.natCast_mod, Nat.cast_add]
      exact (Int.mod_modEq _ _).trans (hmod.add_left _)
    · rintro ⟨hup, -⟩
      cases hup
  | unknown => exact absurd horientation h.known

/-! ## Zeroing, then normalising -/

/-- Set the zero position from a reading and its angle, and normalise the same reading. -/
def zeroThenTicks (enc : Encoder) (raw : EncoderRaw) (radians : Radians) : Machine Halt Int32 := do
  let zero ← encoderZeroRaw (some enc) raw radians
  encoderTicks (some { enc with zeroAngleTicks := zero }) raw

/-- **Zeroing and normalising are inverse.** The ticks come back modulo a turn, and as they were
where they are normalised; nothing overflows in `encoder_ticks`, even where the zero position is
`N`. -/
theorem zero_undone (h : ZeroInput enc raw radians) :
    ∃ v : Int32, zeroThenTicks enc raw radians false = (.ok v, false) ∧
      v.toInt ≡ (radians.ticks enc.ticksPerRev).toInt [ZMOD enc.ticksPerRev.toNat] ∧
      (Centred enc.ticksPerRev.toNat (radians.ticks enc.ticksPerRev).toInt →
        v = radians.ticks enc.ticksPerRev) := by
  have hturn := h.turn
  obtain ⟨Z, hZ, hle, hmod, -⟩ := encoderZeroRaw_spec h false
  obtain ⟨v, hv, hticks, hcentred⟩ := encoderTicks_spec { enc with zeroAngleTicks := Z } raw
    (by show enc.ticksPerRev.toNat < _; omega) h.reading hle false
  have hback : v.toInt ≡ (radians.ticks enc.ticksPerRev).toInt [ZMOD enc.ticksPerRev.toNat] := by
    refine hticks.trans ((displacement_modEq hmod).trans ?_)
    show displacement enc.orientation _ _ ≡ _ [ZMOD _]
    rw [displacement_zeroFor]
  refine ⟨v, ?_, hback, fun ht => ?_⟩
  · show (encoderZeroRaw (some enc) raw radians >>= _) false = _
    rw [Run.bind_of_ok hZ]
    exact hv
  · have htwo : 2 ≤ enc.ticksPerRev.toNat := by
      have hhalf := h.half
      obtain ⟨hlow, hhigh⟩ := ht
      omega
    exact Int32.toInt_inj.mp ((hcentred htwo).eq_of_modEq ht hback)

/-- The first reading of the tests, at a quarter turn the other way. -/
theorem zero_undone_quarter :
    ∃ v : Int32, zeroThenTicks ⟨360, 0, .upUp⟩ ⟨0, 120⟩ ⟨false, fun _ => -90⟩ false =
        (.ok v, false) ∧
      v.toInt ≡ -90 [ZMOD 360] ∧ (Centred 360 (-90) → v = -90) :=
  have h : ZeroInput ⟨360, 0, .upUp⟩ ⟨0, 120⟩ ⟨false, fun _ => -90⟩ :=
    ⟨by decide, by decide, by decide, rfl, by decide⟩
  zero_undone h

/-! ## Is the zero position a reading? -/

/-- `Z` is a reading, and `t` ticks from it the encoder reads `raw`. -/
def IsZero (enc : Encoder) (raw : EncoderRaw) (t : Int) (Z : UInt32) : Prop :=
  Z.toNat < enc.ticksPerRev.toNat ∧
    (Z.toNat : Int) ≡ zeroFor enc.orientation raw.single.toNat t [ZMOD enc.ticksPerRev.toNat]

/-- `encoder_zero_raw` returns the one reading that is the zero position. -/
def ReturnsZero {σ : Type} (enc : Encoder) (raw : EncoderRaw) (radians : Radians) (s : σ) : Prop :=
  ∃ Z : UInt32, encoderZeroRaw (some enc) raw radians s = (.ok Z, s) ∧
    IsZero enc raw (radians.ticks enc.ticksPerRev).toInt Z ∧
    ∀ Z' : UInt32, IsZero enc raw (radians.ticks enc.ticksPerRev).toInt Z' → Z' = Z

theorem IsZero.unique {t : Int} {Z Z' : UInt32} (h : IsZero enc raw t Z)
    (h' : IsZero enc raw t Z') : Z' = Z :=
  reading_eq_of_modEq h'.1 h.1 (h'.2.trans h.2.symm)

/-- **The zero position is a reading**, unless on `UP_UP` the displacement is the reading itself,
modulo a turn. -/
theorem zero_is_reading_iff {σ : Type} (h : ZeroInput enc raw radians) (s : σ) :
    ReturnsZero enc raw radians s ↔ enc.orientation = .upDown ∨
      ¬ (raw.single.toNat : Int) ≡ (radians.ticks enc.ticksPerRev).toInt
        [ZMOD enc.ticksPerRev.toNat] := by
  obtain ⟨Z, hZ, hle, hmod, hfull⟩ := encoderZeroRaw_spec h s
  constructor
  · rintro ⟨Z', hZ', ⟨hbelow, -⟩, -⟩
    rw [hZ] at hZ'
    cases hZ'
    have hknown := h.known
    cases horientation : enc.orientation with
    | upUp => exact .inr fun hsame => Nat.ne_of_lt hbelow (hfull.mpr ⟨horientation, hsame⟩)
    | upDown => exact .inl rfl
    | unknown => exact absurd horientation hknown
  · intro hwhen
    have hne : Z.toNat ≠ enc.ticksPerRev.toNat := by
      intro heq
      obtain ⟨hup, hsame⟩ := hfull.mp heq
      rcases hwhen with hdown | hother
      · rw [hup] at hdown
        cases hdown
      · exact hother hsame
    have hzero : IsZero enc raw (radians.ticks enc.ticksPerRev).toInt Z :=
      ⟨Nat.lt_of_le_of_ne hle hne, hmod⟩
    exact ⟨Z, hZ, hzero, fun Z' hZ' => hzero.unique hZ'⟩

/-- A reading of 120 at half a turn, as in the tests. -/
theorem zero_is_reading_iff_half :
    ReturnsZero ⟨360, 0, .upUp⟩ ⟨0, 120⟩ ⟨false, fun _ => 180⟩ () ↔
      EncoderOrientation.upUp = .upDown ∨ ¬ (120 : Int) ≡ 180 [ZMOD 360] :=
  have h : ZeroInput ⟨360, 0, .upUp⟩ ⟨0, 120⟩ ⟨false, fun _ => 180⟩ :=
    ⟨by decide, by decide, by decide, rfl, by decide⟩
  zero_is_reading_iff h ()

/-- **At the angle zero with the reading 0 the result is 360**, which is no reading. -/
theorem zero_is_full_turn :
    ZeroInput ⟨360, 0, .upUp⟩ ⟨0, 0⟩ ⟨false, fun _ => 0⟩ ∧
      ¬ ReturnsZero ⟨360, 0, .upUp⟩ ⟨0, 0⟩ ⟨false, fun _ => 0⟩ () := by
  refine ⟨⟨by decide, by decide, by decide, rfl, by decide⟩, ?_⟩
  rintro ⟨Z, hZ, ⟨hbelow, -⟩, -⟩
  cases hZ
  exact absurd hbelow (by decide)

example : encoderZeroRaw (some ⟨360, 0, .upUp⟩) ⟨0, 120⟩ ⟨false, fun _ => 180⟩ () =
    (.ok 300, ()) := rfl

example : encoderZeroRaw (some ⟨360, 0, .upDown⟩) ⟨0, 50⟩ ⟨false, fun _ => 90⟩ () =
    (.ok 140, ()) := rfl

end Nuhal.Angle

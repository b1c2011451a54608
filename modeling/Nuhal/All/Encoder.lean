import Nuhal.All.Bytestream
import Nuhal.Lib.Machine

/-!
# Encoders (`nuhal_all/src/encoder.c`)

* `encoderTicks` (`encoder.c:5-50`) turns a raw count into a signed angle in ticks. Its operations
  are those of `Lib.Machine`, which remember an overflow.
* `encoderZeroRaw` (`encoder.c:63-105`) finds the raw count that corresponds to the angle zero. Its
  `uint32_t` arithmetic wraps on purpose. Of the float it is given it needs what `Radians` holds.
* The records of `encoder.h:60-99` and the functions that put them into a bytestream and take them
  out again (`encoder.c:107-163`). Radians are bit patterns there.

`encoder_radians` (`encoder.c:53-61`), which only computes with floats, is in `Radians`.
-/

namespace Nuhal.All

open Nuhal.Lib Nuhal.Lib.Machine

variable {n : Nat}

/-! ## Angles -/

/-- `enum encoder_orientation`; `unknown` is any value that it does not name. -/
inductive EncoderOrientation where
  | upUp
  | upDown
  | unknown
  deriving Repr, DecidableEq

/-- `struct encoder`. -/
structure Encoder where
  ticksPerRev : UInt32
  zeroAngleTicks : UInt32
  orientation : EncoderOrientation
  deriving Repr, DecidableEq

/-- `struct encoder_raw`. -/
structure EncoderRaw where
  multi : UInt32
  single : UInt32
  deriving Repr, DecidableEq

/-- `angle_full`: the angle over the full interval, from 0 to `ticks_per_rev`. -/
def angleFull (enc : Encoder) (ticks : UInt32) : Machine Halt UInt32 :=
  if ticks > enc.zeroAngleTicks then do
    let zeroed ← subU32 ticks enc.zeroAngleTicks
    if enc.orientation = .upUp then pure zeroed
    else subU32 enc.ticksPerRev zeroed
  else do
    let zeroed ← subU32 enc.zeroAngleTicks ticks
    if enc.orientation = .upUp then subU32 enc.ticksPerRev zeroed
    else pure zeroed

def encoderTicks (enc : Option Encoder) (raw : EncoderRaw) : Machine Halt Int32 :=
  match enc with
  | none => error "NULL ptr"
  | some enc => do
    let angle ← angleFull enc raw.single
    let upper ← toI32 (enc.ticksPerRev / 2)
    if angle < (← toU32 upper) then toI32 angle
    else negI32 (← toI32 (← subU32 enc.ticksPerRev angle))

/-- What `encoder_zero_raw` asks of `radians`: whether it is outside of `(-PI, PI]`, and
`radians * ticks_per_rev / (2 * PI)` truncated, given `ticks_per_rev`. -/
structure Radians where
  outOfRange : Bool
  ticks : UInt32 → Int32

/-- `uticks`. -/
def uticks (enc : Encoder) (ticks : Int32) : UInt32 :=
  if ticks < 0 then ticks.toUInt32 + enc.ticksPerRev else ticks.toUInt32

def encoderZeroRaw {σ : Type} (enc : Option Encoder) (raw : EncoderRaw) (radians : Radians) :
    Run σ Halt UInt32 :=
  match enc with
  | none => error "NULL ptr"
  | some enc =>
    if radians.outOfRange then error "out of range"
    else
      let uticks := uticks enc (radians.ticks enc.ticksPerRev)
      match enc.orientation with
      | .upUp =>
        if uticks < raw.single then pure (raw.single - uticks)
        else pure (enc.ticksPerRev + raw.single - uticks)
      | .upDown => pure ((raw.single + uticks) % enc.ticksPerRev)
      | .unknown => error "unknown orientation"

/-! ## Records -/

/-- `struct encoder_joints`. -/
structure EncoderJoints (F : Type) where
  beforeTicks : Int32
  beforeRadians : F
  afterTicks : Int32
  afterRadians : F
  deriving DecidableEq

/-- `struct encoder_gimbal`. -/
structure EncoderGimbal (F : Type) where
  xTicks : Int32
  yTicks : Int32
  zTicks : Int32
  xRadians : F
  yRadians : F
  zRadians : F
  deriving DecidableEq

def encoderJointsInject (enc : EncoderJoints UInt32) : OnStream n Unit := do
  bytestreamInjectI32 enc.beforeTicks
  bytestreamInjectF enc.beforeRadians
  bytestreamInjectI32 enc.afterTicks
  bytestreamInjectF enc.afterRadians

def encoderJointsExtract : OnStream n (EncoderJoints UInt32) := do
  let beforeTicks ← bytestreamExtractI32
  let beforeRadians ← bytestreamExtractF
  let afterTicks ← bytestreamExtractI32
  let afterRadians ← bytestreamExtractF
  return { beforeTicks, beforeRadians, afterTicks, afterRadians }

def encoderGimbalInject (enc : EncoderGimbal UInt32) : OnStream n Unit := do
  bytestreamInjectI32 enc.xTicks
  bytestreamInjectI32 enc.yTicks
  bytestreamInjectI32 enc.zTicks
  bytestreamInjectF enc.xRadians
  bytestreamInjectF enc.yRadians
  bytestreamInjectF enc.zRadians

def encoderGimbalExtract : OnStream n (EncoderGimbal UInt32) := do
  let xTicks ← bytestreamExtractI32
  let yTicks ← bytestreamExtractI32
  let zTicks ← bytestreamExtractI32
  let xRadians ← bytestreamExtractF
  let yRadians ← bytestreamExtractF
  let zRadians ← bytestreamExtractF
  return { xTicks, yTicks, zTicks, xRadians, yRadians, zRadians }

end Nuhal.All

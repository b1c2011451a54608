import Nuhal.All.Encoder
import Nuhal.All.Utilities

/-!
# Ticks and radians (`nuhal_all/src/encoder.c:53-105`)

The two conversions, over any ordered field with a floor, so that the rounding of the floats is left
out; `pi` is the constant `PI`. The conversion to `int32_t` in `encoder_zero_raw` truncates.
-/

namespace Nuhal.All

open Nuhal.Lib

variable {K : Type} [Field K] [LinearOrder K] [FloorRing K]

def encoderRadians (pi : K) (enc : Option Encoder) (ticks : Int32) : Except Halt K :=
  match enc with
  | some enc => .ok (turn pi * ticks.toInt / enc.ticksPerRev.toNat)
  | none => .error (.error "NULL ptr")

/-- What `encoder_zero_raw` asks of an angle. -/
def radiansOf (pi radians : K) : Radians where
  outOfRange := decide (radians ≤ -pi ∨ radians > pi)
  ticks ticksPerRev := Int32.ofInt (truncate (radians * ticksPerRev.toNat / turn pi))

end Nuhal.All

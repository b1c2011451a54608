import Nuhal.Lib.Remainder

/-!
# Utilities (`nuhal_all/src/utilities.c`)

`normalizeAngle` (`utilities.c:16-27`) over any ordered field with a floor, so that the rounding of
the floats is left out; `pi` is the constant `PI`, and `fmodf` is the truncated remainder.
`utilities_strlen` is in `Strings`.
-/

namespace Nuhal.All

open Nuhal.Lib

variable {K : Type} [Field K] [LinearOrder K] [FloorRing K]

def normalizeAngle (pi rad : K) : K :=
  let a := fmod rad (2 * pi)
  if a > pi then
    a - 2 * pi
  else if a < -pi then
    a + 2 * pi
  else
    a

omit [LinearOrder K] [FloorRing K] in
/-- `2.0f*PI`: a whole turn. -/
def turn (pi : K) : K := 2 * pi

end Nuhal.All

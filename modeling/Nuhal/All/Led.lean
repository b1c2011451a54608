import Nuhal.All.Bytestream

/-!
# LED colours (`nuhal_all/src/led.c`)

`enum led_color` names the eight combinations of three bits (`led.h:12-22`), but the functions are
handed the enumeration's integer and check it themselves, so it is a `UInt32` here and
`LedColor.code` gives the named values.
-/

namespace Nuhal.All

variable {n : Nat}

/-- `enum led_color`. -/
inductive LedColor where
  | black
  | red
  | green
  | blue
  | yellow
  | cyan
  | magenta
  | white
  deriving Repr, DecidableEq

def LedColor.code : LedColor → UInt32
  | .black => 0x0
  | .red => 0x4
  | .green => 0x2
  | .blue => 0x1
  | .yellow => 0x6
  | .cyan => 0x3
  | .magenta => 0x5
  | .white => 0x7

def ledColorInject (color : UInt32) : OnStream n Unit := do
  if color > 0x7 then error "invalid color"
  bytestreamInjectU8 color.toUInt8

def ledColorExtract : OnStream n UInt32 := do
  let color ← bytestreamExtractU8
  if color.toUInt32 > 0x7 then error "invalid color"
  return color.toUInt32

end Nuhal.All

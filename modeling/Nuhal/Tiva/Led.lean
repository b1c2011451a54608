import Nuhal.All.Led
import Nuhal.Tiva.Pin

/-!
# The LED on the Tiva (`nuhal_tiva/src/led_tiva.c`)

Three output pins of port F, one for each bit of a colour. A `uint8_t` puts the bits together again,
and the result is an `enum led_color` of 32 bits.
-/

namespace Nuhal.Tiva

open Nuhal.Lib Nuhal.All

variable {σ : Type}

/-- `PIN(port, number)` (`pin_tiva.h:27`), the port counted from `'A'`. -/
def pin (port number : UInt32) : UInt32 := (port <<< 16) ||| ((number * 4) <<< 8)

/-- `PIN_LED_RED`, `PIN_LED_GREEN` and `PIN_LED_BLUE` (`pin_tiva.h:71-73`). -/
def pinLedRed : UInt32 := pin 5 1

@[inherit_doc pinLedRed]
def pinLedGreen : UInt32 := pin 5 3

@[inherit_doc pinLedRed]
def pinLedBlue : UInt32 := pin 5 2

def ledPinTable : List PinConfiguration :=
  [⟨pinLedRed, .output⟩, ⟨pinLedGreen, .output⟩, ⟨pinLedBlue, .output⟩]

def ledSetup (lib : DriverLib σ) : OnPins σ Unit := pinSetup lib (some ledPinTable)

def ledSet (lib : DriverLib σ) (color : UInt32) : OnPins σ Unit := do
  pinWrite lib pinLedRed (color &&& LedColor.red.code != 0)
  pinWrite lib pinLedBlue (color &&& LedColor.blue.code != 0)
  pinWrite lib pinLedGreen (color &&& LedColor.green.code != 0)

def ledGet (hwreg : UInt32 → σ → UInt32 × σ) : OnPins σ UInt32 := do
  let red ← pinRead hwreg pinLedRed
  let green ← pinRead hwreg pinLedGreen
  let blue ← pinRead hwreg pinLedBlue
  let result : UInt8 := 0
  let result := result ||| (if red then LedColor.red.code else 0).toUInt8
  let result := result ||| (if green then LedColor.green.code else 0).toUInt8
  let result := result ||| (if blue then LedColor.blue.code else 0).toUInt8
  return result.toUInt32

end Nuhal.Tiva

import Nuhal.All.Led

/-!
# The LED on Linux (`nuhal_linux/src/led_host.c`)

There is none: a colour that is set is printed and kept in a variable. `led_setup` does nothing.
-/

namespace Nuhal.Linux

open Nuhal.Lib Nuhal.All

/-- The variable `color`, and what has been printed. -/
structure HostLed where
  color : UInt32
  printed : List String
  deriving Repr, DecidableEq

/-- A program on the LED. -/
abbrev OnLed (α : Type) := Run HostLed Halt α

/-- Before the first call. -/
def ledOff : HostLed := { color := LedColor.black.code, printed := [] }

/-- The text that the `switch` prints for a colour; none for the `default`. -/
def ledText (color : UInt32) : Option String :=
  if color = LedColor.black.code then some "LED: BLACK\n"
  else if color = LedColor.red.code then some "LED: RED\n"
  else if color = LedColor.green.code then some "LED: GREEN\n"
  else if color = LedColor.blue.code then some "LED: BLUE \n"
  else if color = LedColor.yellow.code then some "LED: YELLOW\n"
  else if color = LedColor.cyan.code then some "LED: CYAN\n"
  else if color = LedColor.magenta.code then some "LED: MAGENTA\n"
  else if color = LedColor.white.code then some "LED: WHITE\n"
  else none

def ledSetup : OnLed Unit := pure ()

def ledSet (newColor : UInt32) : OnLed Unit :=
  match ledText newColor with
  | some text => Run.modify fun led => { color := newColor, printed := led.printed ++ [text] }
  | none => error "Unknown color"

def ledGet : OnLed UInt32 := do
  return (← Run.get).color

end Nuhal.Linux

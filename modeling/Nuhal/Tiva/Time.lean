import Nuhal.All.Time

/-!
# The clock on the Tiva (`nuhal_tiva/src/time_tiva.c`)

SysTick counts clock ticks down and reloads. Both clocks turn the ticks since the last reload into
their unit; the numerator is shifted left by 8 bits and the quotient back, as the source has it.

`SysTickPeriodGet`, `SysTickValueGet` and `tiva_clock_hz` are not part of `time_tiva.c`. The first
and the last are constants, set when the board is initialised (`tiva.c:33-66`). A frequency below
`perSecond`, where the code divides by zero, is left out.
-/

namespace Nuhal.Tiva

open Nuhal.All

/-- What `SysTickPeriodGet` and `tiva_clock_hz` return. -/
structure SysTick where
  period : UInt32
  clockHz : UInt32
  deriving Repr, DecidableEq

/-- A clock with `perSecond` units a second, `value` being what `SysTickValueGet` returns. -/
def timeCurrent (perSecond : UInt32) (tick : SysTick) (value : UInt32) : UInt32 :=
  (((tick.period - value) <<< 8) / (tick.clockHz / perSecond)) >>> 8

def timeCurrentMs : SysTick → UInt32 → UInt32 := timeCurrent 1000

def timeCurrentUs : SysTick → UInt32 → UInt32 := timeCurrent 1000000

/-- The rollover period of such a clock. -/
def timePeriod (perSecond : UInt32) (tick : SysTick) : UInt32 :=
  ((tick.period <<< 8) / (tick.clockHz / perSecond)) >>> 8

def timePeriodMs : SysTick → UInt32 := timePeriod 1000

def timePeriodUs : SysTick → UInt32 := timePeriod 1000000

/-- The timer, `value k` being what the `k`-th call of `SysTickValueGet` gives. -/
def tivaTimer (tick : SysTick) (value : Nat → UInt32) : Timer where
  currentMs k := timeCurrentMs tick (value k)
  currentUs k := timeCurrentUs tick (value k)
  periodMs := timePeriodMs tick
  periodUs := timePeriodUs tick

end Nuhal.Tiva

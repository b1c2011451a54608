import Nuhal.All.Time

/-!
# The clock on Linux (`nuhal_linux/src/time_host.c`)

Both clocks take the time of day from `clock_gettime`, count it in their unit as an `unsigned long`
of 64 bits, and reduce that modulo `UINT32_MAX`, which is also the period they report. A
`clock_gettime` that fails ends in `error` and is left out.
-/

namespace Nuhal.Linux

open Nuhal.All

/-- `struct timespec`, its fields as `unsigned long`. -/
structure Timespec where
  tvSec : UInt64
  tvNsec : UInt64
  deriving Repr, DecidableEq

/-- `UINT32_MAX`, which both periods are. -/
def uint32Max : UInt32 := 4294967295

/-- A clock with `perSecond` units a second, each of `nanoseconds`. -/
def timeCurrent (perSecond nanoseconds : UInt64) (tspec : Timespec) : UInt32 :=
  ((tspec.tvSec * perSecond + tspec.tvNsec / nanoseconds) % uint32Max.toUInt64).toUInt32

def timeCurrentMs : Timespec → UInt32 := timeCurrent 1000 1000000

def timeCurrentUs : Timespec → UInt32 := timeCurrent 1000000 1000

/-- The timer, `tspec k` being what the `k`-th call of `clock_gettime` gives. -/
def hostTimer (tspec : Nat → Timespec) : Timer where
  currentMs k := timeCurrentMs (tspec k)
  currentUs k := timeCurrentUs (tspec k)
  periodMs := uint32Max
  periodUs := uint32Max

end Nuhal.Linux

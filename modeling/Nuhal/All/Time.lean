/-!
# Elapsed time (`nuhal_all/src/time.c`)

`time_elapsed` (`time.c:40-62`) adds up the differences between successive clock readings; a
reading below the one before it means the clock has rolled over once, after `period`. All three
fields are `uint32_t`, and so is the arithmetic.

A `Timer` is what the platform offers (`time.h:14-32`), each clock as the values that its readings
are going to give, one after the other. The functions for milliseconds and those for microseconds
differ in which clock and which period they use.
-/

namespace Nuhal.All

/-- `struct time_elapsed`. -/
structure TimeElapsed where
  currTime : UInt32
  prevTime : UInt32
  elapsedTime : UInt32
  deriving Repr, DecidableEq

/-- `time_elapsed_ms_init`, the clock reading `now`. -/
def timeElapsedInit (now : UInt32) : TimeElapsed :=
  { currTime := now, prevTime := 0, elapsedTime := 0 }

/-- `time_elapsed`: the elapsed time it returns, and the stamp it leaves. -/
def timeElapsed (period : UInt32) (stamp : TimeElapsed) (currtime : UInt32) :
    UInt32 × TimeElapsed :=
  let prev := stamp.currTime
  let elapsed :=
    if currtime ≥ prev then stamp.elapsedTime + (currtime - prev)
    else stamp.elapsedTime + ((period - prev) + currtime)
  (elapsed, { currTime := currtime, prevTime := prev, elapsedTime := elapsed })

/-- The timer functions of a platform: what the `k`-th call of `time_current_ms` and of
`time_current_us` gives, and the two periods. -/
structure Timer where
  currentMs : Nat → UInt32
  currentUs : Nat → UInt32
  periodMs : UInt32
  periodUs : UInt32

/-- A stamp that is set up at the first reading of a clock, and `time_elapsed` at each of the `n`
that follow: what the last call returns, and the stamp it leaves. -/
def elapsedAfter (period : UInt32) (current : Nat → UInt32) : Nat → UInt32 × TimeElapsed
  | 0 => (0, timeElapsedInit (current 0))
  | n + 1 => timeElapsed period (elapsedAfter period current n).2 (current (n + 1))

/-- `time_elapsed_ms_init`, and then `n` times `time_elapsed_ms`. -/
def elapsedMs (timer : Timer) : Nat → UInt32 × TimeElapsed :=
  elapsedAfter timer.periodMs timer.currentMs

/-- `time_elapsed_us_init`, and then `n` times `time_elapsed_us`. -/
def elapsedUs (timer : Timer) : Nat → UInt32 × TimeElapsed :=
  elapsedAfter timer.periodUs timer.currentUs

/-- The loop of `time_delay_ms` and of `time_delay_us`, before the `k`-th reading: the reading after
which it ends. It goes round at most `fuel` times. -/
def delayLoop (period : UInt32) (current : Nat → UInt32) (wait : UInt32) :
    Nat → Nat → TimeElapsed → Option Nat
  | 0, _, _ => none
  | fuel + 1, k, stamp =>
    let (elapsed, stamp) := timeElapsed period stamp (current k)
    if elapsed < wait then delayLoop period current wait fuel (k + 1) stamp else some k

def timeDelay (period : UInt32) (current : Nat → UInt32) (wait : UInt32) (fuel : Nat) :
    Option Nat :=
  delayLoop period current wait fuel 1 (timeElapsedInit (current 0))

/-- `time_delay_ms`. -/
def timeDelayMs (timer : Timer) : UInt32 → Nat → Option Nat :=
  timeDelay timer.periodMs timer.currentMs

/-- `time_delay_us`. -/
def timeDelayUs (timer : Timer) : UInt32 → Nat → Option Nat :=
  timeDelay timer.periodUs timer.currentUs

end Nuhal.All

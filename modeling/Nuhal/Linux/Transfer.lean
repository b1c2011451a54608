import Nuhal.All.Platform
import Nuhal.Linux.Kernel

/-!
# Writing to a port on Linux (`nuhal_linux/src/uart_host.c:298-307`)

`uart_open` opens its device with `O_NONBLOCK`, so that a `write` takes what the output buffer has
room for, and fails with `EAGAIN` (which is also `EWOULDBLOCK`) when it has none. A `WriteOutcome`
is what one call of `write` does; `uartWriteNonblock` is what the driver makes of it, and
`WriteOutcome.answer` what the common code is answered.
-/

namespace Nuhal.Linux

open Nuhal.All

/-- `EAGAIN`. -/
def eagain : Errno := .other "Resource temporarily unavailable"

/-- What `write` does: it takes as many of the bytes it is offered as there is `room` for, or there
is none. -/
inductive WriteOutcome where
  | accepted (room : Nat) (positive : 0 < room)
  | wouldBlock
  deriving DecidableEq

/-- `val`, when enough bytes are offered, or `errno`. -/
def WriteOutcome.val : WriteOutcome → Except Errno Nat
  | .accepted room _ => .ok room
  | .wouldBlock => .error eagain

/-- `uart_write_nonblock`: what it returns, or the message of `error_with_errno`. -/
def uartWriteNonblock : Except Errno Nat → Except String Nat
  | .ok val => .ok val
  | .error errno => .error (strerror errno)

def WriteOutcome.answer (outcome : WriteOutcome) : Answer :=
  match uartWriteNonblock outcome.val with
  | .ok count => .bytes count
  | .error msg => .fail msg

end Nuhal.Linux

import Nuhal.All.Error
import Nuhal.All.Time
import Nuhal.Lib.Memory
import Nuhal.Lib.Run

/-!
# The platform as the common code sees it (`uart.h`, `time.h`)

The code of `nuhal_all` reaches the outside through the functions that `nuhal_linux` and
`nuhal_tiva` implement. A `World` holds what those functions are going to do, so that the common
code becomes a function of it:

* `rx p` are the bytes still on their way to the reader of port `p`, in order, and `tx p` the
  bytes its transmitter has accepted. A link delivers in order and unchanged, so what one side's
  `tx` gains is what the other side's `rx` holds.
* `reads` and `writes` are the schedule: one `Answer` for each coming call of `uart_read_nonblock`
  and `uart_write_nonblock`. `bytes k` moves at most `k` bytes, fewer if fewer were asked for or
  are there; `bytes 0` is an empty read or a full FIFO. Every chunking, every arrival time and
  every pattern of back-pressure is such a list. `fail msg` is a driver that raises an error. When
  the list is used up the call is still waiting: `Halt.pending`.
* `clock k` is what the `k`-th reading of `time_current_ms` gives, `period` the rollover period,
  and `wait k` and `available k` how a `uart_wait_for_data` and a `uart_data_available` end that
  start after `k` readings.

The `log` is not part of the program. It records, in order, what the properties talk about: the
cells of the caller's buffer that are written or read, the lengths that are asked for, deadlines
that were found expired and drivers that failed.
-/

namespace Nuhal.All

open Nuhal.Lib

/-- What a driver does when it is called. -/
inductive Answer where
  | bytes (count : Nat)
  | fail (msg : String)
  deriving Repr, DecidableEq

/-- What the log records. -/
inductive Event where
  /-- `count` bytes were written into the buffer from index `first` on. -/
  | store (first count : Nat)
  /-- The byte at index `i` of the buffer was read. -/
  | load (i : Nat)
  /-- `uart_read_block_error` was asked for `len` bytes. -/
  | ask (len : Nat)
  /-- `data[read - 1]` was compared with a terminator. -/
  | terminator (read : Nat)
  /-- A deadline was found to have passed. -/
  | expired
  /-- A driver raised an error. -/
  | failed
  deriving Repr, DecidableEq

/-- The platform under the common code. -/
structure World where
  rx : Nat → List UInt8
  tx : Nat → List UInt8
  reads : List Answer
  writes : List Answer
  clock : Nat → UInt32
  ticks : Nat
  period : UInt32
  wait : Nat → Except String Bool
  available : Nat → Except String Bool
  log : List Event

/-- A program over the platform. -/
abbrev OnPlatform (α : Type) := Run World Halt α

variable {n : Nat}

def World.logged (w : World) (e : Event) : World := { w with log := w.log ++ [e] }

/-- Write `e` into the log. -/
def record (e : Event) : OnPlatform Unit := Run.modify fun w => w.logged e

/-- The byte at index `i` of a buffer. -/
def loadByte (mem : Vector UInt8 n) (i : Nat) : OnPlatform UInt8 := fun w =>
  match mem[i]? with
  | some b => (.ok b, w.logged (.load i))
  | none => (.error .undefined, w.logged (.load i))

/-- `time_current_ms()`. -/
def timeCurrentMs : OnPlatform UInt32 := fun w =>
  (.ok (w.clock w.ticks), { w with ticks := w.ticks + 1 })

/-- `time_elapsed_ms_init()`. -/
def timeElapsedMsInit : OnPlatform TimeElapsed := do
  let now ← timeCurrentMs
  return timeElapsedInit now

/-- `time_elapsed_ms(&stamp)`: the elapsed time, and the stamp it leaves. -/
def timeElapsedMs (stamp : TimeElapsed) : OnPlatform (UInt32 × TimeElapsed) := fun w =>
  (.ok (timeElapsed w.period stamp (w.clock w.ticks)), { w with ticks := w.ticks + 1 })

/-- `uart_wait_for_data`. -/
def uartWaitForData : OnPlatform Bool := fun w =>
  match w.wait w.ticks with
  | .ok ready => (.ok ready, w)
  | .error msg => (.error (.error msg), w.logged .failed)

/-- `uart_data_available`. -/
def uartDataAvailable : OnPlatform Bool := fun w =>
  match w.available w.ticks with
  | .ok ready => (.ok ready, w)
  | .error msg => (.error (.error msg), w.logged .failed)

/-- The bytes a read that asks for `len` gets when the driver moves at most `count`. -/
def World.incoming (w : World) (port count len : Nat) : List UInt8 :=
  (w.rx port).take (min count len)

/-- The world after `k` bytes of `port` were stored at `off`. -/
def World.received (w : World) (port off k : Nat) (reads : List Answer) : World :=
  { w with
    rx := Function.update w.rx port ((w.rx port).drop k)
    reads := reads
    log := w.log ++ [.store off k] }

/-- `uart_read_nonblock(port, mem + off, len)`: how many bytes came, and the buffer after it. -/
def uartReadNonblock (port : Nat) (mem : Vector UInt8 n) (off len : Nat) :
    OnPlatform (Nat × Vector UInt8 n) := fun w =>
  match w.reads with
  | [] => (.error .pending, w)
  | .fail msg :: rest => (.error (.error msg), { w with reads := rest, log := w.log ++ [.failed] })
  | .bytes count :: rest =>
    let got := w.incoming port count len
    match store mem off got with
    | some mem' => (.ok (got.length, mem'), w.received port off got.length rest)
    | none => (.error .undefined, w.received port off got.length rest)

/-- `uart_write_nonblock(port, data, len)`: how many of the bytes were accepted. -/
def uartWriteNonblock (port : Nat) (data : List UInt8) : OnPlatform Nat := fun w =>
  match w.writes with
  | [] => (.error .pending, w)
  | .fail msg :: rest => (.error (.error msg), { w with writes := rest, log := w.log ++ [.failed] })
  | .bytes count :: rest =>
    let sent := data.take count
    (.ok sent.length,
      { w with tx := Function.update w.tx port (w.tx port ++ sent), writes := rest })

end Nuhal.All

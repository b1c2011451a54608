import Nuhal.All.Driver
import Nuhal.Linux.Time
import Nuhal.Linux.Transfer

/-!
# Reading and waiting on Linux (`nuhal_linux/src/uart_host.c:281-307, 432-475`, `time_host.c`)

The rest of what a platform implements for a port, and `hostDriver`, which is all of it.

* `PortCalls` are the system calls on the descriptor of the port, over any type `σ` of states of the
  system. A state may hold bytes yet to arrive, room in the output buffer, signals and the time.
  A transfer on Linux is of less than `2 ^ 31` bytes, so that `int val` is what `read` and `write`
  return.
* A pointer past the end of its block has no meaning, also if nothing is stored there, as in
  `All/Platform`.
* `uart_wait_for_data` starts again after every signal; `passes` bounds the number of attempts. The
  error after its loop is never reached: the loop goes on as long as `poll` is interrupted, and
  every other end of `poll` returns or is an error of its own.
* A `clock_gettime` that fails is left out, as in `Linux/Time`.

`Traffic` is the system and what went over the port; only the system is part of the program.
-/

namespace Nuhal.Linux

open Nuhal.Lib Nuhal.All

variable {n : Nat} {σ : Type}

/-- `EINTR`. -/
def eintr : Errno := .other "Interrupted system call"

/-- `POLLIN`. -/
abbrev pollin : UInt16 := 1

/-- `INT_MAX`. -/
abbrev intMax : UInt32 := 2147483647

/-- The system calls on the descriptor of a port. -/
structure PortCalls (σ : Type) where
  /-- `read(fd, _, length)`: the bytes that it hands over. -/
  read : Nat → σ → Except Errno (List UInt8) × σ
  write : List UInt8 → σ → Except Errno Nat × σ
  /-- `poll`, for `POLLIN`: what it returns, and `revents`. -/
  poll : Int32 → σ → Except Errno (Nat × UInt16) × σ
  clockGettime : σ → Timespec × σ

/-- The system, and the bytes that `read` handed over and that `write` took. -/
structure Traffic (σ : Type) where
  system : σ
  got : List UInt8
  put : List UInt8

/-- A program that uses the port. -/
abbrev OnTraffic (σ α : Type) := Run (Traffic σ) Halt α

def sysRead (calls : PortCalls σ) (length : Nat) : OnTraffic σ (Except Errno (List UInt8)) :=
  fun t =>
  match calls.read length t.system with
  | (.ok bytes, s) => (.ok (.ok bytes), { t with system := s, got := t.got ++ bytes })
  | (.error errno, s) => (.ok (.error errno), { t with system := s })

def sysWrite (calls : PortCalls σ) (data : List UInt8) : OnTraffic σ (Except Errno Nat) := fun t =>
  match calls.write data t.system with
  | (.ok val, s) => (.ok (.ok val), { t with system := s, put := t.put ++ data.take val })
  | (.error errno, s) => (.ok (.error errno), { t with system := s })

def sysPoll (calls : PortCalls σ) (timeout : Int32) :
    OnTraffic σ (Except Errno (Nat × UInt16)) := fun t =>
  let (res, s) := calls.poll timeout t.system
  (.ok res, { t with system := s })

/-- What `read` stores at `mem + off`. -/
def storeRead (mem : Vector UInt8 n) (off : Nat) (bytes : List UInt8) :
    OnTraffic σ (Nat × Vector UInt8 n) := fun t =>
  match store mem off bytes with
  | some mem' => (.ok (bytes.length, mem'), t)
  | none => (.error .undefined, t)

/-- `uart_read_nonblock(port, mem + off, length)`: how many bytes came, and the buffer after it. -/
def uartReadNonblock (calls : PortCalls σ) (mem : Vector UInt8 n) (off length : Nat) :
    OnTraffic σ (Nat × Vector UInt8 n) :=
  if off ≤ n then do
    match ← sysRead calls length with
    | .ok bytes => storeRead mem off bytes
    | .error errno =>
      if errno = eagain then return (0, mem)
      error (strerror errno)
  else Run.stop .undefined

/-- `uart_write_nonblock(port, data, length)`: how many bytes were taken. -/
def portWriteNonblock (calls : PortCalls σ) (data : List UInt8) : OnTraffic σ Nat := do
  let val ← sysWrite calls data
  match uartWriteNonblock val with
  | .ok count => return count
  | .error msg => error msg

/-- `timeout == 0 ? -1 : (int)timeout`. -/
def pollTimeout (timeout : UInt32) : Int32 := if timeout = 0 then -1 else timeout.toInt32

/-- One pass of `while(poll_error == EINTR)`. -/
def pollPass (calls : PortCalls σ) (timeout : UInt32) : OnTraffic σ (Unit ⊕ Bool) := do
  match ← sysPoll calls (pollTimeout timeout) with
  | .ok (res, _) => return .inr (res > 0)
  | .error errno =>
    if errno ≠ eintr then error (strerror errno)
    return .inl ()

def uartWaitForData (calls : PortCalls σ) (timeout : UInt32) (passes : Nat) : OnTraffic σ Bool := do
  if timeout > intMax then error "invalid param"
  Run.iterate .pending (fun _ => pollPass calls timeout) passes ()

def uartDataAvailable (calls : PortCalls σ) : OnTraffic σ Bool := do
  match ← sysPoll calls 0 with
  | .ok (_, revents) => return revents &&& pollin ≠ 0
  | .error errno => error (strerror errno)

/-- `time_current_ms`. -/
def currentMs (calls : PortCalls σ) : OnTraffic σ UInt32 := fun t =>
  let (tspec, s) := calls.clockGettime t.system
  (.ok (timeCurrentMs tspec), { t with system := s })

/-- What Linux implements for a port. -/
def hostDriver (calls : PortCalls σ) (passes : Nat) : Driver (Traffic σ) where
  timeCurrentMs := currentMs calls
  timePeriodMs := pure uint32Max
  uartWaitForData timeout := uartWaitForData calls timeout passes
  uartReadNonblock := uartReadNonblock calls
  uartWriteNonblock := portWriteNonblock calls
  record _ := pure ()

end Nuhal.Linux

import Nuhal.All.Uart

/-!
# The common code on a platform's driver (`nuhal_all/src/uart.c:8-101`)

`All/Uart` runs the blocking functions on a `World`, which has written down all that a platform is
going to do. Here they run on a `Driver`: the functions that a platform implements for one of its
ports (`uart.h`, `time.h`), over the platform's own states `σ`. A loop makes at most `passes`
passes; a run that has made them all is still waiting, `Halt.pending`.

* `worldDriver` is the driver of a `World`, on which the functions are those of `All/Uart`
  (`Drivers/World`).
* A `Client` is a program that talks to its port through the blocking functions: what it does next
  may depend on all that it was answered before.
* `record` is not part of the program; it is what `All/Platform` calls the log.
-/

namespace Nuhal.All

open Nuhal.Lib

variable {n : Nat} {σ α : Type}

/-- What a platform implements for a port. -/
structure Driver (σ : Type) where
  timeCurrentMs : Run σ Halt UInt32
  timePeriodMs : Run σ Halt UInt32
  uartWaitForData : UInt32 → Run σ Halt Bool
  /-- `uart_read_nonblock(port, mem + off, len)`: how many bytes came, and the buffer after it. -/
  uartReadNonblock : {n : Nat} → Vector UInt8 n → Nat → Nat → Run σ Halt (Nat × Vector UInt8 n)
  uartWriteNonblock : List UInt8 → Run σ Halt Nat
  record : Event → Run σ Halt Unit

namespace Driver

variable (d : Driver σ)

def timeElapsedMsInit : Run σ Halt TimeElapsed := do
  let now ← d.timeCurrentMs
  return timeElapsedInit now

def timeElapsedMs (stamp : TimeElapsed) : Run σ Halt (UInt32 × TimeElapsed) := do
  let currtime ← d.timeCurrentMs
  let period ← d.timePeriodMs
  return timeElapsed period stamp currtime

/-- `timeout == 0 || time_elapsed_ms(&stamp) < timeout`, and the stamp it leaves. -/
def deadlineOpen (timeout : UInt32) (stamp : TimeElapsed) : Run σ Halt (Bool × TimeElapsed) :=
  if timeout = 0 then pure (true, stamp)
  else do
    let (elapsed, stamp) ← d.timeElapsedMs stamp
    if elapsed < timeout then return (true, stamp)
    d.record .expired
    return (false, stamp)

/-- `data[read - 1]`, for `data` at `mem + off`. -/
def lastRead (mem : Vector UInt8 n) (off read : Nat) : Run σ Halt UInt8 := do
  d.record (.terminator read)
  match (if off + read = 0 then none else mem[off + read - 1]?) with
  | some b => return b
  | none => Run.stop .undefined

/-- The `switch` of the read loop: whether a terminator ends the read. -/
def terminated (term : UartTerm) (mem : Vector UInt8 n) (off read : Nat) : Run σ Halt Bool :=
  match term with
  | .none => return false
  | .cr => do return (← d.lastRead mem off read) == 0x0D
  | .lf => do return (← d.lastRead mem off read) == 0x0A
  | .null => do return (← d.lastRead mem off read) == 0x00
  | .crOrLf => do
    let b ← d.lastRead mem off read
    return b == 0x0D || b == 0x0A

/-- What follows the clock in a pass of the read loop. -/
def readOn (off len : Nat) (term : UartTerm) (timeoutError : Bool) (st : Reading n)
    (isOpen : Bool) (stamp : TimeElapsed) :
    Run σ Halt (Reading n ⊕ (Nat × Vector UInt8 n)) := do
  if isOpen then
    let (k, mem) ← d.uartReadNonblock st.mem (off + st.read) (len - st.read)
    let read := st.read + k
    if read = len then return .inr (read, mem)
    if ← d.terminated term mem off read then return .inr (read, mem)
    return .inl { stamp, mem, read }
  else
    if timeoutError then error "Timeout on blocking read."
    return .inr (st.read, st.mem)

/-- One pass of the read loop. -/
def readPass (off len : Nat) (timeout : UInt32) (term : UartTerm) (timeoutError : Bool)
    (st : Reading n) : Run σ Halt (Reading n ⊕ (Nat × Vector UInt8 n)) := do
  let (isOpen, stamp) ← d.deadlineOpen timeout st.stamp
  d.readOn off len term timeoutError st isOpen stamp

/-- What comes before the read loop: the stamp, and `(void)uart_wait_for_data(port, timeout)`. -/
def startReading (timeout : UInt32) : Run σ Halt TimeElapsed := do
  let stamp ← d.timeElapsedMsInit
  let _ ← d.uartWaitForData timeout
  return stamp

/-- `uart_read_block_error`: the number of bytes read, and the buffer after it. -/
def uartReadBlockError (passes : Nat) (mem : Vector UInt8 n) (off len : Nat) (timeout : UInt32)
    (term : UartTerm) (timeoutError : Bool) : Run σ Halt (Nat × Vector UInt8 n) := do
  d.record (.ask len)
  if len = 0 then return (0, mem)
  let stamp ← d.startReading timeout
  Run.iterate .pending (d.readPass off len timeout term timeoutError) passes
    { stamp, mem, read := 0 }

/-- One pass of the write loop. -/
def writePass (data : List UInt8) (timeout : UInt32) (st : Writing) :
    Run σ Halt (Writing ⊕ Nat) := do
  let (isOpen, stamp) ← d.deadlineOpen timeout st.stamp
  if isOpen then
    let k ← d.uartWriteNonblock (data.drop st.written)
    let written := st.written + k
    if written = data.length then return .inr written
    return .inl { stamp, written }
  else error "Timeout on blocking write."

/-- `uart_write_block`: the number of bytes written. -/
def uartWriteBlock (passes : Nat) (data : List UInt8) (timeout : UInt32) : Run σ Halt Nat := do
  let stamp ← d.timeElapsedMsInit
  Run.iterate .pending (d.writePass data timeout) passes { stamp, written := 0 }

end Driver

/-- The driver of port `port` of a `World`. -/
def worldDriver (port : Nat) : Driver World where
  timeCurrentMs := timeCurrentMs
  timePeriodMs := fun w => (.ok w.period, w)
  uartWaitForData _ := uartWaitForData
  uartReadNonblock := uartReadNonblock port
  uartWriteNonblock := uartWriteNonblock port
  record := record

/-! ## Programs on a port -/

/-- A program that uses a port through the blocking functions. -/
inductive Client (α : Type) where
  | done (a : α)
  | stop (e : Halt)
  | record (e : Event) (next : Client α)
  | write (data : List UInt8) (timeout : UInt32) (next : Nat → Client α)
  | read {n : Nat} (mem : Vector UInt8 n) (off len : Nat) (timeout : UInt32) (term : UartTerm)
    (timeoutError : Bool) (next : Nat × Vector UInt8 n → Client α)

namespace Client

variable {β : Type}

/-- Sequencing. -/
protected def bind : Client α → (α → Client β) → Client β
  | .done a, f => f a
  | .stop e, _ => .stop e
  | .record e next, f => .record e (next.bind f)
  | .write data timeout next, f => .write data timeout fun written => (next written).bind f
  | .read mem off len timeout term timeoutError next, f =>
    .read mem off len timeout term timeoutError fun got => (next got).bind f

instance : Monad Client where
  pure := .done
  bind := Client.bind

/-- The program on a driver. -/
def onDriver (d : Driver σ) (passes : Nat) : Client α → Run σ Halt α
  | .done a => pure a
  | .stop e => Run.stop e
  | .record e next => do
    d.record e
    next.onDriver d passes
  | .write data timeout next => do
    let written ← d.uartWriteBlock passes data timeout
    (next written).onDriver d passes
  | .read mem off len timeout term timeoutError next => do
    let got ← d.uartReadBlockError passes mem off len timeout term timeoutError
    (next got).onDriver d passes

/-- The program on port `port` of a `World`. -/
def onPlatform (port : Nat) : Client α → OnPlatform α
  | .done a => pure a
  | .stop e => Run.stop e
  | .record e next => do
    All.record e
    next.onPlatform port
  | .write data timeout next => do
    let written ← uartWriteBlock port data timeout
    (next written).onPlatform port
  | .read mem off len timeout term timeoutError next => do
    let got ← uartReadBlockError port mem off len timeout term timeoutError
    (next got).onPlatform port

end Client

end Nuhal.All

import Nuhal.All.Bytestream
import Nuhal.All.Platform

/-!
# Blocking reads and writes (`nuhal_all/src/uart.c`)

`uartReadBlockError` (`uart.c:8-75`) and `uartWriteBlock` (`uart.c:83-101`) poll a driver until
they have moved all the bytes or a deadline has passed. Both loops are `Run.iterate` over one
pass of the source's loop; each pass that goes on has used up an answer of the schedule, so the
length of the schedule is fuel enough.

A buffer is a block and an offset into it (`data` is `mem + off`). The loop condition
`timeout == 0 || time_elapsed_ms(&stamp) < timeout` reads the clock only when there is a timeout.
Comparing `data[read - 1]` with a terminator while `read` is 0 reads the byte before the buffer:
another byte of the block if there is one, `Halt.undefined` if the buffer starts the block.

`uartPrintf` (`uart.c:103-138`) gets what the two calls of `vsnprintf` give as a parameter.
`uartScanf` (`uart.c:140-155`) hands a line to a `vsscanf`, which is one; its buffer is on the stack
behind some byte, which is another, because the code may look at it.
-/

namespace Nuhal.All

open Nuhal.Lib

variable {n : Nat}

/-- `enum uart_term`. -/
inductive UartTerm where
  | none
  | lf
  | cr
  | crOrLf
  | null
  deriving Repr, DecidableEq

/-- `timeout == 0 || time_elapsed_ms(&stamp) < timeout`, and the stamp it leaves. -/
def deadlineOpen (timeout : UInt32) (stamp : TimeElapsed) : OnPlatform (Bool × TimeElapsed) :=
  if timeout = 0 then pure (true, stamp)
  else do
    let (elapsed, stamp) ← timeElapsedMs stamp
    if elapsed < timeout then return (true, stamp)
    record .expired
    return (false, stamp)

/-- `data[read - 1]`, for `data` at `mem + off`. -/
def lastRead (mem : Vector UInt8 n) (off read : Nat) : OnPlatform UInt8 := fun w =>
  match (if off + read = 0 then none else mem[off + read - 1]?) with
  | some b => (.ok b, w.logged (.terminator read))
  | none => (.error .undefined, w.logged (.terminator read))

/-- The `switch` of the read loop: whether a terminator ends the read. -/
def terminated (term : UartTerm) (mem : Vector UInt8 n) (off read : Nat) : OnPlatform Bool :=
  match term with
  | .none => return false
  | .cr => do return (← lastRead mem off read) == 0x0D
  | .lf => do return (← lastRead mem off read) == 0x0A
  | .null => do return (← lastRead mem off read) == 0x00
  | .crOrLf => do
    let b ← lastRead mem off read
    return b == 0x0D || b == 0x0A

/-- The variables of the read loop. -/
structure Reading (n : Nat) where
  stamp : TimeElapsed
  mem : Vector UInt8 n
  read : Nat

/-- One pass of the read loop. The pass that finds the deadline expired does what follows the
loop in the source. -/
def readPass (port off len : Nat) (timeout : UInt32) (term : UartTerm) (timeoutError : Bool)
    (st : Reading n) : OnPlatform (Reading n ⊕ (Nat × Vector UInt8 n)) := do
  let (isOpen, stamp) ← deadlineOpen timeout st.stamp
  if isOpen then
    let (k, mem) ← uartReadNonblock port st.mem (off + st.read) (len - st.read)
    let read := st.read + k
    if read = len then return .inr (read, mem)
    if ← terminated term mem off read then return .inr (read, mem)
    return .inl { stamp, mem, read }
  else
    if timeoutError then error "Timeout on blocking read."
    return .inr (st.read, st.mem)

/-- `uart_read_block_error`: the number of bytes read, and the buffer after it. -/
def uartReadBlockError (port : Nat) (mem : Vector UInt8 n) (off len : Nat) (timeout : UInt32)
    (term : UartTerm) (timeoutError : Bool) : OnPlatform (Nat × Vector UInt8 n) := do
  record (.ask len)
  if len = 0 then return (0, mem)
  let stamp ← timeElapsedMsInit
  let _ ← uartWaitForData
  fun w => Run.iterate .pending (readPass port off len timeout term timeoutError)
    (w.reads.length + 1) { stamp, mem, read := 0 } w

def uartReadBlock (port : Nat) (mem : Vector UInt8 n) (off len : Nat) (timeout : UInt32)
    (term : UartTerm) : OnPlatform (Nat × Vector UInt8 n) :=
  uartReadBlockError port mem off len timeout term false

/-- The variables of the write loop. -/
structure Writing where
  stamp : TimeElapsed
  written : Nat

/-- One pass of the write loop. -/
def writePass (port : Nat) (data : List UInt8) (timeout : UInt32) (st : Writing) :
    OnPlatform (Writing ⊕ Nat) := do
  let (isOpen, stamp) ← deadlineOpen timeout st.stamp
  if isOpen then
    let k ← uartWriteNonblock port (data.drop st.written)
    let written := st.written + k
    if written = data.length then return .inr written
    return .inl { stamp, written }
  else error "Timeout on blocking write."

/-- `uart_write_block`: the number of bytes written. -/
def uartWriteBlock (port : Nat) (data : List UInt8) (timeout : UInt32) : OnPlatform Nat := do
  let stamp ← timeElapsedMsInit
  fun w => Run.iterate .pending (writePass port data timeout) (w.writes.length + 1)
    { stamp, written := 0 } w

/-! ## Formatted text -/

/-- What the two calls of `vsnprintf` in `uart_printf` give: the first one the length, and the
second one the buffer. -/
structure Formatting where
  len : Int
  buffer : Vector UInt8 1024
  deriving Repr, DecidableEq

/-- `(size_t)len < ARRAY_LEN(buffer)`. -/
def printfFits (len : Int) : Bool := len.toNat < 1024

/-- `real_len`. -/
def realLen (len : Int) : Nat := if printfFits len then len.toNat else 1024

/-- The deadline of the write of the text. -/
def printfTimeout (len : Int) : UInt32 := UInt32.ofNat (realLen len / 2)

/-- What is written after a text that does not fit. -/
def truncationWarning : List UInt8 :=
  "...\r\nWarning: uart.c: uart_printf(): printf was truncated.\r\n".toList.map
    fun c => c.toNat.toUInt8

/-- The array `warning`, which ends in a NUL. -/
def warningArray : List UInt8 := truncationWarning ++ [0]

def uartPrintf (port : Nat) (formatting : Formatting) : OnPlatform Nat := do
  if formatting.len < 0 then error "printf encoding error"
  else
    let result ← uartWriteBlock port (formatting.buffer.toList.take (realLen formatting.len))
      (printfTimeout formatting.len)
    if !printfFits formatting.len then
      let _ ← uartWriteBlock port warningArray (UInt32.ofNat (warningArray.length / 2))
      return result
    else return result

/-- `buffer` of `uart_scanf`, set to zeros, behind the byte `front`. -/
def scanfBuffer (front : UInt8) : Vector UInt8 1025 :=
  #v[front] ++ Vector.replicate 1024 (0 : UInt8)

/-- `uart_scanf` up to its call of `vsscanf`: what `uart_read_block` returned, and the buffer. -/
def uartScanfLine (front : UInt8) (port : Nat) : OnPlatform (Nat × Vector UInt8 1024) := do
  let (len, mem) ← uartReadBlock port (scanfBuffer front) 1 1024 0 .crOrLf
  let last ← lastRead mem 1 len
  if last ≠ 0x0D ∧ last ≠ 0x0A then
    error "uart_scanf input too long"
  return (len, mem.drop 1)

/-- `uart_scanf`, `vsscanf` being given the buffer. -/
def uartScanf (vsscanf : Vector UInt8 1024 → OnPlatform Int) (front : UInt8) (port : Nat) :
    OnPlatform Int := do
  let (_, buffer) ← uartScanfLine front port
  vsscanf buffer

end Nuhal.All

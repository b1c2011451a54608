import Nuhal.All.Driver
import Nuhal.Tiva.Uart

/-!
# Reading and waiting on the Tiva (`nuhal_tiva/src/uart_tiva.c:181-229, 273-297`)

The rest of what a platform implements for a port, and `tivaDriver`, which is all of it.

* `UartWare` adds to `TivaWare` the function that says whether the receive FIFO holds a character.
* `uart_read_nonblock` asks for a character before it looks whether it still has room for one, as
  the `&&` of its loop is written. What `UARTRxErrorGet` returns is tested as a whole.
* A pointer past the end of its block has no meaning, also if nothing is stored there, as in
  `All/Platform`.
* `uart_wait_for_data` polls; `passes` bounds the number of polls.
-/

namespace Nuhal.Tiva

open Nuhal.Lib Nuhal.All

variable {n : Nat} {σ : Type}

/-- The functions of TivaWare that reading needs as well. -/
structure UartWare (σ : Type) extends TivaWare σ where
  uartCharsAvail : UInt32 → σ → Bool × σ

def charsAvail (lib : UartWare σ) (base : UInt32) : OnBoard σ Bool := fun b =>
  let (available, s) := lib.uartCharsAvail base b.hardware
  (.ok available, { b with hardware := s })

/-- `UARTRxErrorGet(base)`. -/
def rxErrors (lib : TivaWare σ) (base : UInt32) : OnBoard σ UInt32 := fun b =>
  let (errors, s) := lib.uartRxErrorGet base b.hardware
  (.ok errors, { b with hardware := s })

/-- `((uint8_t*)data)[index] = nextbyte;` for `data` at `mem + off`. -/
def storeChar (mem : Vector UInt8 n) (off index : Nat) (nextbyte : Int32) :
    OnBoard σ (Vector UInt8 n) := fun b =>
  match store mem (off + index) [rxchar nextbyte] with
  | some mem' => (.ok mem', b)
  | none => (.error .undefined, b)

/-- The body of the loop of `uart_read_nonblock`: the buffer with one character more, if there was
one. -/
def getChar (lib : UartWare σ) (base : UInt32) (off index : Nat) (mem : Vector UInt8 n) :
    OnBoard σ (Option (Vector UInt8 n)) := do
  let nextbyte ← charGet lib.toTivaWare base
  let errors ← rxErrors lib.toTivaWare base
  if errors ≠ 0 then
    rxErrorClear lib.toTivaWare base
    error "Uart read error"
  else if nextbyte = -1 then return none
  else
    let mem ← storeChar mem off index nextbyte
    return some mem

/-- The loop of `uart_read_nonblock`, with room for `left` more characters. -/
def getChars (lib : UartWare σ) (base : UInt32) (off : Nat) :
    Nat → Nat → Vector UInt8 n → OnBoard σ (Nat × Vector UInt8 n)
  | 0, index, mem => do
    let _ ← charsAvail lib base
    return (index, mem)
  | left + 1, index, mem => do
    if ← charsAvail lib base then
      match ← getChar lib base off index mem with
      | some mem => getChars lib base off left (index + 1) mem
      | none => return (index, mem)
    else return (index, mem)

/-- `uart_read_nonblock(port, mem + off, len)`: how many bytes came, and the buffer after it. -/
def uartReadNonblock (lib : UartWare σ) (port : Option UartPort) (mem : Vector UInt8 n)
    (off len : Nat) : OnBoard σ (Nat × Vector UInt8 n) :=
  match port with
  | none => error "Null pointer"
  | some port => if off ≤ n then getChars lib port.base off len 0 mem else Run.stop .undefined

/-- One pass of the loop of `uart_wait_for_data`. -/
def waitPass (lib : UartWare σ) (base timeout : UInt32) (stamp : TimeElapsed) :
    OnBoard σ (TimeElapsed ⊕ Bool) := do
  if ← charsAvail lib base then return .inr true
  let now ← currentMs lib.toTivaWare
  let (elapsed, stamp) := timeElapsed lib.period stamp now
  if elapsed > timeout && timeout != 0 then return .inr false
  return .inl stamp

def uartWaitForData (lib : UartWare σ) (port : Option UartPort) (timeout : UInt32) (passes : Nat) :
    OnBoard σ Bool :=
  match port with
  | none => error "NULL ptr"
  | some port => do
    let now ← currentMs lib.toTivaWare
    Run.iterate .pending (waitPass lib port.base timeout) passes (timeElapsedInit now)

def uartDataAvailable (lib : UartWare σ) (port : Option UartPort) : OnBoard σ Bool :=
  match port with
  | none => error "NULL ptr"
  | some port => charsAvail lib port.base

/-- What the Tiva implements for a port. -/
def tivaDriver (lib : UartWare σ) (port : Option UartPort) (passes : Nat) :
    Driver (Board σ) where
  timeCurrentMs := currentMs lib.toTivaWare
  timePeriodMs := pure lib.period
  uartWaitForData timeout := uartWaitForData lib port timeout passes
  uartReadNonblock := uartReadNonblock lib port
  uartWriteNonblock := uartWriteNonblock lib.toTivaWare port
  record _ := pure ()

end Nuhal.Tiva

import Nuhal.All.Bytestream
import Nuhal.All.Time

/-!
# Serial ports on the Tiva (`nuhal_tiva/src/uart_tiva.c`)

The ports are driven through TivaWare, which is not part of the repository: `TivaWare σ` holds the
functions of it that the code calls, over any type `σ` of hardware states. A hardware state may
hold bytes yet to arrive, the fill of the FIFOs and the time, so these functions are every schedule
and every pattern of back-pressure.

* A port is a pointer into a table, `none` being `NULL`. Only its base address is used here.
* The loops run until something happens outside. `passes` bounds the number of passes; a run that
  has made them all is still waiting, `Halt.pending`.

The `log` is not part of the program. It records the characters that were taken from a receive
FIFO, those that were offered to a transmit FIFO and whether they were accepted, and the break.

Opening a port, and reading from it, is left out.
-/

namespace Nuhal.Tiva

open Nuhal.Lib Nuhal.All

/-- The functions of TivaWare, and the clock. -/
structure TivaWare (σ : Type) where
  uartCharGetNonBlocking : UInt32 → σ → Int32 × σ
  uartCharPutNonBlocking : UInt32 → UInt8 → σ → Bool × σ
  uartRxErrorGet : UInt32 → σ → UInt32 × σ
  uartRxErrorClear : UInt32 → σ → σ
  timeCurrentMs : σ → UInt32 × σ
  period : UInt32

/-- What the log records. -/
inductive UartEvent where
  /-- The character `c` was taken from the receive FIFO at `base`. -/
  | got (base : UInt32) (c : UInt8)
  /-- The character `c` was offered to the transmit FIFO at `base`. -/
  | put (base : UInt32) (c : UInt8) (accepted : Bool)
  /-- A break was noticed. -/
  | broke
  deriving Repr, DecidableEq

/-- The hardware and the log. -/
structure Board (σ : Type) where
  hardware : σ
  log : List UartEvent

/-- A program on the board. -/
abbrev OnBoard (σ α : Type) := Run (Board σ) Halt α

/-- `struct uart_port`. -/
structure UartPort where
  base : UInt32
  deriving Repr, DecidableEq

/-- `UART_RXERROR_BREAK`. -/
abbrev uartRxErrorBreak : UInt32 := 4

variable {σ : Type}

/-- `(uint8_t)rx`. -/
def rxchar (rx : Int32) : UInt8 := rx.toUInt32.toUInt8

def charGet (lib : TivaWare σ) (base : UInt32) : OnBoard σ Int32 := fun b =>
  let (rx, s) := lib.uartCharGetNonBlocking base b.hardware
  (.ok rx, ⟨s, if 0 ≤ rx then b.log ++ [.got base (rxchar rx)] else b.log⟩)

def charPut (lib : TivaWare σ) (base : UInt32) (c : UInt8) : OnBoard σ Bool := fun b =>
  let (accepted, s) := lib.uartCharPutNonBlocking base c b.hardware
  (.ok accepted, ⟨s, b.log ++ [.put base c accepted]⟩)

/-- `UARTRxErrorGet(base) & UART_RXERROR_BREAK`. -/
def rxBreak (lib : TivaWare σ) (base : UInt32) : OnBoard σ Bool := fun b =>
  let (errors, s) := lib.uartRxErrorGet base b.hardware
  (.ok (errors &&& uartRxErrorBreak != 0), { b with hardware := s })

def rxErrorClear (lib : TivaWare σ) (base : UInt32) : OnBoard σ Unit :=
  Run.modify fun b => { b with hardware := lib.uartRxErrorClear base b.hardware }

def currentMs (lib : TivaWare σ) : OnBoard σ UInt32 := fun b =>
  let (now, s) := lib.timeCurrentMs b.hardware
  (.ok now, { b with hardware := s })

def recordBreak : OnBoard σ Unit := Run.modify fun b => { b with log := b.log ++ [.broke] }

/-- The loop of `uart_write_nonblock`: the number of characters accepted. -/
def putChars (lib : TivaWare σ) (base : UInt32) : List UInt8 → Nat → OnBoard σ Nat
  | [], index => pure index
  | c :: data, index => do
    if ← charPut lib base c then putChars lib base data (index + 1)
    else return index

def uartWriteNonblock (lib : TivaWare σ) (port : Option UartPort) (data : List UInt8) :
    OnBoard σ Nat :=
  match port with
  | none => error "Null pointer"
  | some port => putChars lib port.base data 0

/-- `if(rx >= 0)`: write the character that was taken to `port`. -/
def passOn (lib : TivaWare σ) (port : UartPort) (rx : Int32) : OnBoard σ Unit :=
  if 0 ≤ rx then do
    let _ ← uartWriteNonblock lib (some port) [rxchar rx]
  else pure ()

/-- One pass of the `for(;;)` of `uart_passthrough`. -/
def passthroughPass (lib : TivaWare σ) (port1 port2 : UartPort) :
    OnBoard σ (Unit ⊕ Unit) := do
  let rx1 ← charGet lib port1.base
  if ← rxBreak lib port1.base then
    rxErrorClear lib port1.base
    recordBreak
    return .inr ()
  passOn lib port2 rx1
  let rx2 ← charGet lib port2.base
  passOn lib port1 rx2
  return .inl ()

/-- One pass of the loop that waits for the break to end. -/
def breakPass (lib : TivaWare σ) (port1 : UartPort) (timeout : UInt32) (stamp : TimeElapsed) :
    OnBoard σ (TimeElapsed ⊕ Unit) := do
  if ← rxBreak lib port1.base then
    rxErrorClear lib port1.base
    let now ← currentMs lib
    let (elapsed, stamp) := timeElapsed lib.period stamp now
    if elapsed > timeout && timeout != 0 then error "Timeout pending end of break signal"
    return .inl stamp
  return .inr ()

def uartPassthrough (lib : TivaWare σ) (port1 port2 : Option UartPort) (timeout : UInt32)
    (passes : Nat) : OnBoard σ Unit :=
  match port1, port2 with
  | some port1, some port2 => do
    Run.iterate .pending (fun _ => passthroughPass lib port1 port2) passes ()
    let now ← currentMs lib
    Run.iterate .pending (breakPass lib port1 timeout) passes (timeElapsedInit now)
  | _, _ => error "NULL ptr"

end Nuhal.Tiva

import Nuhal.Linux.Kernel

/-!
# Serial ports on Linux (`nuhal_linux/src/uart_host.c`)

An open port is a block of memory in a doubly linked list of all open ports. `uart_open` links the
block before it opens the device, and registers `uart_cleanup` to run at exit. Whatever fails ends
in `error`, which `exit`s, and so in `uart_cleanup`.

* A pointer is the number of a block; blocks are numbered as they are allocated, and the numbers
  are not used again. `NULL` is `none`. Reading a block that is not allocated is `Halt.undefined`.
* Each call of a function comes with the system's `Answers` for it; `uart_cleanup` has one for each
  port that it closes.
* `hostError` (`error.c:16-36`, `error_host.c`) prints its message without the file and line. An
  `exit` inside `uart_cleanup` does not run it a second time.
* The field `is_open` is used nowhere and left out. Reading, writing and waiting is left out here.
-/

namespace Nuhal.Linux

open Nuhal.Lib Nuhal.All

abbrev Ptr := Nat

/-- `struct uart_port`. -/
structure UartPort where
  fd : Int
  isUsb : Bool
  oldTio : Termios
  oldSerial : SerialStruct
  next : Option Ptr
  prev : Option Ptr
  self : Option Ptr
  deriving Repr, DecidableEq

/-- The process: its memory, as far as the ports use it, over the system. -/
structure Host where
  kernel : Kernel
  heap : Ptr → Option UartPort
  fresh : Ptr
  portListHead : Option Ptr
  firstRun : Bool
  registered : Bool
  errorCalled : Bool
  fatalErrorCalled : Bool
  stderr : List String

/-- A program in the process. -/
abbrev OnHost (α : Type) := Run Host Halt α

variable {α : Type}

/-- `error`. -/
def hostError (msg : String) : OnHost α := fun h =>
  if !h.errorCalled then
    (.error (.error msg),
      { h with errorCalled := true, stderr := h.stderr ++ ["HOST ERROR: " ++ msg] })
  else if !h.fatalErrorCalled then
    (.error (.error msg),
      { h with fatalErrorCalled := true, stderr := h.stderr ++ ["FATAL HOST ERROR: " ++ msg] })
  else (.error (.error msg), h)

def errorWithErrno (e : Errno) : OnHost α := hostError (strerror e)

/-- A system call whose failure is an error, unless it is tolerated. -/
def orErrorUnless (tolerated : Errno → Bool) (call : Kernel → Except Errno Unit × Kernel) :
    OnHost Unit := fun h =>
  match call h.kernel with
  | (.ok (), k) => (.ok (), { h with kernel := k })
  | (.error e, k) =>
    if tolerated e then (.ok (), { h with kernel := k })
    else errorWithErrno e { h with kernel := k }

/-- A system call whose failure is an error. -/
def orError (call : Kernel → Except Errno α × Kernel) : OnHost α := fun h =>
  match call h.kernel with
  | (.ok a, k) => (.ok a, { h with kernel := k })
  | (.error e, k) => errorWithErrno e { h with kernel := k }

/-- A call that only fails or succeeds. -/
def orFail (e : Option Errno) : OnHost Unit :=
  match e with
  | none => pure ()
  | some e => errorWithErrno e

def loadPort (p : Ptr) : OnHost UartPort := fun h =>
  match h.heap p with
  | some port => (.ok port, h)
  | none => (.error .undefined, h)

def modifyPort (p : Ptr) (f : UartPort → UartPort) : OnHost Unit := fun h =>
  match h.heap p with
  | some port => (.ok (), { h with heap := Function.update h.heap p (some (f port)) })
  | none => (.error .undefined, h)

/-! ## Opening -/

/-- `enum uart_flow`, and any other value. -/
inductive UartFlow where
  | hardware
  | software
  | none
  | other (value : Nat)
  deriving Repr, DecidableEq

/-- `enum uart_parity`, and any other value. -/
inductive UartParity where
  | none
  | odd
  | even
  | other (value : Nat)
  deriving Repr, DecidableEq

/-! The bits of `<termios.h>` and `<linux/serial.h>`. -/

abbrev cs8 : UInt32 := 0x30
abbrev csize : UInt32 := 0x30
abbrev cread : UInt32 := 0x80
abbrev parenb : UInt32 := 0x100
abbrev parodd : UInt32 := 0x200
abbrev clocal : UInt32 := 0x800
abbrev crtscts : UInt32 := 0x80000000
abbrev cbaud : UInt32 := 0x100F
abbrev isig : UInt32 := 0x1
abbrev icanon : UInt32 := 0x2
abbrev echo : UInt32 := 0x8
abbrev echoe : UInt32 := 0x10
abbrev opost : UInt32 := 0x1
abbrev ixon : UInt32 := 0x400
abbrev ixoff : UInt32 := 0x1000
abbrev asyncLowLatency : UInt32 := 0x2000

/-- The `speed_t` of a baud rate that is supported. -/
def stdbaud : UInt32 → Option UInt32
  | 9600 => some 0xD
  | 115200 => some 0x1002
  | 230400 => some 0x1003
  | 1000000 => some 0x1008
  | 2000000 => some 0x100B
  | 3000000 => some 0x100D
  | _ => none

/-- 8 data bits, no parity, 1 stop bit, raw. -/
def rawTermios : Termios :=
  let tio := { zeroTermios with cCflag := cs8 ||| cread ||| clocal }
  { tio with
    cLflag := tio.cLflag &&& ~~~(icanon ||| echo ||| echoe ||| isig)
    cOflag := tio.cOflag &&& ~~~opost }

def withFlow (tio : Termios) : UartFlow → Option Termios
  | .hardware => some { tio with
      cCflag := tio.cCflag ||| crtscts
      cIflag := tio.cIflag &&& ~~~(ixon ||| ixoff) }
  | .software => some { tio with
      cCflag := tio.cCflag &&& ~~~crtscts
      cIflag := tio.cIflag ||| ixon ||| ixoff }
  | .none => some { tio with
      cCflag := tio.cCflag &&& ~~~crtscts
      cIflag := tio.cIflag &&& ~~~(ixon ||| ixoff) }
  | .other _ => none

def withParity (tio : Termios) : UartParity → Option Termios
  | .even => some { tio with cCflag := (tio.cCflag ||| parenb) &&& ~~~parodd }
  | .odd => some { tio with cCflag := tio.cCflag ||| parenb ||| parodd }
  | .none => some { tio with cCflag := tio.cCflag &&& ~~~parenb }
  | .other _ => none

/-- `cfsetospeed` and `cfsetispeed`. -/
def withSpeed (tio : Termios) (speed : UInt32) : Termios :=
  { tio with
    cCflag := (tio.cCflag &&& ~~~cbaud) ||| speed
    cOspeed := speed
    cIspeed := speed }

/-- A value, or `error` with a message. -/
def orMessage (msg : String) (x : Option α) : OnHost α :=
  match x with
  | some a => pure a
  | none => hostError msg

/-- `if(first_run)`. -/
def registerCleanup (a : Answers) : OnHost Unit := fun h =>
  if h.firstRun then
    match a.fails .atexit with
    | none => (.ok (), { h with firstRun := false, registered := true })
    | some _ => hostError "Failed to register uart cleanup function" { h with firstRun := false }
  else (.ok (), h)

/-- `malloc` and `memset`. -/
def newPort (a : Answers) : OnHost Ptr := fun h =>
  match a.fails .malloc with
  | some e => errorWithErrno e h
  | none => (.ok h.fresh,
      { h with
        heap := Function.update h.heap h.fresh
          (some ⟨0, false, zeroTermios, zeroSerial, none, none, some h.fresh⟩)
        fresh := h.fresh + 1 })

/-- `while(NULL != curr_port->next)`, one pass. -/
def nextPort (curr : Ptr) : OnHost (Ptr ⊕ Ptr) := do
  let port ← loadPort curr
  match port.next with
  | some next => return .inl next
  | none => return .inr curr

/-- Add the port to the end of the list. -/
def linkPort (p : Ptr) : OnHost Unit := fun h =>
  match h.portListHead with
  | none => (.ok (), { h with portListHead := some p })
  | some first => (do
      let last ← Run.iterate .pending nextPort (h.fresh + 1) first
      modifyPort last fun port => { port with next := some p }
      modifyPort p fun port => { port with prev := some last } : OnHost Unit) h

/-- `strncmp("/dev/ttyUSB", realname, 11) == 0 || strncmp("/dev/ttyACM", realname, 11) == 0`. -/
def usbName (realname : String) : Bool :=
  realname.toList.take 11 == "/dev/ttyUSB".toList ||
    realname.toList.take 11 == "/dev/ttyACM".toList

/-- `port->fd = open(…)`, and the error if it failed. -/
def openDevice (a : Answers) (p : Ptr) (realname : String) : OnHost Int := fun h =>
  match h.kernel.openDevice a realname with
  | (.ok fd, k) => (do
      modifyPort p fun port => { port with fd := fd }
      return fd : OnHost Int) { h with kernel := k }
  | (.error e, k) => (do
      modifyPort p fun port => { port with fd := -1 }
      errorWithErrno e : OnHost Int) { h with kernel := k }

/-- `if(!port->is_usb)`. -/
def enableRs485 (a : Answers) (fd : Int) (isUsb : Bool) : OnHost Unit :=
  if isUsb then pure ()
  else orErrorUnless (fun e => e == .enotsup || e == .enotty) fun k => k.touch a .tiocsrs485 fd

/-- What `uart_open` does with the port after its settings are saved. -/
def configurePort (a : Answers) (fd : Int) (isUsb : Bool) (oldSerial : SerialStruct)
    (baud : UInt32) (flow : UartFlow) (parity : UartParity) : OnHost Unit := do
  orErrorUnless (· == .enotsup) fun k =>
    k.tiocsserial a fd { oldSerial with flags := oldSerial.flags ||| asyncLowLatency }
  enableRs485 a fd isUsb
  let speed ← orMessage "Unsupported baud rate selected." (stdbaud baud)
  let tio ← orMessage "Unsupported flow control mode selected." (withFlow rawTermios flow)
  let tio ← orMessage "Unsupported parity mode selected." (withParity tio parity)
  let tio := { tio with cCflag := (tio.cCflag &&& ~~~csize) ||| cs8 }
  orFail (a.fails .cfsetospeed)
  orFail (a.fails .cfsetispeed)
  orError fun k => k.tcsetattr a .now fd (withSpeed tio speed)
  orError fun k => k.touch a .tcflush fd

/-- What `uart_open` does with the port after it is in the list. -/
def setupPort (a : Answers) (p : Ptr) (name : String) (baud : UInt32) (flow : UartFlow)
    (parity : UartParity) : OnHost Unit := do
  let realname ← orError fun k => (a.realpath name, k)
  modifyPort p fun port => { port with isUsb := usbName realname }
  let fd ← openDevice a p realname
  let oldTio ← orError fun k => k.tcgetattr a fd
  modifyPort p fun port => { port with oldTio := oldTio }
  let oldSerial ← orError fun k => k.tiocgserial a fd
  modifyPort p fun port => { port with oldSerial := oldSerial }
  configurePort a fd (usbName realname) oldSerial baud flow parity

def uartOpen (a : Answers) (name : String) (baud : UInt32) (flow : UartFlow)
    (parity : UartParity) : OnHost Ptr := do
  registerCleanup a
  let p ← newPort a
  linkPort p
  setupPort a p name baud flow parity
  return p

/-! ## Closing -/

/-- `else if(0 == pval)`: disable flow control and drop what was not written. -/
def afterTimeout (a : Answers) (fd : Int) (pval : Nat) : OnHost Unit :=
  if pval = 0 then do
    let tio ← orError fun k => k.tcgetattr a fd
    orError fun k => k.tcsetattr a .now fd { tio with cCflag := tio.cCflag &&& ~~~crtscts }
    orError fun k => k.touch a .tcflush fd
  else pure ()

/-- What `uart_close` does with the descriptor. -/
def closeDevice (a : Answers) (port : UartPort) : OnHost Unit := do
  let pval ← orError fun k => (k.poll a port.fd, k)
  afterTimeout a port.fd pval
  orErrorUnless (· == .enotsup) fun k => k.tcsetattr a .drain port.fd port.oldTio
  orErrorUnless (· == .enotsup) fun k => k.tiocsserial a port.fd port.oldSerial
  orError fun k => k.close a port.fd

/-- `if(NULL != p)`. -/
def modifyIf (p : Option Ptr) (f : UartPort → UartPort) : OnHost Unit :=
  match p with
  | some p => modifyPort p f
  | none => pure ()

/-- Remove the port from the list and free it. -/
def unlinkPort (p : Ptr) (port : UartPort) : OnHost Unit := do
  modifyIf port.prev fun other => { other with next := port.next }
  modifyIf port.next fun other => { other with prev := port.prev }
  Run.modify fun h => if h.portListHead = some p then { h with portListHead := port.next } else h
  match port.self with
  | some self => Run.modify fun h => { h with heap := Function.update h.heap self none }
  | none => pure ()

def uartClose (a : Answers) (p : Ptr) : OnHost Unit := do
  let port ← loadPort p
  closeDevice a port
  unlinkPort p port

/-- `while(NULL != curr_port)`, one pass, which closes the `i`-th port. -/
def cleanupPass (answers : Nat → Answers) : Option Ptr × Nat →
    OnHost ((Option Ptr × Nat) ⊕ Unit)
  | (none, _) => return .inr ()
  | (some toClose, i) => do
    let port ← loadPort toClose
    uartClose (answers i) toClose
    return .inl (port.next, i + 1)

def uartCleanup (answers : Nat → Answers) : OnHost Unit := fun h =>
  Run.iterate .pending (cleanupPass answers) (h.fresh + 1) (h.portListHead, 0) h

/-- `exit`: the process after the handlers that were registered have run. -/
def exit (answers : Nat → Answers) (h : Host) : Host :=
  if h.registered then (uartCleanup answers h).2 else h

/-! ## A program -/

/-- What a program does with ports. -/
inductive Use where
  | openPort (a : Answers) (name : String) (baud : UInt32) (flow : UartFlow) (parity : UartParity)
  | closePort (a : Answers) (p : Ptr)

/-- A running program, with the handles that `uart_open` returned and that it has not closed. -/
structure Process where
  host : Host
  handles : List Ptr

/-- One call: how it ends, and the process after it, or at the moment of its `exit`. -/
def perform (use : Use) (process : Process) : Except Halt Unit × Process :=
  match use with
  | .openPort a name baud flow parity =>
    match uartOpen a name baud flow parity process.host with
    | (.ok p, h) => (.ok (), ⟨h, process.handles ++ [p]⟩)
    | (.error e, h) => (.error e, ⟨h, process.handles⟩)
  | .closePort a p =>
    match uartClose a p process.host with
    | (.ok (), h) => (.ok (), ⟨h, process.handles.erase p⟩)
    | (.error e, h) => (.error e, ⟨h, process.handles⟩)

end Nuhal.Linux

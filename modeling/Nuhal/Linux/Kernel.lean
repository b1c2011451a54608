import Mathlib.Logic.Function.Basic
import Nuhal.All.Bytestream

/-!
# The system under a Linux process

What `nuhal_linux/src/uart_host.c` needs of the system: descriptors of serial devices and the
settings of the devices behind them, and the functions of POSIX that open, close and set them.

* `Answers` is what the system does during one call of a function of the program: which of its
  system calls fail and how, what `realpath` says and whether a `poll` finds an event.
* A call on a descriptor that is not open fails with `EBADF`, whatever the answers say. Opening
  takes the lowest descriptor that is not in use.
* Of the settings only those fields are here that the program looks at; it copies the others.

The `log` is not part of the system. It records the descriptors that were opened and closed, and
the settings that were read from them and applied to them.
-/

namespace Nuhal.Linux

open Nuhal.Lib Nuhal.All

/-- `errno`, as far as the program tells the values apart. -/
inductive Errno where
  | enotsup
  | enotty
  | other (message : String)
  deriving Repr, DecidableEq

/-- `strerror`. -/
def strerror : Errno → String
  | .enotsup => "Operation not supported"
  | .enotty => "Inappropriate ioctl for device"
  | .other message => message

/-- `EBADF`. -/
def ebadf : Errno := .other "Bad file descriptor"

/-- The calls that can fail. -/
inductive Syscall where
  | atexit
  | malloc
  | openDevice
  | tcgetattr
  | tiocgserial
  | tiocsserial
  | tiocsrs485
  | cfsetospeed
  | cfsetispeed
  | tcsetattrNow
  | tcsetattrDrain
  | tcflush
  | poll
  | close
  deriving Repr, DecidableEq

/-- What the system does during a call of one of the program's functions. -/
structure Answers where
  fails : Syscall → Option Errno
  realpath : String → Except Errno String
  ready : Bool

/-- `struct termios`. -/
structure Termios where
  cIflag : UInt32
  cOflag : UInt32
  cCflag : UInt32
  cLflag : UInt32
  cIspeed : UInt32
  cOspeed : UInt32
  deriving Repr, DecidableEq

/-- `struct serial_struct`. -/
structure SerialStruct where
  flags : UInt32
  deriving Repr, DecidableEq

/-- All bytes 0. -/
def zeroTermios : Termios := ⟨0, 0, 0, 0, 0, 0⟩

def zeroSerial : SerialStruct := ⟨0⟩

/-- The `optional_actions` of `tcsetattr`. -/
inductive Action where
  | now
  | drain
  deriving Repr, DecidableEq

/-- What the log records. -/
inductive HostEvent where
  | opened (fd : Int)
  | gotTermios (fd : Int) (tio : Termios)
  | gotSerial (fd : Int) (serial : SerialStruct)
  | setTermios (action : Action) (fd : Int) (tio : Termios)
  | setSerial (fd : Int) (serial : SerialStruct)
  | closed (fd : Int)
  deriving Repr, DecidableEq

/-- The descriptors of the process, each with the device it is open on, and the devices. -/
structure Kernel where
  table : List (Option String)
  termios : String → Termios
  serial : String → SerialStruct
  log : List HostEvent

/-- The device that a descriptor is open on. -/
def Kernel.device (k : Kernel) (fd : Int) : Option String :=
  if 0 ≤ fd then (k.table[fd.toNat]?).join else none

def Kernel.logged (k : Kernel) (e : HostEvent) : Kernel := { k with log := k.log ++ [e] }

/-- The lowest descriptor that is not in use. -/
def Kernel.lowest (k : Kernel) : Nat := k.table.findIdx Option.isNone

/-- The table with the entry at `i` set. -/
def setEntry (table : List (Option String)) (i : Nat) (entry : Option String) :
    List (Option String) :=
  if i < table.length then table.set i entry else table ++ [entry]

/-- `open`: the descriptor. -/
def Kernel.openDevice (k : Kernel) (a : Answers) (realname : String) : Except Errno Int × Kernel :=
  match a.fails .openDevice with
  | some e => (.error e, k)
  | none => (.ok k.lowest,
      { k with table := setEntry k.table k.lowest (some realname) }.logged (.opened k.lowest))

/-- How a call on a descriptor ends, and what it does to the device if it succeeds. -/
def Kernel.onDevice {α : Type} (k : Kernel) (a : Answers) (call : Syscall) (fd : Int)
    (f : String → α × Kernel) : Except Errno α × Kernel :=
  match k.device fd, a.fails call with
  | none, _ => (.error ebadf, k)
  | some _, some e => (.error e, k)
  | some dev, none => (.ok (f dev).1, (f dev).2)

def Kernel.tcgetattr (k : Kernel) (a : Answers) (fd : Int) : Except Errno Termios × Kernel :=
  k.onDevice a .tcgetattr fd fun dev =>
    (k.termios dev, k.logged (.gotTermios fd (k.termios dev)))

def Kernel.tiocgserial (k : Kernel) (a : Answers) (fd : Int) :
    Except Errno SerialStruct × Kernel :=
  k.onDevice a .tiocgserial fd fun dev =>
    (k.serial dev, k.logged (.gotSerial fd (k.serial dev)))

def Kernel.tcsetattr (k : Kernel) (a : Answers) (action : Action) (fd : Int) (tio : Termios) :
    Except Errno Unit × Kernel :=
  k.onDevice a (match action with | .now => .tcsetattrNow | .drain => .tcsetattrDrain) fd fun dev =>
    ((), { k with termios := Function.update k.termios dev tio }.logged (.setTermios action fd tio))

def Kernel.tiocsserial (k : Kernel) (a : Answers) (fd : Int) (serial : SerialStruct) :
    Except Errno Unit × Kernel :=
  k.onDevice a .tiocsserial fd fun dev =>
    ((), { k with serial := Function.update k.serial dev serial }.logged (.setSerial fd serial))

/-- A call on a descriptor that changes nothing that is modelled. -/
def Kernel.touch (k : Kernel) (a : Answers) (call : Syscall) (fd : Int) :
    Except Errno Unit × Kernel :=
  k.onDevice a call fd fun _ => ((), k)

/-- `close`. Linux gives the descriptor back also when it reports an error. -/
def Kernel.close (k : Kernel) (a : Answers) (fd : Int) : Except Errno Unit × Kernel :=
  match k.device fd with
  | none => (.error ebadf, k)
  | some _ =>
    (match a.fails .close with
      | some e => .error e
      | none => .ok (),
      { k with table := setEntry k.table fd.toNat none }.logged (.closed fd))

/-- `poll` for one descriptor with no events asked for: how many have one. A negative descriptor is
passed over, and one that is not open is an event. -/
def Kernel.poll (k : Kernel) (a : Answers) (fd : Int) : Except Errno Nat :=
  match a.fails .poll with
  | some e => .error e
  | none =>
    if fd < 0 then .ok 0
    else if k.device fd = none then .ok 1
    else .ok (if a.ready then 1 else 0)

end Nuhal.Linux

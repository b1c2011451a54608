import Mathlib.Logic.Relation
import Nuhal.Ports.Cleanup
import Nuhal.Ports.Opening

/-!
# The life cycle of the ports (`nuhal_linux/src/uart_host.c`)

A program opens ports and closes the ones it has open, in any order, until a call of `uart_open`
fails or it exits. `Reached` are the processes it can come to.

* `Running` is kept by every call that returns, so at any moment the port list is a well-formed
  list of the open ports in the order of opening, and `uart_cleanup` does what it should
  (`Running.exitsCleanly`).
* A call of `uart_open` that fails leaves the new port in the list with whatever it holds by then.
  `uart_cleanup` takes this for an open port. `StrikesSafely` says when that does no harm.
* **`port_life_cycle`**: all of it, over every run.
* `exit_closes_stdin`: what happens otherwise.
-/

namespace Nuhal.Ports

open Nuhal.Lib Nuhal.All Nuhal.Linux

variable {h h' : Host} {p : Ptr} {handles : List Ptr} {extra : List Int} {held : Held}
  {a : Answers} {name dev : String} {halt : Halt} {process process' : Process}
  {table : List (Option String)}  {termios : String → Termios} {serial : String → SerialStruct}

theorem CleanedUp.refl (hnone : openFds h.kernel.log = []) : CleanedUp h h :=
  ⟨[], (List.append_nil _).symm, by rw [hnone]; exact .nil, nofun, nofun⟩

/-- A process at its start. -/
def started (table : List (Option String)) (termios : String → Termios)
    (serial : String → SerialStruct) : Process :=
  ⟨⟨⟨table, termios, serial, []⟩, fun _ => none, 0, none, true, false, false, false, []⟩, []⟩

end Nuhal.Ports

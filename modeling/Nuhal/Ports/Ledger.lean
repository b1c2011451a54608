import Nuhal.Linux.Uart

/-!
# What the log says of descriptors

`openFds` are the descriptors that were opened and not closed since, in the order of opening;
`savedTermios` and `savedSerial` what was last read from a descriptor since it was opened. They are
read off the log alone, so they do not depend on what the program remembers.

The lemmas say what each of the system's functions does to the table of descriptors and to the log.
-/

namespace Nuhal.Ports

open Nuhal.Lib Nuhal.All Nuhal.Linux

/-- The descriptor of an event. -/
def eventFd : HostEvent → Int
  | .opened fd => fd
  | .gotTermios fd _ => fd
  | .gotSerial fd _ => fd
  | .setTermios _ fd _ => fd
  | .setSerial fd _ => fd
  | .closed fd => fd

def openedBy (fds : List Int) : HostEvent → List Int
  | .opened fd => fds ++ [fd]
  | .closed fd => fds.erase fd
  | _ => fds

/-- The descriptors that were opened and not closed since, in the order of opening. -/
def openFds (log : List HostEvent) : List Int := log.foldl openedBy []

/-- The descriptors that were closed. -/
def closedIn (log : List HostEvent) : List Int :=
  log.filterMap fun
    | .closed fd => some fd
    | _ => none

def termiosBy (fd : Int) (saved : Option Termios) : HostEvent → Option Termios
  | .opened f => if f = fd then none else saved
  | .closed f => if f = fd then none else saved
  | .gotTermios f tio => if f = fd then some tio else saved
  | _ => saved

/-- The termios settings last read from a descriptor since it was opened. -/
def savedTermios (fd : Int) (log : List HostEvent) : Option Termios :=
  log.foldl (termiosBy fd) none

def serialBy (fd : Int) (saved : Option SerialStruct) : HostEvent → Option SerialStruct
  | .opened f => if f = fd then none else saved
  | .closed f => if f = fd then none else saved
  | .gotSerial f serial => if f = fd then some serial else saved
  | _ => saved

/-- The serial settings last read from a descriptor since it was opened. -/
def savedSerial (fd : Int) (log : List HostEvent) : Option SerialStruct :=
  log.foldl (serialBy fd) none

variable {log events : List HostEvent} {e : HostEvent} {fd fd' : Int} {k k' : Kernel}
  {a : Answers} {call : Syscall} {dev realname : String}

@[simp] theorem openFds_concat : openFds (log ++ [e]) = openedBy (openFds log) e :=
  List.foldl_append ..

@[simp] theorem savedTermios_concat :
    savedTermios fd (log ++ [e]) = termiosBy fd (savedTermios fd log) e := List.foldl_append ..

@[simp] theorem savedSerial_concat :
    savedSerial fd (log ++ [e]) = serialBy fd (savedSerial fd log) e := List.foldl_append ..

@[simp] theorem closedIn_append (log events : List HostEvent) :
    closedIn (log ++ events) = closedIn log ++ closedIn events := List.filterMap_append ..

theorem termiosBy_other {saved : Option Termios} (h : eventFd e ≠ fd) :
    termiosBy fd saved e = saved := by
  cases e with
  | opened f => exact if_neg h
  | closed f => exact if_neg h
  | gotTermios f tio => exact if_neg h
  | gotSerial f serial => rfl
  | setTermios action f tio => rfl
  | setSerial f serial => rfl

theorem serialBy_other {saved : Option SerialStruct} (h : eventFd e ≠ fd) :
    serialBy fd saved e = saved := by
  cases e with
  | opened f => exact if_neg h
  | closed f => exact if_neg h
  | gotTermios f tio => rfl
  | gotSerial f serial => exact if_neg h
  | setTermios action f tio => rfl
  | setSerial f serial => rfl

/-- What happens to other descriptors does not matter for one. -/
theorem saved_other (log : List HostEvent) (h : ∀ e ∈ events, eventFd e ≠ fd) :
    savedTermios fd (log ++ events) = savedTermios fd log ∧
      savedSerial fd (log ++ events) = savedSerial fd log := by
  induction events generalizing log with
  | nil =>
    rw [List.append_nil]
    exact ⟨rfl, rfl⟩
  | cons e events ih =>
    have hne := h e List.mem_cons_self
    obtain ⟨htermios, hserial⟩ := ih (log ++ [e]) fun e' he' => h e' (List.mem_cons_of_mem e he')
    rw [List.append_assoc, List.singleton_append] at htermios hserial
    rw [htermios, hserial, savedTermios_concat, savedSerial_concat, termiosBy_other hne,
      serialBy_other hne]
    exact ⟨rfl, rfl⟩

/-- Events that open nothing take the descriptors that they close off the list. -/
theorem openFds_append (log : List HostEvent) (h : ∀ e ∈ events, ∀ fd, e ≠ .opened fd) :
    openFds (log ++ events) = (closedIn events).foldl List.erase (openFds log) := by
  induction events generalizing log with
  | nil =>
    rw [List.append_nil]
    rfl
  | cons e events ih =>
    have hstep := ih (log ++ [e]) fun e' he' => h e' (List.mem_cons_of_mem e he')
    rw [List.append_assoc, List.singleton_append] at hstep
    rw [hstep, openFds_concat]
    cases e with
    | opened f => exact absurd rfl (h _ List.mem_cons_self f)
    | closed f => rfl
    | gotTermios f tio => rfl
    | gotSerial f serial => rfl
    | setTermios action f tio => rfl
    | setSerial f serial => rfl

/-! ## The table of descriptors -/

variable {α : Type} {f : String → α × Kernel}

end Nuhal.Ports

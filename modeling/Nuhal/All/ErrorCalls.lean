import Nuhal.All.Error
import Nuhal.Lib.Steps

/-!
# The calls of `error`, step by step (`nuhal_all/src/error.c`)

`error` never returns, but until the process has exited there can be another call of it: a handler
may use a function that calls `error`, and on a microcontroller an interrupt may do so between any
two steps of a call that is under way. The calls nest, and only the innermost one goes on.

* `ErrorPlace` is what a call does next: the tests and assignments of the two flags one by one, and
  the two handlers, each of which is entered, runs, and may return.
* What a handler does in between is not fixed: it takes its time, and an `ErrorAction.error` during
  it is a call that it makes or that interrupts it.
* `handled` is a ghost. The functions that `exit` calls before the process is gone are left out.
-/

namespace Nuhal.All

/-- The functions that a platform supplies (`error.h:29-41`). -/
inductive ErrorHandler where
  | errorHandler
  | errorHandlerFatal
  deriving Repr, DecidableEq

/-- What a call of `error` does next. -/
inductive ErrorPlace where
  | testCalled
  | setCalled
  | enterHandler
  | inHandler
  | testFatalCalled
  | setFatalCalled
  | enterHandlerFatal
  | inHandlerFatal
  | exit
  deriving Repr, DecidableEq

/-- A call of `error` that is under way. -/
structure ErrorCall where
  fileline : String
  msg : String
  place : ErrorPlace
  deriving Repr, DecidableEq

/-- What an error handler is told. -/
def ErrorCall.told (call : ErrorCall) : String × String := (call.fileline, call.msg)

/-- The flags of `error.c`, the calls under way with the innermost first, the handlers that were
entered and what they were told, and the status with which the process exited. -/
structure ErrorState where
  errorCalled : Bool
  fatalErrorCalled : Bool
  calls : List ErrorCall
  handled : List (ErrorHandler × String × String)
  exitStatus : Option Nat
  deriving Repr, DecidableEq

/-- The process before the first call. -/
def noError : ErrorState := ⟨false, false, [], [], none⟩

def errorPending (s : ErrorState) : Bool := s.errorCalled

def exitFailure : Nat := 1

/-- The innermost of the calls goes to `place`. -/
def ErrorState.goTo (s : ErrorState) (call : ErrorCall) (outer : List ErrorCall)
    (place : ErrorPlace) : ErrorState :=
  { s with calls := { call with place } :: outer }

/-- The next step of the innermost of the calls; a handler returns. -/
def errorNext (s : ErrorState) (call : ErrorCall) (outer : List ErrorCall) : ErrorState :=
  match call.place with
  | .testCalled => s.goTo call outer (if s.errorCalled then .testFatalCalled else .setCalled)
  | .setCalled => { s.goTo call outer .enterHandler with errorCalled := true }
  | .enterHandler =>
    { s.goTo call outer .inHandler with handled := s.handled ++ [(.errorHandler, call.told)] }
  | .inHandler => s.goTo call outer .exit
  | .testFatalCalled => s.goTo call outer (if s.fatalErrorCalled then .exit else .setFatalCalled)
  | .setFatalCalled => { s.goTo call outer .enterHandlerFatal with fatalErrorCalled := true }
  | .enterHandlerFatal =>
    { s.goTo call outer .inHandlerFatal with
      handled := s.handled ++ [(.errorHandlerFatal, call.told)] }
  | .inHandlerFatal => s.goTo call outer .exit
  | .exit => { s with exitStatus := some exitFailure }

/-- What can happen: `error` is called, or the innermost call does what it does next. -/
inductive ErrorAction where
  | error (fileline msg : String)
  | next
  deriving Repr, DecidableEq

def errorStep (action : ErrorAction) (s : ErrorState) : Option ErrorState :=
  match s.exitStatus with
  | some _ => none
  | none =>
    match action with
    | .error fileline msg => some { s with calls := ⟨fileline, msg, .testCalled⟩ :: s.calls }
    | .next =>
      match s.calls with
      | [] => none
      | call :: outer => some (errorNext s call outer)

end Nuhal.All

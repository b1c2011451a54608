/-!
# How a call ends without returning

`error` (`error.c:16-36`) calls the platform's handler and `exit`s: it never returns, so in the
model a call that reaches it stops with `Halt.error` and the message. The `FILE_LINE` text that
goes with a message is left out.

Two more ways not to return belong to the model itself:
* `undefined`: the code touched memory outside the object it was given. C gives that no meaning,
  so nothing after it is modelled.
* `pending`: the schedule the environment was given has run out while the call was still waiting.
-/

namespace Nuhal.All

/-- Why a call did not return. -/
inductive Halt where
  | error (msg : String)
  | undefined
  | pending
  deriving Repr, DecidableEq

end Nuhal.All

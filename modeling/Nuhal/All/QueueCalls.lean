import Nuhal.All.Bytestream
import Nuhal.All.Queue

/-!
# The queue's functions, called one after the other (`nuhal_all/src/queue.c`)

`All/Queue` takes the functions apart into the single accesses that two threads interleave. Here
nobody interferes, and each function is one program over the queue.

* The pointers the caller passes besides the queue are `none` for `NULL`. What `queue_push_nonblock`
  reads is an item of `item_size` bytes; what `queue_pop_nonblock` writes into is the caller's
  buffer, and the model returns what is in it afterwards.
* The copy loops (`queue.c:80-83, 125-128`) count a `uint32_t` up to `item_size`, which takes
  `item_size` passes. A byte outside of the queue's buffer or of the caller's is `Halt.undefined`.
-/

namespace Nuhal.All

open Nuhal.Lib

variable {n : Nat}

/-- A function that works on a queue. -/
abbrev OnQueue (n : Nat) (α : Type) := Run (Queue n) Halt α

def queueIsFull : OnQueue n Bool := fun queue =>
  (.ok (isFull queue queue.writeIndex queue.readIndex), queue)

def queueIsEmpty : OnQueue n Bool := fun queue =>
  (.ok (isEmpty queue queue.readIndex queue.writeIndex), queue)

/-- `queue->data[index * queue->item_size + i] = ((uint8_t *)data)[i]`. -/
def copyByteIn (data : Item) (index i : UInt32) : OnQueue n Unit := fun queue =>
  match data[i.toNat]?.bind fun b => store queue.data (byteIndex queue index i) [b] with
  | some stored => (.ok (), { queue with data := stored })
  | none => (.error .undefined, queue)

/-- The copy loop of `queue_push_nonblock` at byte `i`, with `left` passes to go. -/
def copyIn (data : Item) (index : UInt32) : Nat → UInt32 → OnQueue n Unit
  | 0, _ => pure ()
  | left + 1, i => do
    copyByteIn data index i
    copyIn data index left (i + 1)

/-- `((uint8_t*)out)[i] = queue->data[index * queue->item_size + i]`. -/
def copyByteOut (index i : UInt32) (out : List UInt8) : OnQueue n (List UInt8) := fun queue =>
  match queue.data[byteIndex queue index i]? with
  | some b => if i.toNat < out.length then (.ok (out.set i.toNat b), queue)
    else (.error .undefined, queue)
  | none => (.error .undefined, queue)

/-- The copy loop of `queue_pop_nonblock` at byte `i`, with `left` passes to go. -/
def copyOut (index : UInt32) : Nat → UInt32 → List UInt8 → OnQueue n (List UInt8)
  | 0, _, out => pure out
  | left + 1, i, out => do
    let out ← copyByteOut index i out
    copyOut index left (i + 1) out

def queuePushNonblock : Option Item → OnQueue n Bool
  | none => error "NULL pointer"
  | some item => do
    if ← queueIsFull then
      return false
    let queue ← Run.get
    copyIn item (queueIndex queue queue.writeIndex) queue.itemSize.toNat 0
    Run.modify fun queue => { queue with writeIndex := queue.writeIndex + 1 }
    return true

/-- `queue_pop_nonblock`: what it returns, and what `out` holds after it. -/
def queuePopNonblock (out : Option (List UInt8)) : OnQueue n (Bool × Option (List UInt8)) := do
  if ← queueIsEmpty then
    return (false, out)
  let queue ← Run.get
  let after ← match out with
    | none => pure none
    | some out => some <$> copyOut (queueIndex queue queue.readIndex) queue.itemSize.toNat 0 out
  Run.modify fun queue => { queue with readIndex := queue.readIndex + 1 }
  return (true, after)

/-- A call of one of the functions. -/
inductive QueueCall where
  | push (item : Item)
  | pop (out : Option (List UInt8))
  | isFull
  | isEmpty
  deriving Repr, DecidableEq

/-- What a call returns, and what the caller's buffer holds after it, if there is one. -/
abbrev QueueAnswer := Bool × Option (List UInt8)

def queueCall : QueueCall → OnQueue n QueueAnswer
  | .push item => do return (← queuePushNonblock (some item), none)
  | .pop out => queuePopNonblock out
  | .isFull => do return (← queueIsFull, none)
  | .isEmpty => do return (← queueIsEmpty, none)

end Nuhal.All

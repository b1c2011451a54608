import Nuhal.All.Error
import Nuhal.Lib.Memory
import Nuhal.Lib.Steps

/-!
# The queue and its two threads (`nuhal_all/src/queue.c`)

One thread pushes, one pops, and the queue is all they share. What they do to it is a sequence of
single accesses, and the accesses of the two interleave in any order: a read of `write_index` or of
`read_index` (both `volatile`), a byte copied into or out of `data`, an increment of an index. A
thread is therefore a program counter (`Producer`, `Consumer`) and a function that takes one such
step (`pushStep`, `popStep`); what a step depends on besides the queue is an argument of it. What
lies between two accesses (comparing, masking, testing a loop's condition) belongs to the access
before it.

* `queue_is_full` and `queue_is_empty` read both indices in one comparison, in either order.
* The blocking functions (`queue.c:91-104, 145-158`) try again as long as the clock allows it. The
  clock is free: at every look at it the caller may be in time or late, and late means `error`,
  after which the thread does nothing more. With timeout 0 nobody looks.
* The byte at `data[index * queue->item_size + i]`, an index modulo `2 ^ 32`, must lie in the
  buffer; a thread that leaves it is in the state `undefined` for good.
* The item that is pushed is `item_size` bytes of the producer's own. Popping is into a buffer of
  the consumer's own, `out` being the bytes it has so far; popping with `out == NULL`,
  `queue_push_error` and `queue_pop_error` are left out.
* `pushed` and `popped` are no variables of the program: they list the items whose push has
  incremented `write_index`, and the items of the pops that returned `true`.
-/

namespace Nuhal.All

open Nuhal.Lib

variable {n : Nat}

/-- `struct queue`, with the buffer that `data` points to. -/
structure Queue (n : Nat) where
  mask : UInt32
  itemSize : UInt32
  data : Vector UInt8 n
  writeIndex : UInt32
  readIndex : UInt32

def queueIndex (queue : Queue n) (curr : UInt32) : UInt32 := curr &&& queue.mask

def queueInit (capacity itemSize : UInt32) (data : Vector UInt8 n) : Except Halt (Queue n) :=
  if 0 ≠ (capacity - 1) &&& capacity ∨ capacity ≤ 1 then
    .error (.error "capacity must be a power of 2 > 1")
  else
    .ok { mask := capacity - 1, itemSize, data, writeIndex := 0, readIndex := 0 }

/-- The comparison of `queue_is_full`, of the indices it has read. -/
def isFull (queue : Queue n) (writeIndex readIndex : UInt32) : Bool :=
  queueIndex queue (writeIndex + 1) == queueIndex queue readIndex

/-- The comparison of `queue_is_empty`. -/
def isEmpty (queue : Queue n) (readIndex writeIndex : UInt32) : Bool :=
  queueIndex queue readIndex == queueIndex queue writeIndex

/-- Where byte `i` of the slot `index` lies: `index * queue->item_size + i`. -/
def byteIndex (queue : Queue n) (index i : UInt32) : Nat := (index * queue.itemSize + i).toNat

/-- An item: its `item_size` bytes. -/
abbrev Item := List UInt8

/-! ## The producer -/

/-- Where the producer is. `caller` is the timeout of the `queue_push_block` that called
`queue_push_nonblock`, if that was called by it. -/
inductive Producer where
  /-- Between two calls. -/
  | idle
  /-- At the condition of the loop of `queue_push_block`. -/
  | looping (item : Item) (timeout : UInt32)
  /-- In `queue_is_full`, with none of the indices read. -/
  | checking (item : Item) (caller : Option UInt32)
  /-- In `queue_is_full`, with `write_index` read. -/
  | gotWrite (item : Item) (caller : Option UInt32) (writeIndex : UInt32)
  /-- In `queue_is_full`, with `read_index` read. -/
  | gotRead (item : Item) (caller : Option UInt32) (readIndex : UInt32)
  /-- Before `index` is set. -/
  | locating (item : Item)
  /-- In the copy loop, with `i` bytes copied. -/
  | copying (item : Item) (index i : UInt32)
  /-- After `error`. -/
  | stopped
  /-- After an access outside of the buffer. -/
  | undefined
  deriving Repr, DecidableEq

/-- The steps of the producer. -/
inductive PushAction where
  /-- Call `queue_push_nonblock`, or `queue_push_block` with a timeout. -/
  | call (item : Item) (caller : Option UInt32)
  /-- Look at the clock. -/
  | look (inTime : Bool)
  /-- Read `write_index`. -/
  | readWrite
  /-- Read `read_index`. -/
  | readRead
  /-- Copy a byte. -/
  | copy
  /-- Increment `write_index`. -/
  | increment
  deriving Repr, DecidableEq

/-- `queue_push_nonblock` returns `false`. -/
def pushFailed (item : Item) : Option UInt32 → Producer
  | none => .idle
  | some timeout => .looping item timeout

/-- `if(queue_is_full(queue)) return false;` with the indices it has read. -/
def pushChecked (queue : Queue n) (item : Item) (caller : Option UInt32)
    (writeIndex readIndex : UInt32) : Producer :=
  if isFull queue writeIndex readIndex then pushFailed item caller else .locating item

/-- One step of the producer: the queue and the producer after it, and the item it has pushed, if
it has. -/
def pushStep : PushAction → Queue n → Producer → Option (Queue n × Producer × List Item)
  | .call item caller, queue, .idle =>
    if item.length = queue.itemSize.toNat then
      match caller with
      | none => some (queue, .checking item none, [])
      | some timeout => some (queue, .looping item timeout, [])
    else none
  | .look inTime, queue, .looping item timeout =>
    some (queue, if timeout = 0 ∨ inTime then .checking item (some timeout) else .stopped, [])
  | .readWrite, queue, .checking item caller =>
    some (queue, .gotWrite item caller queue.writeIndex, [])
  | .readRead, queue, .checking item caller =>
    some (queue, .gotRead item caller queue.readIndex, [])
  | .readRead, queue, .gotWrite item caller writeIndex =>
    some (queue, pushChecked queue item caller writeIndex queue.readIndex, [])
  | .readWrite, queue, .gotRead item caller readIndex =>
    some (queue, pushChecked queue item caller queue.writeIndex readIndex, [])
  | .readWrite, queue, .locating item =>
    some (queue, .copying item (queueIndex queue queue.writeIndex) 0, [])
  | .copy, queue, .copying item index i =>
    if i ≠ queue.itemSize then
      match item[i.toNat]?.bind fun b => store queue.data (byteIndex queue index i) [b] with
      | some data => some ({ queue with data }, .copying item index (i + 1), [])
      | none => some (queue, .undefined, [])
    else none
  | .increment, queue, .copying item _ i =>
    if i = queue.itemSize then
      some ({ queue with writeIndex := queue.writeIndex + 1 }, .idle, [item])
    else none
  | _, _, _ => none

/-! ## The consumer -/

/-- Where the consumer is; `caller` is as for the producer. -/
inductive Consumer where
  | idle
  | looping (timeout : UInt32)
  | checking (caller : Option UInt32)
  | gotRead (caller : Option UInt32) (readIndex : UInt32)
  | gotWrite (caller : Option UInt32) (writeIndex : UInt32)
  | locating
  | copying (index i : UInt32) (out : Item)
  | stopped
  | undefined
  deriving Repr, DecidableEq

/-- The steps of the consumer. -/
inductive PopAction where
  | call (caller : Option UInt32)
  | look (inTime : Bool)
  | readRead
  | readWrite
  | copy
  | increment
  deriving Repr, DecidableEq

/-- `queue_pop_nonblock` returns `false`. -/
def popFailed : Option UInt32 → Consumer
  | none => .idle
  | some timeout => .looping timeout

/-- `if(queue_is_empty(queue)) return false;` with the indices it has read. -/
def popChecked (queue : Queue n) (caller : Option UInt32) (readIndex writeIndex : UInt32) :
    Consumer :=
  if isEmpty queue readIndex writeIndex then popFailed caller else .locating

/-- One step of the consumer: the queue and the consumer after it, and the item it has popped, if
it has. -/
def popStep : PopAction → Queue n → Consumer → Option (Queue n × Consumer × List Item)
  | .call caller, queue, .idle =>
    match caller with
    | none => some (queue, .checking none, [])
    | some timeout => some (queue, .looping timeout, [])
  | .look inTime, queue, .looping timeout =>
    some (queue, if timeout = 0 ∨ inTime then .checking (some timeout) else .stopped, [])
  | .readRead, queue, .checking caller => some (queue, .gotRead caller queue.readIndex, [])
  | .readWrite, queue, .checking caller => some (queue, .gotWrite caller queue.writeIndex, [])
  | .readWrite, queue, .gotRead caller readIndex =>
    some (queue, popChecked queue caller readIndex queue.writeIndex, [])
  | .readRead, queue, .gotWrite caller writeIndex =>
    some (queue, popChecked queue caller queue.readIndex writeIndex, [])
  | .readRead, queue, .locating =>
    some (queue, .copying (queueIndex queue queue.readIndex) 0 [], [])
  | .copy, queue, .copying index i out =>
    if i ≠ queue.itemSize then
      match queue.data[byteIndex queue index i]? with
      | some b => some (queue, .copying index (i + 1) (out ++ [b]), [])
      | none => some (queue, .undefined, [])
    else none
  | .increment, queue, .copying _ i out =>
    if i = queue.itemSize then
      some ({ queue with readIndex := queue.readIndex + 1 }, .idle, [out])
    else none
  | _, _, _ => none

/-! ## Both -/

/-- The queue, the two threads, and what they have done. -/
structure Threads (n : Nat) where
  queue : Queue n
  producer : Producer
  consumer : Consumer
  pushed : List Item
  popped : List Item

/-- A step of one of the threads. -/
inductive Action where
  | push (action : PushAction)
  | pop (action : PopAction)
  deriving Repr, DecidableEq

/-- One thread takes a step, the other stays where it is. -/
def step : Action → Threads n → Option (Threads n)
  | .push action, s =>
    (pushStep action s.queue s.producer).map fun (queue, producer, items) =>
      { s with queue, producer, pushed := s.pushed ++ items }
  | .pop action, s =>
    (popStep action s.queue s.consumer).map fun (queue, consumer, items) =>
      { s with queue, consumer, popped := s.popped ++ items }

/-- Two threads that have not begun. -/
def start (queue : Queue n) : Threads n :=
  { queue, producer := .idle, consumer := .idle, pushed := [], popped := [] }

end Nuhal.All

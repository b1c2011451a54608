import Nuhal.All.QueueCalls
import Nuhal.Fifo.Safety
import Nuhal.Lib.Simulation

/-!
# The queue is a bounded FIFO (`nuhal_all/src/queue.c:16-80, 107-136`)

`fifo room` is what the queue is for: a list of at most `room` items, pushed at the end and popped
from the front. The queue's own state is two counters modulo `2 ^ 32` and an array of bytes, related
to the list by `Holds`: the list is what was pushed and not popped, and `Held` says where it lies.

* `copyIn_run`, `copyOut_run`: the copy loops. One pass is the step of the thread that copies a byte
  (`push_copy`, `pop_copy`), with nobody in between.
* `queuePushNonblock_run`, `queuePopNonblock_run`: one spec for each function.
* `queue_simulates`: a call is a step of the FIFO with `cap - 1` places.
* `queue_refines_fifo`: so is every sequence of calls on the queue that `queue_init` makes.
-/

namespace Nuhal.Fifo

open Nuhal.Lib Nuhal.All

variable {n cap size : Nat} {queue : Queue n} {pushed popped held : List Item} {item : Item}

/-! ## The specification -/

/-- A FIFO with `room` places: how a call is answered, and what it holds after it. -/
def fifo (room : Nat) : QueueCall → List Item → QueueAnswer × List Item
  | .push item, held =>
    if held.length = room then ((false, none), held) else ((true, none), held ++ [item])
  | .pop out, [] => ((false, out), [])
  | .pop out, item :: rest => ((true, out.map fun buf => item ++ buf.drop item.length), rest)
  | .isFull, held => ((decide (held.length = room), none), held)
  | .isEmpty, held => ((held.isEmpty, none), held)

/-- An item has `size` bytes, and the buffer of a pop has room for one. -/
def Fits (size : Nat) : QueueCall → Prop
  | .push item => item.length = size
  | .pop (some buf) => size ≤ buf.length
  | _ => True

/-- The queue holds these items, the oldest first. -/
def Holds (cap size : Nat) (queue : Queue n) (held : List Item) : Prop :=
  ∃ pushed popped, Held cap size queue pushed popped ∧ pushed = popped ++ held

/-! ## The copy loops -/

theorem ne_itemSize {i : UInt32} (h : Held cap size queue pushed popped) (hi : i.toNat < size) :
    i ≠ queue.itemSize := by
  rintro rfl
  have hsize := h.shape.itemSize
  omega

theorem copyIn_run {index : UInt32} {left : Nat} {i : UInt32}
    (h : Held cap size queue pushed popped)
    (hp : ProducerAt cap size queue pushed.length popped.length (.copying item index i))
    (hleft : i.toNat + left = size) :
    ∃ data, copyIn item index left i queue = (.ok (), { queue with data }) ∧
      Held cap size { queue with data } pushed popped ∧
      ProducerAt cap size { queue with data } pushed.length popped.length
        (.copying item index queue.itemSize) := by
  induction left generalizing queue i with
  | zero =>
    have hi : i = queue.itemSize := UInt32.toNat_inj.mp (hleft.trans h.shape.itemSize.symm)
    exact ⟨queue.data, rfl, h, hi ▸ hp⟩
  | succ left ih =>
    have hi := ne_itemSize h (show i.toNat < size by omega)
    obtain ⟨hlt, hnext⟩ := next_byte h.shape (by omega) hi
    obtain ⟨data, hdata, hheld, hat⟩ := push_copy h hp hi
    have hbyte : copyByteIn item index i queue = (.ok (), { queue with data }) := by
      unfold copyByteIn
      rw [hdata]
    obtain ⟨data', hrest, hheld', hat'⟩ := ih hheld hat (by omega)
    refine ⟨data', ?_, hheld', hat'⟩
    unfold copyIn
    rw [Run.bind_of_ok hbyte]
    exact hrest

/-- A byte of the item is the next one in the caller's buffer. -/
theorem set_next {buf : List UInt8} {i : Nat} {b : UInt8} (hitem : i < item.length)
    (hbuf : i < buf.length) :
    (item.take i ++ buf.drop i).set i b = item.take i ++ [b] ++ buf.drop (i + 1) := by
  have hlength : (item.take i).length = i := List.length_take_of_le (Nat.le_of_lt hitem)
  rw [List.set_append_right _ _ (Nat.le_of_eq hlength), hlength, Nat.sub_self,
    List.drop_eq_getElem_cons hbuf, List.set_cons_zero, List.append_assoc, List.singleton_append]

theorem copyOut_run {index : UInt32} {buf : List UInt8} {left : Nat} {i : UInt32}
    (h : Held cap size queue pushed popped) (hitem : pushed[popped.length]? = some item)
    (hindex : index.toNat = popped.length % cap) (hbuf : size ≤ buf.length)
    (hleft : i.toNat + left = size) :
    copyOut index left i (item.take i.toNat ++ buf.drop i.toNat) queue =
      (.ok (item ++ buf.drop size), queue) := by
  have hlength : item.length = size := h.lengths item (List.mem_of_getElem? hitem)
  induction left generalizing i with
  | zero =>
    have hi : i.toNat = size := hleft
    unfold copyOut
    rw [hi, List.take_of_length_le (Nat.le_of_eq hlength)]
    rfl
  | succ left ih =>
    have hi := ne_itemSize h (show i.toNat < size by omega)
    obtain ⟨hlt, hnext⟩ := next_byte h.shape (by omega) hi
    obtain ⟨b, hget, item', hitem', -, -, htake⟩ :=
      pop_copy h ⟨item, hitem, hindex, Nat.le_of_lt hlt, rfl⟩ hi
    obtain rfl : item = item' := Option.some_inj.mp (hitem.symm.trans hitem')
    have hbyte : copyByteOut index i (item.take i.toNat ++ buf.drop i.toNat) queue =
        (.ok (item.take (i + 1).toNat ++ buf.drop (i + 1).toNat), queue) := by
      have hroom : i.toNat < (item.take i.toNat ++ buf.drop i.toNat).length := by
        simp only [List.length_append, List.length_take, List.length_drop]
        omega
      unfold copyByteOut
      rw [hget]
      dsimp only
      rw [if_pos hroom, set_next (by omega) (by omega), htake, hnext]
    unfold copyOut
    rw [Run.bind_of_ok hbyte]
    exact ih (by omega)

/-! ## The functions -/

theorem queueIsFull_run (h : Held cap size queue pushed popped) :
    queueIsFull queue = (.ok (decide (pushed.length + 1 = popped.length + cap)), queue) := by
  have hiff := isFull_iff h.shape h.le h.room
  rw [← h.write, ← h.read] at hiff
  unfold queueIsFull
  rw [Bool.eq_iff_iff.mpr (hiff.trans decide_eq_true_iff.symm)]

theorem queueIsEmpty_run (h : Held cap size queue pushed popped) :
    queueIsEmpty queue = (.ok (decide (popped.length = pushed.length)), queue) := by
  have hiff := isEmpty_iff h.shape h.le h.room
  rw [← h.write, ← h.read] at hiff
  unfold queueIsEmpty
  rw [Bool.eq_iff_iff.mpr (hiff.trans decide_eq_true_iff.symm)]

/-- Pushing with no room left. -/
theorem queuePushNonblock_full (item : Item) (h : Held cap size queue pushed popped)
    (hfull : pushed.length + 1 = popped.length + cap) :
    queuePushNonblock (some item) queue = (.ok false, queue) := by
  rw [queuePushNonblock, Run.bind_of_ok (queueIsFull_run h), decide_eq_true hfull]
  rfl

/-- Pushing with room left. -/
theorem queuePushNonblock_run (h : Held cap size queue pushed popped) (hitem : item.length = size)
    (hroom : pushed.length + 1 ≠ popped.length + cap) :
    ∃ queue', queuePushNonblock (some item) queue = (.ok true, queue') ∧
      Held cap size queue' (pushed ++ [item]) popped := by
  have hlt : pushed.length + 1 < popped.length + cap := by
    have hle := h.room
    omega
  have hindex : (queueIndex queue queue.writeIndex).toNat = pushed.length % cap := by
    rw [h.write, queueIndex_ofNat h.shape]
  obtain ⟨data, hcopy, hheld, hat⟩ := copyIn_run (i := 0) h
    ⟨hitem, hlt, hindex, Nat.zero_le _, rfl⟩ (Nat.zero_add _)
  refine ⟨_, ?_, push_increment hheld hat rfl⟩
  rw [queuePushNonblock, Run.bind_of_ok (queueIsFull_run h), decide_eq_false hroom,
    if_neg Bool.false_ne_true, Run.bind_get, h.shape.itemSize, Run.bind_of_ok hcopy]
  rfl

/-- Popping when nothing is held. -/
theorem queuePopNonblock_empty {out : Option (List UInt8)}
    (h : Held cap size queue pushed popped) (hempty : popped.length = pushed.length) :
    queuePopNonblock out queue = (.ok (false, out), queue) := by
  unfold queuePopNonblock
  rw [Run.bind_of_ok (queueIsEmpty_run h), decide_eq_true hempty]
  rfl

/-- Popping when something is held. -/
theorem queuePopNonblock_run {out : Option (List UInt8)} (h : Held cap size queue pushed popped)
    (hitem : pushed[popped.length]? = some item) (hout : Fits size (.pop out)) :
    ∃ queue', queuePopNonblock out queue =
        (.ok (true, out.map fun buf => item ++ buf.drop item.length), queue') ∧
      Held cap size queue' pushed (popped ++ [item]) := by
  have hlength : item.length = size := h.lengths item (List.mem_of_getElem? hitem)
  have hsome : ¬ popped.length = pushed.length :=
    Nat.ne_of_lt (List.getElem?_eq_some_iff.mp hitem).1
  have hindex : (queueIndex queue queue.readIndex).toNat = popped.length % cap := by
    rw [h.read, queueIndex_ofNat h.shape]
  refine ⟨_, ?_, h.pop hitem⟩
  unfold queuePopNonblock
  rw [Run.bind_of_ok (queueIsEmpty_run h), decide_eq_false hsome, if_neg Bool.false_ne_true,
    Run.bind_get]
  cases out with
  | none => rfl
  | some buf =>
    have hcopy := copyOut_run (i := 0) h hitem hindex hout (Nat.zero_add _)
    have hmap : (some <$> copyOut (queueIndex queue queue.readIndex) queue.itemSize.toNat 0 buf)
        queue = (.ok (some (item ++ buf.drop size)), queue) := by
      rw [h.shape.itemSize]
      exact Run.bind_of_ok hcopy _
    dsimp only
    rw [Run.bind_of_ok hmap, hlength]
    rfl

/-! ## Any sequence of calls -/

theorem Holds.length_le (h : Holds cap size queue held) : held.length ≤ cap - 1 := by
  obtain ⟨pushed, popped, hheld, rfl⟩ := h
  have hroom := hheld.room
  rw [List.length_append] at hroom
  omega

/-- The queue is full when the FIFO is. -/
theorem full_iff (h : Held cap size queue (popped ++ held) popped) :
    (popped ++ held).length + 1 = popped.length + cap ↔ held.length = cap - 1 := by
  have htwo := h.shape.two
  rw [List.length_append]
  omega

theorem empty_iff : popped.length = (popped ++ held).length ↔ held = [] := by
  rw [List.length_append, ← List.length_eq_zero_iff]
  omega

/-- **A call is a step of the FIFO.** -/
theorem queue_simulates : Simulates (Holds (n := n) cap size) (Fits size) queueCall
    (fifo (cap - 1)) := by
  rintro call queue held hfit ⟨pushed, popped, h, rfl⟩
  cases call with
  | push item =>
    by_cases hfull : held.length = cap - 1
    · have hrun := queuePushNonblock_full item h ((full_iff h).mpr hfull)
      refine ⟨queue, ?_, ?_⟩
      · rw [fifo, if_pos hfull]
        exact Run.bind_of_ok hrun _
      · rw [fifo, if_pos hfull]
        exact ⟨_, popped, h, rfl⟩
    · obtain ⟨queue', hrun, h'⟩ := queuePushNonblock_run h hfit (mt (full_iff h).mp hfull)
      refine ⟨queue', ?_, ?_⟩
      · rw [fifo, if_neg hfull]
        exact Run.bind_of_ok hrun _
      · rw [fifo, if_neg hfull]
        exact ⟨_, popped, h', List.append_assoc popped held [item]⟩
  | pop out =>
    cases held with
    | nil => exact ⟨queue, queuePopNonblock_empty h (empty_iff.mpr rfl), _, popped, h, rfl⟩
    | cons item rest =>
      have hitem : (popped ++ item :: rest)[popped.length]? = some item := by
        rw [List.getElem?_append_right (Nat.le_refl _), Nat.sub_self]
        rfl
      obtain ⟨queue', hrun, h'⟩ := queuePopNonblock_run h hitem hfit
      exact ⟨queue', hrun, _, popped ++ [item], h', List.append_cons popped item rest⟩
  | isFull =>
    refine ⟨queue, ?_, _, popped, h, rfl⟩
    rw [fifo, ← decide_eq_decide.mpr (full_iff h)]
    exact Run.bind_of_ok (queueIsFull_run h) _
  | isEmpty =>
    refine ⟨queue, ?_, _, popped, h, rfl⟩
    have hdecide : held.isEmpty = decide (popped.length = (popped ++ held).length) := by
      rw [Bool.eq_iff_iff, decide_eq_true_iff, empty_iff, List.isEmpty_iff]
    rw [fifo, hdecide]
    exact Run.bind_of_ok (queueIsEmpty_run h) _

/-- A queue as `queue_init` makes it holds nothing. -/
theorem holds_init (hshape : Shape cap size queue) (hwrite : queue.writeIndex = 0)
    (hread : queue.readIndex = 0) : Holds cap size queue [] :=
  ⟨[], [], (Safe.start hshape hwrite hread).held, rfl⟩

/-- **The queue is a FIFO of `capacity - 1` places.** Calls are answered as a list of items would
answer them, in every sequence of calls and however often the two indices wrap around; a push that
is turned away, a pop of nothing and the two questions leave the queue as it was. -/
theorem queue_refines_fifo {capacity itemSize : UInt32} (hpower : capacity.toNat.isPowerOfTwo)
    (htwo : 2 ≤ capacity.toNat) (hbytes : capacity.toNat * itemSize.toNat < 2 ^ 32)
    (data : Vector UInt8 (capacity.toNat * itemSize.toNat)) {calls : List QueueCall}
    (hfit : ∀ call ∈ calls, Fits itemSize.toNat call) :
    ∃ queue queue' held, queueInit capacity itemSize data = .ok queue ∧
      callAll queueCall calls queue =
        (.ok (specAll (fifo (capacity.toNat - 1)) calls []).1, queue') ∧
      held = (specAll (fifo (capacity.toNat - 1)) calls []).2 ∧
      held.length ≤ capacity.toNat - 1 ∧
      (held.length = capacity.toNat - 1 → ∀ item,
        queuePushNonblock (some item) queue' = (.ok false, queue')) ∧
      (held = [] → ∀ out, queuePopNonblock out queue' = (.ok (false, out), queue')) ∧
      queueIsFull queue' = (.ok (decide (held.length = capacity.toNat - 1)), queue') ∧
      queueIsEmpty queue' = (.ok (decide (held = [])), queue') := by
  obtain ⟨queue, hinit, hshape, hwrite, hread⟩ := queueInit_shape hpower htwo hbytes data
  obtain ⟨queue', hcalls, hholds⟩ := queue_simulates.calls hfit (holds_init hshape hwrite hread)
  obtain ⟨pushed, popped, h, rfl⟩ := id hholds
  refine ⟨queue, queue', _, hinit, hcalls, rfl, hholds.length_le, ?_, ?_, ?_, ?_⟩
  · intro hfull item
    exact queuePushNonblock_full item h ((full_iff h).mpr hfull)
  · intro hempty out
    exact queuePopNonblock_empty h (empty_iff.mpr hempty)
  · rw [queueIsFull_run h, decide_eq_decide.mpr (full_iff h)]
  · rw [queueIsEmpty_run h, decide_eq_decide.mpr empty_iff]

/-- A run that fills a queue of two slots of one byte, is turned away, and empties it. -/
theorem queue_refines_fifo_two :
    ∃ queue queue' held, queueInit 2 1 (Vector.replicate (2 * 1) 0) = .ok queue ∧
      callAll queueCall [.push [7], .isFull, .push [8], .pop (some [0, 1]), .pop none] queue =
        (.ok [(true, none), (true, none), (false, none), (true, some [7, 1]), (false, none)],
          queue') ∧
      held = ([] : List Item) ∧
        queueIsEmpty queue' = (.ok (decide (held = [])), queue') := by
  obtain ⟨queue, queue', held, hinit, hcalls, hheld, -, -, -, -, hempty⟩ :=
    @queue_refines_fifo 2 1 ⟨1, rfl⟩ (by decide) (by decide) (Vector.replicate (2 * 1) 0)
      [.push [7], .isFull, .push [8], .pop (some [0, 1]), .pop none] (by
        intro call hcall
        simp only [List.mem_cons, List.not_mem_nil, or_false] at hcall
        rcases hcall with rfl | rfl | rfl | rfl | rfl <;> simp [Fits])
  exact ⟨queue, queue', held, hinit, hcalls, hheld, hempty⟩

end Nuhal.Fifo

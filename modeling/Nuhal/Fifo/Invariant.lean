import Nuhal.Fifo.Indices

/-!
# What the two threads keep

`Held` is what the queue's memory and the two counts satisfy between any two steps, `ProducerAt` and
`ConsumerAt` what a thread at a program counter may rely on while the other one goes on. An index
that a thread has read of the other one's is a count of an earlier moment: it can have grown since,
and that only makes room or items.

* `Held.write_slot`: bytes written into the slot after the last item disturb no item.
* `Held.push`, `Held.pop`: the two increments.
* `ProducerAt.mono`, `ConsumerAt.mono`: a thread does not disturb the other.
-/

namespace Nuhal.Fifo

open Nuhal.Lib Nuhal.All

variable {n cap size : Nat} {queue : Queue n} {pushed popped : List Item} {item : Item}

/-! ## The queue -/

/-- The queue holds the items that were pushed and not popped. -/
structure Held (cap size : Nat) (queue : Queue n) (pushed popped : List Item) : Prop where
  shape : Shape cap size queue
  write : queue.writeIndex = UInt32.ofNat pushed.length
  read : queue.readIndex = UInt32.ofNat popped.length
  /-- What was popped is what was pushed, in order. -/
  order : popped <+: pushed
  /-- One slot is always unused. -/
  room : pushed.length < popped.length + cap
  slots : ∀ j, popped.length ≤ j → ∀ item, pushed[j]? = some item →
    slot queue.data size (j % cap) = item
  lengths : ∀ item ∈ pushed, item.length = size

theorem Held.le (h : Held cap size queue pushed popped) : popped.length ≤ pushed.length :=
  h.order.length_le

/-- Writing inside the slot after the last item. -/
theorem Held.write_slot (h : Held cap size queue pushed popped) {off : Nat} {b : UInt8}
    {data : Vector UInt8 n} (hoff : off < size)
    (hstore : store queue.data (pushed.length % cap * size + off) [b] = some data) :
    Held cap size { queue with data } pushed popped := by
  refine ⟨h.shape.congr rfl rfl, h.write, h.read, h.order, h.room, ?_, h.lengths⟩
  intro j hj item hitem
  have hlt := (List.getElem?_eq_some_iff.mp hitem).1
  have hroom := h.room
  have hne : j % cap ≠ pushed.length % cap := mod_ne hlt (by omega)
  have hsame : slot data size (j % cap) = slot queue.data size (j % cap) :=
    slot_store hstore (show off + [b].length ≤ size from hoff) hne
  rw [hsame]
  exact h.slots j hj item hitem

/-- The increment of `write_index`. -/
theorem Held.push (h : Held cap size queue pushed popped)
    (hroom : pushed.length + 1 < popped.length + cap) (hlength : item.length = size)
    (hslot : slot queue.data size (pushed.length % cap) = item) :
    Held cap size { queue with writeIndex := queue.writeIndex + 1 } (pushed ++ [item]) popped := by
  refine ⟨h.shape.congr rfl rfl, ?_, h.read, h.order.trans (List.prefix_append pushed [item]),
    ?_, ?_, ?_⟩
  · show queue.writeIndex + 1 = _
    rw [h.write, ofNat_succ, List.length_append, List.length_singleton]
  · rw [List.length_append, List.length_singleton]
    exact hroom
  · intro j hj item' hitem
    by_cases hlt : j < pushed.length
    · rw [List.getElem?_append_left hlt] at hitem
      exact h.slots j hj item' hitem
    · obtain ⟨hle, hget⟩ := List.getElem?_eq_some_iff.mp hitem
      rw [List.length_append, List.length_singleton] at hle
      obtain rfl : j = pushed.length := by omega
      rw [← hget, List.getElem_concat_length rfl]
      exact hslot
  · intro item' hitem
    rcases List.mem_append.mp hitem with hold | hnew
    · exact h.lengths item' hold
    · rw [List.mem_singleton.mp hnew]
      exact hlength

/-- The increment of `read_index`. -/
theorem Held.pop (h : Held cap size queue pushed popped)
    (hitem : pushed[popped.length]? = some item) :
    Held cap size { queue with readIndex := queue.readIndex + 1 } pushed (popped ++ [item]) := by
  obtain ⟨hlt, hget⟩ := List.getElem?_eq_some_iff.mp hitem
  refine ⟨h.shape.congr rfl rfl, h.write, ?_, ?_, ?_, ?_, h.lengths⟩
  · show queue.readIndex + 1 = _
    rw [h.read, ofNat_succ, List.length_append, List.length_singleton]
  · have htake : popped = pushed.take popped.length := List.prefix_iff_eq_take.mp h.order
    have hmore : popped ++ [item] = pushed.take (popped.length + 1) := by
      rw [List.take_add_one, hitem, ← htake]
      rfl
    rw [hmore]
    exact List.take_prefix _ _
  · have hroom := h.room
    rw [List.length_append, List.length_singleton]
    omega
  · intro j hj item' hitem'
    rw [List.length_append, List.length_singleton] at hj
    exact h.slots j (by omega) item' hitem'

/-! ## The threads -/

/-- What the producer knows, `pushed` and `popped` being the two counts. -/
def ProducerAt (cap size : Nat) (queue : Queue n) (pushed popped : Nat) : Producer → Prop
  | .idle => True
  | .looping item _ => item.length = size
  | .checking item _ => item.length = size
  | .gotWrite item _ writeIndex => item.length = size ∧ writeIndex = queue.writeIndex
  | .gotRead item _ readIndex =>
    item.length = size ∧ ∃ r, readIndex = UInt32.ofNat r ∧ r ≤ popped ∧ pushed < r + cap
  | .locating item => item.length = size ∧ pushed + 1 < popped + cap
  | .copying item index i =>
    item.length = size ∧ pushed + 1 < popped + cap ∧ index.toNat = pushed % cap ∧
      i.toNat ≤ size ∧ window queue.data (pushed % cap * size) i.toNat = item.take i.toNat
  | .stopped => True
  | .undefined => False

/-- What the consumer knows. -/
def ConsumerAt (cap size : Nat) (queue : Queue n) (pushed : List Item) (popped : Nat) :
    Consumer → Prop
  | .idle => True
  | .looping _ => True
  | .checking _ => True
  | .gotRead _ readIndex => readIndex = queue.readIndex
  | .gotWrite _ writeIndex =>
    ∃ w, writeIndex = UInt32.ofNat w ∧ popped ≤ w ∧ w ≤ pushed.length
  | .locating => popped < pushed.length
  | .copying index i out => ∃ item, pushed[popped]? = some item ∧ index.toNat = popped % cap ∧
      i.toNat ≤ size ∧ out = item.take i.toNat
  | .stopped => True
  | .undefined => False

/-- A pop does not disturb the producer. -/
theorem ProducerAt.mono {w r r' : Nat} {readIndex : UInt32} {producer : Producer}
    (h : ProducerAt cap size queue w r producer) (hle : r ≤ r') :
    ProducerAt cap size { queue with readIndex } w r' producer := by
  cases producer with
  | idle => exact h
  | looping item timeout => exact h
  | checking item caller => exact h
  | gotWrite item caller writeIndex => exact h
  | gotRead item caller index =>
    obtain ⟨hlength, k, hk, hkr, hlt⟩ := h
    exact ⟨hlength, k, hk, Nat.le_trans hkr hle, hlt⟩
  | locating item => exact ⟨h.1, Nat.lt_of_lt_of_le h.2 (Nat.add_le_add_right hle cap)⟩
  | copying item index i =>
    obtain ⟨hlength, hroom, hindex, hi, hwindow⟩ := h
    exact ⟨hlength, Nat.lt_of_lt_of_le hroom (Nat.add_le_add_right hle cap), hindex, hi, hwindow⟩
  | stopped => exact h
  | undefined => exact h

/-- Neither a byte that the producer writes nor a push disturbs the consumer. -/
theorem ConsumerAt.mono {queue' : Queue n} {items : List Item} {r : Nat} {consumer : Consumer}
    (h : ConsumerAt cap size queue pushed r consumer) (hread : queue'.readIndex = queue.readIndex) :
    ConsumerAt cap size queue' (pushed ++ items) r consumer := by
  have hlength : pushed.length ≤ (pushed ++ items).length := by
    rw [List.length_append]
    exact Nat.le_add_right _ _
  cases consumer with
  | idle => exact h
  | looping timeout => exact h
  | checking caller => exact h
  | gotRead caller readIndex => exact h.trans hread.symm
  | gotWrite caller writeIndex =>
    obtain ⟨w, hw, hle, hle'⟩ := h
    exact ⟨w, hw, hle, Nat.le_trans hle' hlength⟩
  | locating => exact Nat.lt_of_lt_of_le h hlength
  | copying index i out =>
    obtain ⟨item, hitem, hrest⟩ := h
    refine ⟨item, ?_, hrest⟩
    rw [List.getElem?_append_left (List.getElem?_eq_some_iff.mp hitem).1]
    exact hitem
  | stopped => exact h
  | undefined => exact h

end Nuhal.Fifo

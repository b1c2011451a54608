import Nuhal.Fifo.Invariant

/-!
# What is popped is what was pushed (`nuhal_all/src/queue.c:61-158`)

One thread pushes and one pops, and their steps interleave in any order.

* `pushStep_keeps`, `popStep_keeps`: one step of a thread keeps what the queue satisfies and what
  the thread knows.
* `Safe.step`: with `ProducerAt.mono` and `ConsumerAt.mono`, a step keeps the invariant of both.
* `queue_safe`: after every run the popped items are the first of the pushed ones, byte for byte,
  no thread has left the buffer, and one slot is unused.
-/

namespace Nuhal.Fifo

open Nuhal.Lib Nuhal.All

variable {n cap size : Nat} {queue queue' : Queue n} {pushed popped items : List Item}

/-! ## The producer -/

theorem pushFailed_at {w r : Nat} {item : Item} (caller : Option UInt32)
    (hlength : item.length = size) : ProducerAt cap size queue w r (pushFailed item caller) := by
  cases caller with
  | none => trivial
  | some timeout => exact hlength

/-- The comparison with a `read_index` of an earlier moment: not full then is not full now. -/
theorem pushChecked_at {w r k : Nat} {item : Item} (caller : Option UInt32)
    (hshape : Shape cap size queue) (hlength : item.length = size) (hkr : k ≤ r) (hrw : r ≤ w)
    (hlt : w < k + cap) :
    ProducerAt cap size queue w r
      (pushChecked queue item caller (UInt32.ofNat w) (UInt32.ofNat k)) := by
  unfold pushChecked
  by_cases hfull : isFull queue (UInt32.ofNat w) (UInt32.ofNat k) = true
  · rw [if_pos hfull]
    exact pushFailed_at caller hlength
  · rw [if_neg hfull]
    have hne : w + 1 ≠ k + cap := mt (isFull_iff hshape (Nat.le_trans hkr hrw) hlt).mpr hfull
    exact ⟨hlength, by omega⟩

/-- A byte of the item goes into the slot after the last item. -/
theorem push_copy {item : Item} {index i : UInt32} (h : Held cap size queue pushed popped)
    (hp : ProducerAt cap size queue pushed.length popped.length (.copying item index i))
    (hi : i ≠ queue.itemSize) :
    ∃ data, (item[i.toNat]?.bind fun b => store queue.data (byteIndex queue index i) [b]) =
        some data ∧ Held cap size { queue with data } pushed popped ∧
      ProducerAt cap size { queue with data } pushed.length popped.length
        (.copying item index (i + 1)) := by
  obtain ⟨hlength, hroom, hindex, hle, hwindow⟩ := hp
  obtain ⟨hlt, hnext⟩ := next_byte h.shape hle hi
  have hslot : pushed.length % cap < cap := Nat.mod_lt _ (Nat.lt_of_succ_lt h.shape.two)
  have hbyte : byteIndex queue index i = pushed.length % cap * size + i.toNat := by
    rw [byteIndex_eq h.shape (hindex ▸ hslot) hlt, hindex]
  obtain ⟨b, hget⟩ : ∃ b, item[i.toNat]? = some b :=
    ⟨_, List.getElem?_eq_getElem (hlength ▸ hlt)⟩
  have hfits : pushed.length % cap * size + i.toNat + 1 ≤ n := by
    have hend := slot_end size hslot
    rw [← h.shape.room]
    omega
  obtain ⟨data, hstore⟩ := exists_store queue.data (show _ + [b].length ≤ n from hfits)
  refine ⟨data, ?_, h.write_slot hlt hstore, hlength, hroom, hindex, ?_, ?_⟩
  · rw [hget, hbyte]
    exact hstore
  · rw [hnext]
    exact hlt
  · rw [hnext, window_store_next hstore, hwindow, List.take_add_one, hget]
    rfl

/-- All of the item is in its slot when `write_index` is incremented. -/
theorem push_increment {item : Item} {index i : UInt32} (h : Held cap size queue pushed popped)
    (hp : ProducerAt cap size queue pushed.length popped.length (.copying item index i))
    (hi : i = queue.itemSize) :
    Held cap size { queue with writeIndex := queue.writeIndex + 1 } (pushed ++ [item]) popped := by
  obtain ⟨hlength, hroom, -, -, hwindow⟩ := hp
  have hwhole : item.take size = item := List.take_of_length_le (Nat.le_of_eq hlength)
  rw [hi, h.shape.itemSize] at hwindow
  exact h.push hroom hlength (hwindow.trans hwhole)

/-- Where a step only moves the producer. -/
theorem pushStep_moves {producer : Producer} (h : Held cap size queue pushed popped)
    (hp : ProducerAt cap size queue pushed.length popped.length producer) :
    Held cap size queue (pushed ++ []) popped ∧
      ProducerAt cap size queue (pushed ++ []).length popped.length producer ∧
      queue.readIndex = queue.readIndex := by
  rw [List.append_nil]
  exact ⟨h, hp, rfl⟩

/-- **A step of the producer.** -/
theorem pushStep_keeps {action : PushAction} {producer producer' : Producer}
    (hstep : pushStep action queue producer = some (queue', producer', items))
    (h : Held cap size queue pushed popped)
    (hp : ProducerAt cap size queue pushed.length popped.length producer) :
    Held cap size queue' (pushed ++ items) popped ∧
      ProducerAt cap size queue' (pushed ++ items).length popped.length producer' ∧
      queue'.readIndex = queue.readIndex := by
  cases producer with
  | idle =>
    cases action with
    | call item caller =>
      obtain ⟨hlength, hstep⟩ := Option.ite_none_right_eq_some.mp hstep
      have hlength' : item.length = size := hlength.trans h.shape.itemSize
      cases caller with
      | none =>
        cases hstep
        exact pushStep_moves h hlength'
      | some timeout =>
        cases hstep
        exact pushStep_moves h hlength'
    | _ => cases hstep
  | looping item timeout =>
    cases action with
    | look inTime =>
      cases hstep
      refine pushStep_moves h ?_
      split
      · exact hp
      · trivial
    | _ => cases hstep
  | checking item caller =>
    cases action with
    | readWrite =>
      cases hstep
      exact pushStep_moves h ⟨hp, rfl⟩
    | readRead =>
      cases hstep
      exact pushStep_moves h ⟨hp, popped.length, h.read, Nat.le_refl _, h.room⟩
    | _ => cases hstep
  | gotWrite item caller writeIndex =>
    cases action with
    | readRead =>
      obtain ⟨hlength, rfl⟩ := hp
      cases hstep
      have hat := pushChecked_at caller h.shape hlength (Nat.le_refl _) h.le h.room
      rw [← h.write, ← h.read] at hat
      exact pushStep_moves h hat
    | _ => cases hstep
  | gotRead item caller readIndex =>
    cases action with
    | readWrite =>
      obtain ⟨hlength, k, rfl, hkr, hlt⟩ := hp
      cases hstep
      rw [h.write]
      exact pushStep_moves h (pushChecked_at caller h.shape hlength hkr h.le hlt)
    | _ => cases hstep
  | locating item =>
    cases action with
    | readWrite =>
      cases hstep
      refine pushStep_moves h ⟨hp.1, hp.2, ?_, Nat.zero_le _, rfl⟩
      rw [h.write]
      exact queueIndex_ofNat h.shape _
    | _ => cases hstep
  | copying item index i =>
    cases action with
    | copy =>
      obtain ⟨hi, hstep⟩ := Option.ite_none_right_eq_some.mp hstep
      obtain ⟨data, hdata, hheld, hat⟩ := push_copy h hp hi
      rw [hdata] at hstep
      cases hstep
      exact pushStep_moves hheld hat
    | increment =>
      obtain ⟨hi, hstep⟩ := Option.ite_none_right_eq_some.mp hstep
      cases hstep
      exact ⟨push_increment h hp hi, trivial, rfl⟩
    | _ => cases hstep
  | stopped => cases action <;> cases hstep
  | undefined => cases hp

/-! ## The consumer -/

theorem popFailed_at {r : Nat} (caller : Option UInt32) :
    ConsumerAt cap size queue pushed r (popFailed caller) := by
  cases caller with
  | none => trivial
  | some timeout => trivial

/-- The comparison with a `write_index` of an earlier moment: not empty then is not empty now. -/
theorem popChecked_at {r w : Nat} (caller : Option UInt32) (hshape : Shape cap size queue)
    (hrw : r ≤ w) (hw : w ≤ pushed.length) (hroom : pushed.length < r + cap) :
    ConsumerAt cap size queue pushed r
      (popChecked queue caller (UInt32.ofNat r) (UInt32.ofNat w)) := by
  unfold popChecked
  by_cases hempty : isEmpty queue (UInt32.ofNat r) (UInt32.ofNat w) = true
  · rw [if_pos hempty]
    exact popFailed_at caller
  · rw [if_neg hempty]
    have hne : r ≠ w := mt (isEmpty_iff hshape hrw (Nat.lt_of_le_of_lt hw hroom)).mpr hempty
    exact Nat.lt_of_lt_of_le (Nat.lt_of_le_of_ne hrw hne) hw

/-- A byte of the first item comes out of its slot. -/
theorem pop_copy {index i : UInt32} {out : Item} (h : Held cap size queue pushed popped)
    (hp : ConsumerAt cap size queue pushed popped.length (.copying index i out))
    (hi : i ≠ queue.itemSize) :
    ∃ b, queue.data[byteIndex queue index i]? = some b ∧
      ConsumerAt cap size queue pushed popped.length (.copying index (i + 1) (out ++ [b])) := by
  obtain ⟨item, hitem, hindex, hle, rfl⟩ := hp
  obtain ⟨hlt, hnext⟩ := next_byte h.shape hle hi
  have hslot : popped.length % cap < cap := Nat.mod_lt _ (Nat.lt_of_succ_lt h.shape.two)
  have hlength : item.length = size := h.lengths item (List.mem_of_getElem? hitem)
  obtain ⟨b, hget⟩ : ∃ b, item[i.toNat]? = some b :=
    ⟨_, List.getElem?_eq_getElem (hlength ▸ hlt)⟩
  refine ⟨b, ?_, item, hitem, hindex, ?_, ?_⟩
  · rw [byteIndex_eq h.shape (hindex ▸ hslot) hlt, hindex, ← hget,
      ← h.slots _ (Nat.le_refl _) item hitem, slot, window, List.getElem?_take_of_lt hlt,
      List.getElem?_drop, Vector.getElem?_toList]
  · rw [hnext]
    exact hlt
  · rw [hnext, List.take_add_one, hget]
    rfl

/-- All of the item is out of its slot when `read_index` is incremented. -/
theorem pop_increment {index i : UInt32} {out : Item} (h : Held cap size queue pushed popped)
    (hp : ConsumerAt cap size queue pushed popped.length (.copying index i out))
    (hi : i = queue.itemSize) :
    Held cap size { queue with readIndex := queue.readIndex + 1 } pushed (popped ++ [out]) := by
  obtain ⟨item, hitem, -, -, rfl⟩ := hp
  have hlength : item.length = size := h.lengths item (List.mem_of_getElem? hitem)
  rw [hi, h.shape.itemSize, List.take_of_length_le (Nat.le_of_eq hlength)]
  exact h.pop hitem

/-- Where a step only moves the consumer. -/
theorem popStep_moves {consumer : Consumer} (h : Held cap size queue pushed popped)
    (hp : ConsumerAt cap size queue pushed popped.length consumer) :
    Held cap size queue pushed (popped ++ []) ∧
      ConsumerAt cap size queue pushed (popped ++ []).length consumer ∧
      ∃ readIndex, queue = { queue with readIndex } := by
  rw [List.append_nil]
  exact ⟨h, hp, queue.readIndex, rfl⟩

/-- **A step of the consumer.** -/
theorem popStep_keeps {action : PopAction} {consumer consumer' : Consumer}
    (hstep : popStep action queue consumer = some (queue', consumer', items))
    (h : Held cap size queue pushed popped)
    (hp : ConsumerAt cap size queue pushed popped.length consumer) :
    Held cap size queue' pushed (popped ++ items) ∧
      ConsumerAt cap size queue' pushed (popped ++ items).length consumer' ∧
      ∃ readIndex, queue' = { queue with readIndex } := by
  cases consumer with
  | idle =>
    cases action with
    | call caller =>
      cases caller with
      | none =>
        cases hstep
        exact popStep_moves h trivial
      | some timeout =>
        cases hstep
        exact popStep_moves h trivial
    | _ => cases hstep
  | looping timeout =>
    cases action with
    | look inTime =>
      cases hstep
      refine popStep_moves h ?_
      split
      · trivial
      · trivial
    | _ => cases hstep
  | checking caller =>
    cases action with
    | readRead =>
      cases hstep
      exact popStep_moves h rfl
    | readWrite =>
      cases hstep
      exact popStep_moves h ⟨pushed.length, h.write, h.le, Nat.le_refl _⟩
    | _ => cases hstep
  | gotRead caller readIndex =>
    cases action with
    | readWrite =>
      cases hp
      cases hstep
      have hat := popChecked_at caller h.shape h.le (Nat.le_refl _) h.room
      rw [← h.read, ← h.write] at hat
      exact popStep_moves h hat
    | _ => cases hstep
  | gotWrite caller writeIndex =>
    cases action with
    | readRead =>
      obtain ⟨w, rfl, hle, hle'⟩ := hp
      cases hstep
      have hat := popChecked_at caller h.shape hle hle' h.room
      rw [← h.read] at hat
      exact popStep_moves h hat
    | _ => cases hstep
  | locating =>
    cases action with
    | readRead =>
      cases hstep
      refine popStep_moves h ⟨_, List.getElem?_eq_getElem hp, ?_, Nat.zero_le _, rfl⟩
      rw [h.read]
      exact queueIndex_ofNat h.shape _
    | _ => cases hstep
  | copying index i out =>
    cases action with
    | copy =>
      obtain ⟨hi, hstep⟩ := Option.ite_none_right_eq_some.mp hstep
      obtain ⟨b, hb, hat⟩ := pop_copy h hp hi
      rw [hb] at hstep
      cases hstep
      exact popStep_moves h hat
    | increment =>
      obtain ⟨hi, hstep⟩ := Option.ite_none_right_eq_some.mp hstep
      cases hstep
      exact ⟨pop_increment h hp hi, trivial, _, rfl⟩
    | _ => cases hstep
  | stopped => cases action <;> cases hstep
  | undefined => cases hp

/-! ## Both -/

/-- The invariant of the two threads. -/
structure Safe (cap size : Nat) (s : Threads n) : Prop where
  held : Held cap size s.queue s.pushed s.popped
  producer : ProducerAt cap size s.queue s.pushed.length s.popped.length s.producer
  consumer : ConsumerAt cap size s.queue s.pushed s.popped.length s.consumer

theorem Safe.start (hshape : Shape cap size queue) (hwrite : queue.writeIndex = 0)
    (hread : queue.readIndex = 0) : Safe cap size (start queue) := by
  refine ⟨⟨hshape, hwrite, hread, List.prefix_rfl, ?_, ?_, ?_⟩, trivial, trivial⟩
  · have htwo := hshape.two
    show 0 < 0 + cap
    omega
  · intro j _ item hitem
    cases hitem
  · intro item hitem
    cases hitem

/-- **A step of either thread keeps the invariant of both.** -/
theorem Safe.step {action : Action} {s s' : Threads n} (hstep : step action s = some s')
    (h : Safe cap size s) : Safe cap size s' := by
  cases action with
  | push action =>
    obtain ⟨⟨queue, producer, items⟩, hpush, rfl⟩ := Option.map_eq_some_iff.mp hstep
    obtain ⟨hheld, hat, hread⟩ := pushStep_keeps hpush h.held h.producer
    exact ⟨hheld, hat, h.consumer.mono hread⟩
  | pop action =>
    obtain ⟨⟨queue, consumer, items⟩, hpop, rfl⟩ := Option.map_eq_some_iff.mp hstep
    obtain ⟨hheld, hat, readIndex, rfl⟩ := popStep_keeps hpop h.held h.consumer
    refine ⟨hheld, h.producer.mono ?_, hat⟩
    rw [List.length_append]
    exact Nat.le_add_right _ _

/-- At most `cap - 1` items are held. -/
theorem Safe.held_le {s : Threads n} (h : Safe cap size s) :
    (s.queue.writeIndex - s.queue.readIndex).toNat ≤ cap - 1 := by
  have hroom := h.held.room
  rw [h.held.write, h.held.read, sub_ofNat h.held.shape h.held.le hroom]
  omega

/-- The bytes that a pop has copied are the first bytes of the item it is about to return. -/
theorem Safe.copied {s : Threads n} (h : Safe cap size s) {index i : UInt32} {out : Item}
    (hcopying : s.consumer = .copying index i out) :
    ∃ item, s.pushed[s.popped.length]? = some item ∧ out <+: item := by
  have hat := h.consumer
  rw [hcopying] at hat
  obtain ⟨item, hitem, -, -, rfl⟩ := hat
  exact ⟨item, hitem, List.take_prefix _ _⟩

/-- **A queue of any capacity that `queue_init` accepts, with one thread that pushes and one that
pops, in any order of their steps and for any number of them**: the items popped are the first of
the items pushed, byte for byte and in order; what a pop has copied so far is the beginning of the
next one; no thread touches memory outside of the buffer; the difference of the indices, modulo
`2 ^ 32`, is at most the capacity less one. -/
theorem queue_safe (capacity itemSize : UInt32) (hpower : capacity.toNat.isPowerOfTwo)
    (htwo : 1 < capacity.toNat) (hbytes : capacity.toNat * itemSize.toNat < 2 ^ 32)
    (data : Vector UInt8 (capacity.toNat * itemSize.toNat)) :
    ∃ queue, queueInit capacity itemSize data = .ok queue ∧
      ∀ actions s, run step actions (start queue) = some s →
        s.popped <+: s.pushed ∧
        (∀ index i out, s.consumer = .copying index i out →
          ∃ item, s.pushed[s.popped.length]? = some item ∧ out <+: item) ∧
        s.producer ≠ .undefined ∧ s.consumer ≠ .undefined ∧
        (s.queue.writeIndex - s.queue.readIndex).toNat ≤ capacity.toNat - 1 := by
  obtain ⟨queue, hinit, hshape, hwrite, hread⟩ := queueInit_shape hpower htwo hbytes data
  refine ⟨queue, hinit, ?_⟩
  intro actions s hrun
  have h : Safe capacity.toNat itemSize.toNat s :=
    run_invariant (fun _ _ _ => Safe.step) hrun (Safe.start hshape hwrite hread)
  refine ⟨h.held.order, fun _ _ _ => h.copied, ?_, ?_, h.held_le⟩
  · intro hundefined
    have hat := h.producer
    rw [hundefined] at hat
    exact hat
  · intro hundefined
    have hat := h.consumer
    rw [hundefined] at hat
    exact hat

/-- Two slots of two bytes. -/
theorem queue_safe_two :
    ∃ queue, queueInit 2 2 (Vector.replicate 4 0) = .ok queue ∧
      ∀ actions s, run step actions (start queue) = some s →
        s.popped <+: s.pushed ∧
        (∀ index i out, s.consumer = .copying index i out →
          ∃ item, s.pushed[s.popped.length]? = some item ∧ out <+: item) ∧
        s.producer ≠ .undefined ∧ s.consumer ≠ .undefined ∧
        (s.queue.writeIndex - s.queue.readIndex).toNat ≤ 1 :=
  queue_safe 2 2 ⟨1, rfl⟩ (by decide) (by decide) _

/-- A blocking pop reads `write_index` before a push and `read_index` after it, so the queue is
empty to it; it goes round its loop and pops the item. -/
example :
    (((queueInit 2 1 (Vector.replicate 2 0)).toOption.map start).bind (run step
      [.pop (.call (some 0)), .push (.call [7] none), .pop (.look false), .pop .readWrite,
        .push .readRead, .push .readWrite, .push .readWrite, .push .copy, .push .increment,
        .pop .readRead, .pop (.look false), .pop .readRead, .pop .readWrite, .pop .readRead,
        .pop .copy, .pop .increment])).map (fun s => (s.pushed, s.popped)) =
      some ([[7]], [[7]]) := by
  decide +kernel

end Nuhal.Fifo

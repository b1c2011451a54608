import Nuhal.Fifo.Safety

/-!
# No thread waits for the other (`nuhal_all/src/queue.c:50-158`)

The queue has no lock: a thread inside of a call can always go on, wherever the other one stands and
even if that one never takes a step again, and it needs no more steps than the call has on its
longest path. `rank` counts what is left of that path. The loops of the blocking functions go round
any number of times, but from one look at the clock to the next it is the same path.

* `pushStep_rank`, `popStep_rank`: a step inside of a call leaves one step less.
* `queue_wait_free`: the bound, for every interleaving.
-/

namespace Nuhal.Fifo

open Nuhal.Lib Nuhal.All

variable {n cap size : Nat} {queue queue' : Queue n} {pushed popped : List Item}

/-! ## The steps of one thread -/

def ofProducer : Action → Bool
  | .push _ => true
  | .pop _ => false

def ofConsumer : Action → Bool
  | .push _ => false
  | .pop _ => true

/-- A step that begins a call of the producer or a round of its loop. -/
def beginsPush : Action → Bool
  | .push (.call _ _) => true
  | .push (.look _) => true
  | _ => false

/-- A step that begins a call of the consumer or a round of its loop. -/
def beginsPop : Action → Bool
  | .pop (.call _) => true
  | .pop (.look _) => true
  | _ => false

/-- Inside of a call. -/
def PushBusy (producer : Producer) : Prop := producer ≠ .idle ∧ producer ≠ .stopped

def PopBusy (consumer : Consumer) : Prop := consumer ≠ .idle ∧ consumer ≠ .stopped

/-! ## A thread can go on -/

theorem pushStep_possible {producer : Producer} (hbusy : PushBusy producer)
    (h : Held cap size queue pushed popped)
    (hp : ProducerAt cap size queue pushed.length popped.length producer) :
    ∃ action result, pushStep action queue producer = some result := by
  cases producer with
  | idle => exact absurd rfl hbusy.1
  | looping item timeout => exact ⟨.look true, _, rfl⟩
  | checking item caller => exact ⟨.readWrite, _, rfl⟩
  | gotWrite item caller writeIndex => exact ⟨.readRead, _, rfl⟩
  | gotRead item caller readIndex => exact ⟨.readWrite, _, rfl⟩
  | locating item => exact ⟨.readWrite, _, rfl⟩
  | copying item index i =>
    by_cases hi : i = queue.itemSize
    · exact ⟨.increment, _, if_pos hi⟩
    · obtain ⟨data, hdata, -, -⟩ := push_copy h hp hi
      exact ⟨.copy, _, (if_pos hi).trans (by rw [hdata])⟩
  | stopped => exact absurd rfl hbusy.2
  | undefined => cases hp

theorem popStep_possible {consumer : Consumer} (hbusy : PopBusy consumer)
    (h : Held cap size queue pushed popped)
    (hp : ConsumerAt cap size queue pushed popped.length consumer) :
    ∃ action result, popStep action queue consumer = some result := by
  cases consumer with
  | idle => exact absurd rfl hbusy.1
  | looping timeout => exact ⟨.look true, _, rfl⟩
  | checking caller => exact ⟨.readRead, _, rfl⟩
  | gotRead caller readIndex => exact ⟨.readWrite, _, rfl⟩
  | gotWrite caller writeIndex => exact ⟨.readRead, _, rfl⟩
  | locating => exact ⟨.readRead, _, rfl⟩
  | copying index i out =>
    by_cases hi : i = queue.itemSize
    · exact ⟨.increment, _, if_pos hi⟩
    · obtain ⟨b, hb, -⟩ := pop_copy h hp hi
      exact ⟨.copy, _, (if_pos hi).trans (by rw [hb])⟩
  | stopped => exact absurd rfl hbusy.2
  | undefined => cases hp

/-! ## And has only so far to go -/

/-- The steps that the producer has left at most before it begins something. -/
def pushRank (size : Nat) : Producer → Nat
  | .checking _ _ => size + 4
  | .gotWrite _ _ _ => size + 3
  | .gotRead _ _ _ => size + 3
  | .locating _ => size + 2
  | .copying _ _ i => size + 1 - i.toNat
  | .idle | .looping _ _ | .stopped | .undefined => 0

/-- The steps that the consumer has left at most before it begins something. -/
def popRank (size : Nat) : Consumer → Nat
  | .checking _ => size + 4
  | .gotRead _ _ => size + 3
  | .gotWrite _ _ => size + 3
  | .locating => size + 2
  | .copying _ i _ => size + 1 - i.toNat
  | .idle | .looping _ | .stopped | .undefined => 0

theorem pushRank_le (producer : Producer) : pushRank size producer ≤ size + 4 := by
  cases producer <;> simp only [pushRank] <;> omega

theorem popRank_le (consumer : Consumer) : popRank size consumer ≤ size + 4 := by
  cases consumer <;> simp only [popRank] <;> omega

theorem pushRank_checked {item : Item} {caller : Option UInt32} {writeIndex readIndex : UInt32} :
    pushRank size (pushChecked queue item caller writeIndex readIndex) ≤ size + 2 := by
  unfold pushChecked
  split
  · cases caller <;> exact Nat.zero_le _
  · exact Nat.le_refl _

theorem popRank_checked {caller : Option UInt32} {readIndex writeIndex : UInt32} :
    popRank size (popChecked queue caller readIndex writeIndex) ≤ size + 2 := by
  unfold popChecked
  split
  · cases caller <;> exact Nat.zero_le _
  · exact Nat.le_refl _

/-- **A step of the producer inside of a call.** -/
theorem pushStep_rank {action : PushAction} {producer producer' : Producer} {items : List Item}
    (hstep : pushStep action queue producer = some (queue', producer', items))
    (hfit : beginsPush (.push action) = false) (h : Held cap size queue pushed popped)
    (hp : ProducerAt cap size queue pushed.length popped.length producer) :
    pushRank size producer' + 1 ≤ pushRank size producer := by
  cases producer with
  | idle =>
    cases action with
    | call item caller => cases hfit
    | _ => cases hstep
  | looping item timeout =>
    cases action with
    | look inTime => cases hfit
    | _ => cases hstep
  | checking item caller => cases action <;> cases hstep <;> exact Nat.le_refl _
  | gotWrite item caller writeIndex =>
    cases action <;> cases hstep
    exact Nat.succ_le_succ pushRank_checked
  | gotRead item caller readIndex =>
    cases action <;> cases hstep
    exact Nat.succ_le_succ pushRank_checked
  | locating item =>
    cases action <;> cases hstep
    exact Nat.le_refl _
  | copying item index i =>
    cases action with
    | copy =>
      obtain ⟨hi, hstep⟩ := Option.ite_none_right_eq_some.mp hstep
      obtain ⟨data, hdata, -, -⟩ := push_copy h hp hi
      obtain ⟨hlt, hnext⟩ := next_byte h.shape hp.2.2.2.1 hi
      rw [hdata] at hstep
      cases hstep
      simp only [pushRank]
      omega
    | increment =>
      obtain ⟨hi, hstep⟩ := Option.ite_none_right_eq_some.mp hstep
      cases hstep
      have hle := hp.2.2.2.1
      simp only [pushRank]
      omega
    | _ => cases hstep
  | stopped => cases action <;> cases hstep
  | undefined => cases hp

/-- **A step of the consumer inside of a call.** -/
theorem popStep_rank {action : PopAction} {consumer consumer' : Consumer} {items : List Item}
    (hstep : popStep action queue consumer = some (queue', consumer', items))
    (hfit : beginsPop (.pop action) = false) (h : Held cap size queue pushed popped)
    (hp : ConsumerAt cap size queue pushed popped.length consumer) :
    popRank size consumer' + 1 ≤ popRank size consumer := by
  cases consumer with
  | idle =>
    cases action with
    | call caller => cases hfit
    | _ => cases hstep
  | looping timeout =>
    cases action with
    | look inTime => cases hfit
    | _ => cases hstep
  | checking caller => cases action <;> cases hstep <;> exact Nat.le_refl _
  | gotRead caller readIndex =>
    cases action <;> cases hstep
    exact Nat.succ_le_succ popRank_checked
  | gotWrite caller writeIndex =>
    cases action <;> cases hstep
    exact Nat.succ_le_succ popRank_checked
  | locating =>
    cases action <;> cases hstep
    exact Nat.le_refl _
  | copying index i out =>
    obtain ⟨item, -, -, hle, -⟩ := id hp
    cases action with
    | copy =>
      obtain ⟨hi, hstep⟩ := Option.ite_none_right_eq_some.mp hstep
      obtain ⟨b, hb, -⟩ := pop_copy h hp hi
      obtain ⟨hlt, hnext⟩ := next_byte h.shape hle hi
      rw [hb] at hstep
      cases hstep
      simp only [popRank]
      omega
    | increment =>
      obtain ⟨hi, hstep⟩ := Option.ite_none_right_eq_some.mp hstep
      cases hstep
      simp only [popRank]
      omega
    | _ => cases hstep
  | stopped => cases action <;> cases hstep
  | undefined => cases hp

/-! ## Both -/

theorem producer_bounded {s s' : Threads n} {more : List Action} (h : Safe cap size s)
    (hrun : run step more s = some s') (hlong : size + 4 < more.countP ofProducer) :
    ∃ a ∈ more, beginsPush a = true := by
  refine run_measure ofProducer beginsPush (fun s => pushRank size s.producer)
    (fun _ _ _ => Safe.step) ?_ hrun h (Nat.lt_of_le_of_lt (pushRank_le s.producer) hlong)
  intro a s s' hstep hsafe hfit
  cases a with
  | push action =>
    obtain ⟨⟨queue, producer, items⟩, hact, rfl⟩ := Option.map_eq_some_iff.mp hstep
    exact pushStep_rank hact hfit hsafe.held hsafe.producer
  | pop action =>
    obtain ⟨⟨queue, consumer, items⟩, hact, rfl⟩ := Option.map_eq_some_iff.mp hstep
    exact Nat.le_refl _

theorem consumer_bounded {s s' : Threads n} {more : List Action} (h : Safe cap size s)
    (hrun : run step more s = some s') (hlong : size + 4 < more.countP ofConsumer) :
    ∃ a ∈ more, beginsPop a = true := by
  refine run_measure ofConsumer beginsPop (fun s => popRank size s.consumer)
    (fun _ _ _ => Safe.step) ?_ hrun h (Nat.lt_of_le_of_lt (popRank_le s.consumer) hlong)
  intro a s s' hstep hsafe hfit
  cases a with
  | push action =>
    obtain ⟨⟨queue, producer, items⟩, hact, rfl⟩ := Option.map_eq_some_iff.mp hstep
    exact Nat.le_refl _
  | pop action =>
    obtain ⟨⟨queue, consumer, items⟩, hact, rfl⟩ := Option.map_eq_some_iff.mp hstep
    exact popStep_rank hact hfit hsafe.held hsafe.consumer

/-- **The queue is wait-free**: in every state that two threads can reach, a thread inside of a call
can take a step, and among any `item_size + 5` steps of its own, however many of the other thread's
lie between them, one begins a call or looks at the clock. So a nonblocking call ends within
`item_size + 4` steps of its caller's, and a blocking one looks at the clock as often, even if the
other thread has stopped in the middle of its own call. -/
theorem queue_wait_free (capacity itemSize : UInt32) (hpower : capacity.toNat.isPowerOfTwo)
    (htwo : 1 < capacity.toNat) (hbytes : capacity.toNat * itemSize.toNat < 2 ^ 32)
    (data : Vector UInt8 (capacity.toNat * itemSize.toNat)) :
    ∃ queue, queueInit capacity itemSize data = .ok queue ∧
      ∀ actions s, run step actions (start queue) = some s →
        (PushBusy s.producer → ∃ action s', step (.push action) s = some s') ∧
        (PopBusy s.consumer → ∃ action s', step (.pop action) s = some s') ∧
        ∀ more s', run step more s = some s' →
          (itemSize.toNat + 4 < more.countP ofProducer →
            ∃ a ∈ more, beginsPush a = true) ∧
          (itemSize.toNat + 4 < more.countP ofConsumer →
            ∃ a ∈ more, beginsPop a = true) := by
  obtain ⟨queue, hinit, hshape, hwrite, hread⟩ := queueInit_shape hpower htwo hbytes data
  refine ⟨queue, hinit, ?_⟩
  intro actions s hrun
  have h : Safe capacity.toNat itemSize.toNat s :=
    run_invariant (fun _ _ _ => Safe.step) hrun (Safe.start hshape hwrite hread)
  refine ⟨?_, ?_, fun more s' hmore => ⟨producer_bounded h hmore, consumer_bounded h hmore⟩⟩
  · intro hbusy
    obtain ⟨action, result, hact⟩ := pushStep_possible hbusy h.held h.producer
    exact ⟨action, _, Option.map_eq_some_iff.mpr ⟨result, hact, rfl⟩⟩
  · intro hbusy
    obtain ⟨action, result, hact⟩ := popStep_possible hbusy h.held h.consumer
    exact ⟨action, _, Option.map_eq_some_iff.mpr ⟨result, hact, rfl⟩⟩

/-- Two slots of two bytes. -/
theorem queue_wait_free_two :
    ∃ queue, queueInit 2 2 (Vector.replicate 4 0) = .ok queue ∧
      ∀ actions s, run step actions (start queue) = some s →
        (PushBusy s.producer → ∃ action s', step (.push action) s = some s') ∧
        (PopBusy s.consumer → ∃ action s', step (.pop action) s = some s') ∧
        ∀ more s', run step more s = some s' →
          (6 < more.countP ofProducer → ∃ a ∈ more, beginsPush a = true) ∧
          (6 < more.countP ofConsumer → ∃ a ∈ more, beginsPop a = true) :=
  queue_wait_free 2 2 ⟨1, rfl⟩ (by decide) (by decide) _

end Nuhal.Fifo

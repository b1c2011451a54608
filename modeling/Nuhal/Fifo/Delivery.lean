import Mathlib.Tactic.IntervalCases
import Nuhal.Fifo.Progress

/-!
# What is pushed arrives (`nuhal_all/src/queue.c:50-158`)

`queue_push_block` and `queue_pop_block` try again until it works, and so may a caller of the
nonblocking functions. Two threads that do this for ever hand over every item: the queue is not full
when the consumer has fallen behind by less than its room, and not empty when the producer is ahead.

A check may have read an index at an earlier moment than the other one, and then it may fail
although the queue has changed in between. That costs one more round and not a second one, since the
index is read anew: `pushLeft` and `popLeft` count the steps that are left with a stale index as
well.

* `pushStep_offered`: what the producer has in its hands is the item that it was called with.
* `pushStep_left`: on a queue with room, the producer is a step nearer to a push.
* `popStep_left`: on a queue with an item, the consumer is a step nearer to a pop.
* `queue_delivers`: every item arrives.
-/

namespace Nuhal.Fifo

open Nuhal.Lib Nuhal.All

variable {n cap size : Nat} {queue queue' : Queue n} {pushed popped items : List Item}

/-! ## Two threads at work -/

/-- The item of the call that the producer is in. -/
def offered : Producer → Option Item
  | .idle | .stopped | .undefined => none
  | .looping item _ | .checking item _ | .gotWrite item _ _ | .gotRead item _ _ | .locating item
  | .copying item _ _ => some item

/-- An endless run in which the producer calls with the first of `items` that it has not pushed yet,
nobody times out, and a thread that has something left to do takes a step again and again. -/
structure HandsOver (items : List Item) (actions : Nat → Action) (states : Nat → Threads n) :
    Prop where
  runs : Endless step actions states
  offers : ∀ k item caller, actions k = .push (.call item caller) →
    items[(states k).pushed.length]? = some item
  inTime : ∀ k, (states k).producer ≠ .stopped ∧ (states k).consumer ≠ .stopped
  pushes : ∀ k, (states k).pushed.length < items.length →
    ∃ j, k ≤ j ∧ ofProducer (actions j) = true
  pops : ∀ k, (states k).popped.length < items.length →
    ∃ j, k ≤ j ∧ ofConsumer (actions j) = true

/-! ## The items in their order -/

theorem offered_pushFailed {item offer : Item} {caller : Option UInt32}
    (h : offered (pushFailed item caller) = some offer) : offer = item := by
  cases caller with
  | none => cases h
  | some timeout => exact (Option.some.inj h).symm

theorem offered_pushChecked {item offer : Item} {caller : Option UInt32}
    {writeIndex readIndex : UInt32}
    (h : offered (pushChecked queue item caller writeIndex readIndex) = some offer) :
    offer = item := by
  unfold pushChecked at h
  split at h
  · exact offered_pushFailed h
  · exact (Option.some.inj h).symm

/-- **A producer has the item that it was called with**, and pushes that one. -/
theorem pushStep_offered {action : PushAction} {producer producer' : Producer} {new : List Item}
    (hstep : pushStep action queue producer = some (queue', producer', new)) :
    (new = [] ∧ ∀ item, offered producer' = some item →
      offered producer = some item ∨ ∃ caller, action = .call item caller) ∨
    (offered producer' = none ∧ ∃ item, offered producer = some item ∧ new = [item]) := by
  cases producer with
  | idle =>
    cases action with
    | call item caller =>
      obtain ⟨-, hstep⟩ := Option.ite_none_right_eq_some.mp hstep
      refine .inl ?_
      cases caller with
      | none =>
        cases hstep
        exact ⟨rfl, fun _ h => .inr ⟨none, by cases h; rfl⟩⟩
      | some timeout =>
        cases hstep
        exact ⟨rfl, fun _ h => .inr ⟨some timeout, by cases h; rfl⟩⟩
    | _ => cases hstep
  | looping item timeout =>
    cases action with
    | look inTime =>
      cases hstep
      refine .inl ⟨rfl, fun offer h => .inl ?_⟩
      split at h
      · exact h
      · cases h
    | _ => cases hstep
  | checking item caller =>
    cases action with
    | readWrite =>
      cases hstep
      exact .inl ⟨rfl, fun _ h => .inl h⟩
    | readRead =>
      cases hstep
      exact .inl ⟨rfl, fun _ h => .inl h⟩
    | _ => cases hstep
  | gotWrite item caller writeIndex =>
    cases action <;> cases hstep
    exact .inl ⟨rfl, fun _ h => .inl (by rw [offered_pushChecked h]; rfl)⟩
  | gotRead item caller readIndex =>
    cases action <;> cases hstep
    exact .inl ⟨rfl, fun _ h => .inl (by rw [offered_pushChecked h]; rfl)⟩
  | locating item =>
    cases action <;> cases hstep
    exact .inl ⟨rfl, fun _ h => .inl h⟩
  | copying item index i =>
    cases action with
    | copy =>
      obtain ⟨-, hstep⟩ := Option.ite_none_right_eq_some.mp hstep
      split at hstep <;> cases hstep
      · exact .inl ⟨rfl, fun _ h => .inl h⟩
      · exact .inl ⟨rfl, fun _ h => nomatch h⟩
    | increment =>
      obtain ⟨-, hstep⟩ := Option.ite_none_right_eq_some.mp hstep
      cases hstep
      exact .inr ⟨rfl, item, rfl, rfl⟩
    | _ => cases hstep
  | stopped => cases action <;> cases hstep
  | undefined => cases action <;> cases hstep

/-- What was pushed are the first items, and the producer has the next one. -/
structure InOrder (items : List Item) (s : Threads n) : Prop where
  pushed : s.pushed <+: items
  next : ∀ item, offered s.producer = some item → items[s.pushed.length]? = some item

theorem InOrder.step {action : Action} {s s' : Threads n} (h : InOrder items s)
    (hstep : step action s = some s')
    (hoffers : ∀ item caller, action = .push (.call item caller) →
      items[s.pushed.length]? = some item) : InOrder items s' := by
  cases action with
  | push action =>
    obtain ⟨⟨queue, producer, new⟩, hpush, rfl⟩ := Option.map_eq_some_iff.mp hstep
    rcases pushStep_offered hpush with ⟨rfl, hsame⟩ | ⟨hnone, item, hitem, rfl⟩
    · simp only [List.append_nil]
      refine ⟨h.pushed, fun item hitem => ?_⟩
      rcases hsame item hitem with hold | ⟨caller, rfl⟩
      · exact h.next item hold
      · exact hoffers item caller rfl
    · have htake : s.pushed = items.take s.pushed.length := List.prefix_iff_eq_take.mp h.pushed
      have hmore : s.pushed ++ [item] = items.take (s.pushed.length + 1) := by
        rw [List.take_add_one, h.next item hitem, ← htake]
        rfl
      refine ⟨?_, fun offer hoffer => ?_⟩
      · show s.pushed ++ [item] <+: items
        rw [hmore]
        exact List.take_prefix _ _
      · rw [hnone] at hoffer
        cases hoffer
  | pop action =>
    obtain ⟨⟨queue, consumer, new⟩, hpop, rfl⟩ := Option.map_eq_some_iff.mp hstep
    exact ⟨h.pushed, h.next⟩

/-! ## The way to a push -/

/-- The steps that the producer has left at most before a push, on a queue with room whose
`read_index` stays. -/
def pushLeft (size : Nat) (readIndex : UInt32) : Producer → Nat
  | .idle => size + 6
  | .looping _ _ => size + 5
  | .checking _ _ => size + 4
  | .gotWrite _ _ _ => size + 3
  | .gotRead _ _ index => if index = readIndex then size + 3 else size + 7
  | .locating _ => size + 2
  | .copying _ _ i => size + 1 - i.toNat
  | .stopped | .undefined => 0

theorem pushLeft_checked {item : Item} {caller : Option UInt32} {w r : UInt32}
    {readIndex : UInt32} :
    pushLeft size readIndex (pushChecked queue item caller w r) ≤ size + 6 := by
  unfold pushChecked
  split
  · cases caller with
    | none => exact Nat.le_refl _
    | some timeout => exact Nat.le_succ _
  · exact Nat.le_add_right _ 4

/-- With both indices of this moment a queue that has room is not full. -/
theorem pushChecked_room {item : Item} {caller : Option UInt32}
    (h : Held cap size queue pushed popped) (hroom : pushed.length + 1 < popped.length + cap) :
    pushChecked queue item caller queue.writeIndex queue.readIndex = .locating item := by
  have hfull : ¬ isFull queue queue.writeIndex queue.readIndex = true := by
    rw [h.write, h.read, isFull_iff h.shape h.le h.room]
    omega
  exact if_neg hfull

/-- **A step of the producer on a queue with room.** -/
theorem pushStep_left {action : PushAction} {producer producer' : Producer} {new : List Item}
    (hstep : pushStep action queue producer = some (queue', producer', new))
    (h : Held cap size queue pushed popped)
    (hp : ProducerAt cap size queue pushed.length popped.length producer)
    (hroom : pushed.length + 1 < popped.length + cap) (hinTime : producer' ≠ .stopped) :
    new ≠ [] ∨
      pushLeft size queue.readIndex producer' + 1 ≤ pushLeft size queue.readIndex producer := by
  cases producer with
  | idle =>
    cases action with
    | call item caller =>
      obtain ⟨-, hstep⟩ := Option.ite_none_right_eq_some.mp hstep
      cases caller with
      | none =>
        cases hstep
        exact .inr (Nat.le_succ _)
      | some timeout =>
        cases hstep
        exact .inr (Nat.le_refl _)
    | _ => cases hstep
  | looping item timeout =>
    cases action with
    | look inTime =>
      cases hstep
      refine .inr ?_
      split
      · exact Nat.le_refl _
      · exact Nat.le_add_left 1 _
    | _ => cases hstep
  | checking item caller =>
    cases action with
    | readWrite =>
      cases hstep
      exact .inr (Nat.le_refl _)
    | readRead =>
      cases hstep
      exact .inr (Nat.le_of_eq (congrArg Nat.succ (if_pos rfl)))
    | _ => cases hstep
  | gotWrite item caller writeIndex =>
    cases action with
    | readRead =>
      obtain ⟨-, rfl⟩ := hp
      cases hstep
      rw [pushChecked_room h hroom]
      exact .inr (Nat.le_refl _)
    | _ => cases hstep
  | gotRead item caller readIndex =>
    cases action with
    | readWrite =>
      cases hstep
      refine .inr ?_
      by_cases hfresh : readIndex = queue.readIndex
      · rw [hfresh, pushChecked_room h hroom, pushLeft.eq_5, if_pos rfl]
        exact Nat.le_refl _
      · rw [pushLeft.eq_5, if_neg hfresh]
        exact Nat.succ_le_succ pushLeft_checked
    | _ => cases hstep
  | locating item =>
    cases action with
    | readWrite =>
      cases hstep
      exact .inr (Nat.le_refl _)
    | _ => cases hstep
  | copying item index i =>
    cases action with
    | copy =>
      obtain ⟨hi, hstep⟩ := Option.ite_none_right_eq_some.mp hstep
      obtain ⟨data, hdata, -, -⟩ := push_copy h hp hi
      obtain ⟨hlt, hnext⟩ := next_byte h.shape hp.2.2.2.1 hi
      rw [hdata] at hstep
      cases hstep
      refine .inr ?_
      simp only [pushLeft]
      omega
    | increment =>
      obtain ⟨-, hstep⟩ := Option.ite_none_right_eq_some.mp hstep
      cases hstep
      exact .inl (List.cons_ne_nil _ _)
    | _ => cases hstep
  | stopped => cases action <;> cases hstep
  | undefined => cases hp

/-! ## The way to a pop -/

/-- The steps that the consumer has left at most before a pop, on a queue that holds an item. -/
def popLeft (size : Nat) (readIndex : UInt32) : Consumer → Nat
  | .idle => size + 6
  | .looping _ => size + 5
  | .checking _ => size + 4
  | .gotRead _ _ => size + 3
  | .gotWrite _ index => if index = readIndex then size + 7 else size + 3
  | .locating => size + 2
  | .copying _ i _ => size + 1 - i.toNat
  | .stopped | .undefined => 0

theorem popLeft_checked {caller : Option UInt32} {r w readIndex : UInt32} :
    popLeft size readIndex (popChecked queue caller r w) ≤ size + 6 := by
  unfold popChecked
  split
  · cases caller with
    | none => exact Nat.le_refl _
    | some timeout => exact Nat.le_succ _
  · exact Nat.le_add_right _ 4

/-- A `write_index` that is not the `read_index` shows an item. -/
theorem popChecked_item {caller : Option UInt32} {w : Nat} (h : Held cap size queue pushed popped)
    (hle : popped.length ≤ w) (hw : w ≤ pushed.length) (hne : popped.length ≠ w) :
    popChecked queue caller queue.readIndex (UInt32.ofNat w) = .locating := by
  have hempty : ¬ isEmpty queue queue.readIndex (UInt32.ofNat w) = true := by
    rw [h.read, isEmpty_iff h.shape hle (Nat.lt_of_le_of_lt hw h.room)]
    exact hne
  exact if_neg hempty

theorem writeIndex_ne (h : Held cap size queue pushed popped)
    (hitem : popped.length < pushed.length) : queue.writeIndex ≠ queue.readIndex := by
  intro hsame
  have hempty : isEmpty queue queue.readIndex queue.writeIndex = true := by
    rw [hsame]
    exact beq_self_eq_true _
  rw [h.read, h.write, isEmpty_iff h.shape h.le h.room] at hempty
  exact absurd hempty (Nat.ne_of_lt hitem)

/-- **A step of the consumer on a queue with an item.** -/
theorem popStep_left {action : PopAction} {consumer consumer' : Consumer} {new : List Item}
    (hstep : popStep action queue consumer = some (queue', consumer', new))
    (h : Held cap size queue pushed popped)
    (hp : ConsumerAt cap size queue pushed popped.length consumer)
    (hitem : popped.length < pushed.length) (hinTime : consumer' ≠ .stopped) :
    new ≠ [] ∨
      popLeft size queue.readIndex consumer' + 1 ≤ popLeft size queue.readIndex consumer := by
  cases consumer with
  | idle =>
    cases action with
    | call caller =>
      cases caller with
      | none =>
        cases hstep
        exact .inr (Nat.le_succ _)
      | some timeout =>
        cases hstep
        exact .inr (Nat.le_refl _)
    | _ => cases hstep
  | looping timeout =>
    cases action with
    | look inTime =>
      cases hstep
      refine .inr ?_
      split
      · exact Nat.le_refl _
      · exact Nat.le_add_left 1 _
    | _ => cases hstep
  | checking caller =>
    cases action with
    | readRead =>
      cases hstep
      exact .inr (Nat.le_refl _)
    | readWrite =>
      cases hstep
      exact .inr (Nat.le_of_eq (congrArg Nat.succ (if_neg (writeIndex_ne h hitem))))
    | _ => cases hstep
  | gotRead caller readIndex =>
    cases action with
    | readWrite =>
      cases hp
      cases hstep
      rw [h.write, popChecked_item h h.le (Nat.le_refl _) (Nat.ne_of_lt hitem)]
      exact .inr (Nat.le_refl _)
    | _ => cases hstep
  | gotWrite caller writeIndex =>
    cases action with
    | readRead =>
      obtain ⟨w, rfl, hle, hle'⟩ := hp
      cases hstep
      refine .inr ?_
      by_cases hstale : UInt32.ofNat w = queue.readIndex
      · rw [popLeft.eq_5, if_pos hstale]
        exact Nat.succ_le_succ popLeft_checked
      · have hne : popped.length ≠ w := by
          rintro rfl
          exact hstale h.read.symm
        rw [popChecked_item h hle hle' hne, popLeft.eq_5, if_neg hstale]
        exact Nat.le_refl _
    | _ => cases hstep
  | locating =>
    cases action with
    | readRead =>
      cases hstep
      exact .inr (Nat.le_refl _)
    | _ => cases hstep
  | copying index i out =>
    obtain ⟨item, -, -, hle, -⟩ := id hp
    cases action with
    | copy =>
      obtain ⟨hi, hstep⟩ := Option.ite_none_right_eq_some.mp hstep
      obtain ⟨b, hb, -⟩ := pop_copy h hp hi
      obtain ⟨hlt, hnext⟩ := next_byte h.shape hle hi
      rw [hb] at hstep
      cases hstep
      refine .inr ?_
      simp only [popLeft]
      omega
    | increment =>
      obtain ⟨-, hstep⟩ := Option.ite_none_right_eq_some.mp hstep
      cases hstep
      exact .inl (List.cons_ne_nil _ _)
    | _ => cases hstep
  | stopped => cases action <;> cases hstep
  | undefined => cases hp

/-! ## Both -/

variable {m : Nat} {action : Action} {s s' : Threads n}

/-- A step while the queue is empty. -/
theorem step_toPush (hstep : step action s = some s') (h : Safe cap size s)
    (h' : Safe cap size s') (hpopped : s.popped.length = m) (hpushed : s.pushed.length = m)
    (hinTime : s'.producer ≠ .stopped) :
    (s'.popped.length = m ∧ m < s'.pushed.length) ∨
      ((s'.popped.length = m ∧ s'.pushed.length = m) ∧
        pushLeft size (UInt32.ofNat m) s'.producer + (ofProducer action).toNat ≤
          pushLeft size (UInt32.ofNat m) s.producer) := by
  cases action with
  | push action =>
    obtain ⟨⟨queue, producer, new⟩, hpush, rfl⟩ := Option.map_eq_some_iff.mp hstep
    have hroom : s.pushed.length + 1 < s.popped.length + cap := by
      have htwo := h.held.shape.two
      omega
    have hleft := pushStep_left hpush h.held h.producer hroom hinTime
    rw [h.held.read, hpopped] at hleft
    cases new with
    | nil => exact .inr ⟨⟨hpopped, by simpa using hpushed⟩, hleft.resolve_left (absurd rfl)⟩
    | cons item more =>
      refine .inl ⟨hpopped, ?_⟩
      show m < (s.pushed ++ item :: more).length
      rw [List.length_append, hpushed]
      exact Nat.lt_add_of_pos_right (Nat.succ_pos _)
  | pop action =>
    obtain ⟨⟨queue, consumer, new⟩, hpop, rfl⟩ := Option.map_eq_some_iff.mp hstep
    have hle : (s.popped ++ new).length ≤ s.pushed.length := h'.held.le
    rw [List.length_append] at hle
    refine .inr ⟨⟨?_, hpushed⟩, Nat.le_refl _⟩
    show (s.popped ++ new).length = m
    rw [List.length_append]
    omega

/-- A step while the queue holds an item. -/
theorem step_toPop (hstep : step action s = some s') (h : Safe cap size s)
    (hpopped : s.popped.length = m) (hpushed : m < s.pushed.length)
    (hinTime : s'.consumer ≠ .stopped) :
    m < s'.popped.length ∨
      ((s'.popped.length = m ∧ m < s'.pushed.length) ∧
        popLeft size (UInt32.ofNat m) s'.consumer + (ofConsumer action).toNat ≤
          popLeft size (UInt32.ofNat m) s.consumer) := by
  cases action with
  | push action =>
    obtain ⟨⟨queue, producer, new⟩, hpush, rfl⟩ := Option.map_eq_some_iff.mp hstep
    refine .inr ⟨⟨hpopped, ?_⟩, Nat.le_refl _⟩
    show m < (s.pushed ++ new).length
    rw [List.length_append]
    exact Nat.lt_add_right _ hpushed
  | pop action =>
    obtain ⟨⟨queue, consumer, new⟩, hpop, rfl⟩ := Option.map_eq_some_iff.mp hstep
    have hleft := popStep_left hpop h.held h.consumer (hpopped ▸ hpushed) hinTime
    rw [h.held.read, hpopped] at hleft
    cases new with
    | nil => exact .inr ⟨⟨by simpa using hpopped, hpushed⟩, hleft.resolve_left (absurd rfl)⟩
    | cons item more =>
      refine .inl ?_
      show m < (s.popped ++ item :: more).length
      rw [List.length_append, hpopped]
      exact Nat.lt_add_of_pos_right (Nat.succ_pos _)

section Run

variable {actions : Nat → Action} {states : Nat → Threads n}

theorem HandsOver.inOrder (h : HandsOver items actions states) (hempty : states 0 = start queue)
    (k : Nat) : InOrder items (states k) := by
  induction k with
  | zero =>
    rw [hempty]
    exact ⟨List.nil_prefix, nofun⟩
  | succ k ih => exact ih.step (h.runs k) (h.offers k)

/-- While something is left to pop, one more item is popped. -/
theorem HandsOver.popsNext (h : HandsOver items actions states)
    (hsafe : ∀ k, Safe cap size (states k)) {k : Nat}
    (hk : (states k).popped.length < items.length) :
    ∃ j, k ≤ j ∧ (states k).popped.length < (states j).popped.length := by
  generalize hm : (states k).popped.length = m at hk
  have hitem : ∃ i, k ≤ i ∧ (states i).popped.length = m ∧ m < (states i).pushed.length := by
    rcases Nat.lt_or_ge m (states k).pushed.length with hthere | hempty
    · exact ⟨k, Nat.le_refl k, hm, hthere⟩
    · have hpushed : (states k).pushed.length = m :=
        Nat.le_antisymm hempty (hm ▸ (hsafe k).held.le)
      refine reaches (fun j => ofProducer (actions j))
        (fun s : Threads n => s.popped.length = m ∧ s.pushed.length = m)
        (fun s => s.popped.length = m ∧ m < s.pushed.length)
        (fun s => pushLeft size (UInt32.ofNat m) s.producer) ?_ ?_ ⟨hm, hpushed⟩
      · intro i hP
        exact h.pushes i (hP.2 ▸ hk)
      · intro i hP
        exact step_toPush (h.runs i) (hsafe i) (hsafe (i + 1)) hP.1 hP.2 (h.inTime (i + 1)).1
  obtain ⟨i, hi, hpopped, hpushed⟩ := hitem
  obtain ⟨j, hj, hmore⟩ := reaches (fun j => ofConsumer (actions j))
    (fun s : Threads n => s.popped.length = m ∧ m < s.pushed.length)
    (fun s => m < s.popped.length)
    (fun s => popLeft size (UInt32.ofNat m) s.consumer)
    (fun i hP => h.pops i (hP.1 ▸ hk))
    (fun i hP => step_toPop (h.runs i) (hsafe i) hP.1 hP.2 (h.inTime (i + 1)).2)
    ⟨hpopped, hpushed⟩
  exact ⟨j, Nat.le_trans hi hj, hmore⟩

theorem HandsOver.popsAll (h : HandsOver items actions states)
    (hsafe : ∀ k, Safe cap size (states k)) {m : Nat} (hm : m ≤ items.length) :
    ∃ k, m ≤ (states k).popped.length := by
  induction m with
  | zero => exact ⟨0, Nat.zero_le _⟩
  | succ m ih =>
    obtain ⟨k, hk⟩ := ih (Nat.le_of_succ_le hm)
    rcases Nat.lt_or_ge m (states k).popped.length with hdone | hleft
    · exact ⟨k, hdone⟩
    · obtain ⟨j, -, hj⟩ := h.popsNext hsafe (Nat.lt_of_le_of_lt hleft hm)
      exact ⟨j, Nat.lt_of_le_of_lt hk hj⟩

end Run

/-- **Every item arrives**: on a queue of any capacity that `queue_init` accepts, with a producer
that calls until its next item is in and a consumer that calls again and again, blocking or not, in
any order of their steps and with any pauses between them, and with nobody timed out, the items
popped are always the first of `items`, byte for byte and in order, and at some moment all of them
have been popped. -/
theorem queue_delivers (capacity itemSize : UInt32) (hpower : capacity.toNat.isPowerOfTwo)
    (htwo : 1 < capacity.toNat) (hbytes : capacity.toNat * itemSize.toNat < 2 ^ 32)
    (data : Vector UInt8 (capacity.toNat * itemSize.toNat)) :
    ∃ queue, queueInit capacity itemSize data = .ok queue ∧
      ∀ items actions states, states 0 = start queue → HandsOver items actions states →
        (∀ k, (states k).popped <+: items) ∧ ∃ k, (states k).popped = items := by
  obtain ⟨queue, hinit, hshape, hwrite, hread⟩ := queueInit_shape hpower htwo hbytes data
  refine ⟨queue, hinit, ?_⟩
  intro items actions states hstart h
  have hsafe : ∀ k, Safe capacity.toNat itemSize.toNat (states k) :=
    h.runs.invariant (fun _ _ _ => Safe.step) (hstart ▸ Safe.start hshape hwrite hread)
  have hfirst : ∀ k, (states k).popped <+: items := fun k =>
    (hsafe k).held.order.trans (h.inOrder hstart k).pushed
  obtain ⟨k, hk⟩ := h.popsAll hsafe (Nat.le_refl items.length)
  exact ⟨hfirst, k, (hfirst k).eq_of_length_le hk⟩

/-- A blocking pop that finds nothing, a push, the pop, and one more blocking pop. -/
def oneItem : List Action :=
  [.pop (.call (some 0)), .pop (.look false), .pop .readRead, .pop .readWrite,
    .push (.call [7] none), .push .readWrite, .push .readRead, .push .readWrite, .push .copy,
    .push .increment,
    .pop (.look false), .pop .readRead, .pop .readWrite, .pop .readRead, .pop .copy,
    .pop .increment,
    .pop (.call (some 0)), .pop (.look false), .pop .readRead, .pop .readWrite]

/-- The last pop goes round its loop for ever. -/
def moment (k : Nat) : Nat := if k < 17 then k else 17 + (k - 17) % 3

def twoSlots : Queue 2 :=
  { mask := 1, itemSize := 1, data := Vector.replicate 2 0, writeIndex := 0, readIndex := 0 }

def oneItemAction (k : Nat) : Action := oneItem.getD (moment k) (.pop .readRead)

def oneItemState (k : Nat) : Threads 2 :=
  (run step (oneItem.take (moment k)) (start twoSlots)).getD (start twoSlots)

theorem moment_lt (k : Nat) : moment k < 20 := by
  unfold moment
  split <;> omega

theorem moment_succ (k : Nat) :
    moment (k + 1) = if moment k = 19 then 17 else moment k + 1 := by
  unfold moment
  split <;> split <;> split <;> omega

theorem oneItem_handsOver : HandsOver [[7]] oneItemAction oneItemState where
  runs k := by
    have hlt := moment_lt k
    unfold oneItemAction oneItemState
    rw [moment_succ]
    generalize moment k = i at hlt
    interval_cases i <;> rfl
  offers k item caller h := by
    have hlt := moment_lt k
    unfold oneItemAction at h
    unfold oneItemState
    generalize moment k = i at hlt h
    interval_cases i <;> cases h
    rfl
  inTime k := by
    have hlt := moment_lt k
    unfold oneItemState
    generalize moment k = i at hlt
    interval_cases i <;> decide
  pushes k h := by
    refine ⟨9, ?_, rfl⟩
    by_contra hlate
    have hlt := moment_lt k
    have hpast : 9 < moment k := by
      unfold moment
      split <;> omega
    unfold oneItemState at h
    generalize moment k = i at hlt hpast h
    interval_cases i <;> exact absurd h (by decide)
  pops k _ := by
    refine ⟨17 + 3 * k, by omega, ?_⟩
    have hmoment : moment (17 + 3 * k) = 17 := by
      unfold moment
      split <;> omega
    unfold oneItemAction
    rw [hmoment]
    rfl

theorem queue_delivers_one :
    (∀ k, (oneItemState k).popped <+: [[7]]) ∧ ∃ k, (oneItemState k).popped = [[7]] := by
  obtain ⟨queue, hinit, h⟩ := queue_delivers 2 1 ⟨1, rfl⟩ (by decide) (by decide)
    (Vector.replicate 2 0)
  have hqueue : Except.ok twoSlots = Except.ok queue := hinit
  cases hqueue
  exact h [[7]] oneItemAction oneItemState rfl oneItem_handsOver

end Nuhal.Fifo

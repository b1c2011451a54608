import Nuhal.Fifo.Safety
import Nuhal.Lib.Linearizable

/-!
# The queue is linearizable (`nuhal_all/src/queue.c:50-158`)

With one thread that pushes and one that pops, every call looks as if it had been made in one
moment. `Atomic room` says what one call does to a FIFO with `room` places, and `shows` which step
of the two threads begins or ends a call.

The moment at which a call takes effect is a step of the caller's own:

* a successful call, the increment of the index;
* a push that fails, the reading of `read_index`: the producer knows `write_index`, so the queue is
  full at that very moment, whether `write_index` is read before or after it;
* a pop that fails, the reading of `write_index`;
* a blocking call that ends in `error`, the look at the clock. The failed tries before it have no
  effect, and are no calls of their own.

`PushPhase` and `PopPhase` say which of these have passed. `queue_linearizable` is the result.
-/

namespace Nuhal.Fifo

open Nuhal.Lib Nuhal.All

variable {n cap size : Nat} {queue queue' : Queue n} {pushed popped held : List Item}

/-! ## Calls -/

inductive Side where
  | producer
  | consumer
  deriving Repr, DecidableEq

/-- A call of one of the four functions: the nonblocking one if there is no timeout. -/
inductive Call where
  | push (item : Item) (timeout : Option UInt32)
  | pop (timeout : Option UInt32)
  deriving Repr, DecidableEq

/-- How a call ends. -/
inductive Answer where
  /-- A push that returns `true`, or a blocking one that returns. -/
  | pushed
  /-- A pop that returns `true`, or a blocking one that returns, and what it has copied. -/
  | popped (item : Item)
  /-- A nonblocking call that returns `false`. -/
  | failed
  /-- A blocking call that is out of time. -/
  | error
  deriving Repr, DecidableEq

/-- What a call may do to a FIFO with `room` places. -/
inductive Atomic (room : Nat) : Call → List Item → Answer → List Item → Prop where
  | pushed {item : Item} {timeout : Option UInt32} {held : List Item} :
    held.length < room → Atomic room (.push item timeout) held .pushed (held ++ [item])
  | full {item : Item} {held : List Item} :
    held.length = room → Atomic room (.push item none) held .failed held
  | pushLate {item : Item} {timeout : UInt32} {held : List Item} :
    timeout ≠ 0 → Atomic room (.push item (some timeout)) held .error held
  | popped {item : Item} {timeout : Option UInt32} {held : List Item} :
    Atomic room (.pop timeout) (item :: held) (.popped item) held
  | empty : Atomic room (.pop none) [] .failed []
  | popLate {timeout : UInt32} {held : List Item} :
    timeout ≠ 0 → Atomic room (.pop (some timeout)) held .error held

/-- What a step of the producer shows, `producer` being where it is after the step. -/
def pushShows : PushAction → Producer → List (Event Call Answer)
  | .call item caller, _ => [.invoke (.push item caller)]
  | .increment, _ => [.respond .pushed]
  | _, .idle => [.respond .failed]
  | _, .stopped => [.respond .error]
  | _, _ => []

/-- What a step of the consumer shows. -/
def popShows : PopAction → Consumer → Consumer → List (Event Call Answer)
  | .call caller, _, _ => [.invoke (.pop caller)]
  | .increment, .copying _ _ out, _ => [.respond (.popped out)]
  | _, _, .idle => [.respond .failed]
  | _, _, .stopped => [.respond .error]
  | _, _, _ => []

/-- What a step of the two threads shows. -/
def shows : Action → Threads n → Threads n → List (Side × Event Call Answer)
  | .push action, _, s' => (pushShows action s'.producer).map (Prod.mk .producer)
  | .pop action, s, s' => (popShows action s.consumer s'.consumer).map (Prod.mk .consumer)

/-! ## Phases -/

/-- Whether the producer's call has taken effect. -/
def PushPhase (queue : Queue n) : Producer → Phase Call Answer → Prop
  | .idle, phase => phase = .idle
  | .looping item timeout, phase => phase = .called (.push item (some timeout))
  | .checking item caller, phase => phase = .called (.push item caller)
  | .gotWrite item caller _, phase => phase = .called (.push item caller)
  | .gotRead item caller readIndex, phase =>
    phase = if caller = none ∧ isFull queue queue.writeIndex readIndex = true then
      .answered .failed else .called (.push item caller)
  | .locating item, phase => ∃ caller, phase = .called (.push item caller)
  | .copying item _ _, phase => ∃ caller, phase = .called (.push item caller)
  | .stopped, phase => phase = .idle
  | .undefined, _ => False

/-- Whether the consumer's call has taken effect. -/
def PopPhase (queue : Queue n) : Consumer → Phase Call Answer → Prop
  | .idle, phase => phase = .idle
  | .looping timeout, phase => phase = .called (.pop (some timeout))
  | .checking caller, phase => phase = .called (.pop caller)
  | .gotRead caller _, phase => phase = .called (.pop caller)
  | .gotWrite caller writeIndex, phase =>
    phase = if caller = none ∧ isEmpty queue queue.readIndex writeIndex = true then
      .answered .failed else .called (.pop caller)
  | .locating, phase => ∃ caller, phase = .called (.pop caller)
  | .copying _ _ _, phase => ∃ caller, phase = .called (.pop caller)
  | .stopped, phase => phase = .idle
  | .undefined, _ => False

/-- The phases of the two threads. -/
def phases (push pop : Phase Call Answer) : Side → Phase Call Answer
  | .producer => push
  | .consumer => pop

theorem update_producer (push pop push' : Phase Call Answer) :
    Function.update (phases push pop) .producer push' = phases push' pop := by
  funext side
  cases side <;> rfl

theorem update_consumer (push pop pop' : Phase Call Answer) :
    Function.update (phases push pop) .consumer pop' = phases push pop' := by
  funext side
  cases side <;> rfl

/-- The calls so far, with the FIFO that the queue stands for. -/
def Placed (cap : Nat) (push pop : Phase Call Answer) (seen : List (Side × Event Call Answer))
    (held : List Item) : Prop :=
  Linearized (Atomic (cap - 1)) [] (phases push pop) seen held

variable {push pop : Phase Call Answer} {seen : List (Side × Event Call Answer)}

theorem Placed.invokePush (h : Placed cap .idle pop seen held) (item : Item)
    (caller : Option UInt32) :
    Placed cap (.called (.push item caller)) pop
      (seen ++ [(.producer, .invoke (.push item caller))]) held := by
  have h' := h.invoke (i := .producer) rfl (.push item caller)
  rwa [update_producer] at h'

theorem Placed.actPush {call : Call} {answer : Answer} {held' : List Item}
    (h : Placed cap (.called call) pop seen held)
    (hspec : Atomic (cap - 1) call held answer held') :
    Placed cap (.answered answer) pop seen held' := by
  have h' := h.act (i := .producer) rfl hspec
  rwa [update_producer] at h'

theorem Placed.respondPush {answer : Answer} (h : Placed cap (.answered answer) pop seen held) :
    Placed cap .idle pop (seen ++ [(.producer, .respond answer)]) held := by
  have h' := h.respond (i := .producer) rfl
  rwa [update_producer] at h'

theorem Placed.invokePop (h : Placed cap push .idle seen held) (caller : Option UInt32) :
    Placed cap push (.called (.pop caller)) (seen ++ [(.consumer, .invoke (.pop caller))])
      held := by
  have h' := h.invoke (i := .consumer) rfl (.pop caller)
  rwa [update_consumer] at h'

theorem Placed.actPop {call : Call} {answer : Answer} {held' : List Item}
    (h : Placed cap push (.called call) seen held)
    (hspec : Atomic (cap - 1) call held answer held') :
    Placed cap push (.answered answer) seen held' := by
  have h' := h.act (i := .consumer) rfl hspec
  rwa [update_consumer] at h'

theorem Placed.respondPop {answer : Answer} (h : Placed cap push (.answered answer) seen held) :
    Placed cap push .idle (seen ++ [(.consumer, .respond answer)]) held := by
  have h' := h.respond (i := .consumer) rfl
  rwa [update_consumer] at h'

/-! ## The producer -/

/-- The calls so far after a step of the producer, which shows `events`. -/
def PushPlaced (cap : Nat) (queue : Queue n) (producer : Producer) (pop : Phase Call Answer)
    (seen : List (Side × Event Call Answer)) (events : List (Event Call Answer))
    (held : List Item) : Prop :=
  ∃ push, PushPhase queue producer push ∧
    Placed cap push pop (seen ++ events.map (Prod.mk .producer)) held

/-- A step that shows nothing. -/
theorem pushPlaced_moves {producer : Producer} (hphase : PushPhase queue producer push)
    (h : Placed cap push pop seen held) : PushPlaced cap queue producer pop seen [] held := by
  refine ⟨push, hphase, ?_⟩
  rw [List.map_nil, List.append_nil]
  exact h

/-- A step that ends the call. -/
theorem pushPlaced_ends {producer : Producer} {answer : Answer}
    (hphase : PushPhase queue producer .idle) (h : Placed cap (.answered answer) pop seen held) :
    PushPlaced cap queue producer pop seen [.respond answer] held :=
  ⟨.idle, hphase, h.respondPush⟩

theorem full_held (h : Held cap size queue pushed popped) (hheld : pushed = popped ++ held)
    (hfull : isFull queue queue.writeIndex queue.readIndex = true) : held.length = cap - 1 := by
  rw [h.write, h.read] at hfull
  have hlength := (isFull_iff h.shape h.le h.room).mp hfull
  rw [hheld, List.length_append] at hlength
  omega

/-- A push that fails does so when `read_index` is read. -/
theorem push_fails {item : Item} {caller : Option UInt32} (h : Held cap size queue pushed popped)
    (hheld : pushed = popped ++ held)
    (hplaced : Placed cap (.called (.push item caller)) pop seen held) :
    Placed cap (if caller = none ∧ isFull queue queue.writeIndex queue.readIndex = true then
      .answered .failed else .called (.push item caller)) pop seen held := by
  split
  · next hfails =>
    obtain ⟨rfl, hfull⟩ := hfails
    exact hplaced.actPush (.full (full_held h hheld hfull))
  · exact hplaced

/-- The comparison of `queue_is_full`, with the effect of the call already decided. -/
theorem pushChecked_placed {item : Item} {caller : Option UInt32} {writeIndex readIndex : UInt32}
    {action : PushAction} (haction : action = .readRead ∨ action = .readWrite)
    (h : Placed cap (if caller = none ∧ isFull queue writeIndex readIndex = true then
      .answered .failed else .called (.push item caller)) pop seen held) :
    PushPlaced cap queue (pushChecked queue item caller writeIndex readIndex) pop seen
      (pushShows action (pushChecked queue item caller writeIndex readIndex)) held := by
  unfold pushChecked
  by_cases hfull : isFull queue writeIndex readIndex = true
  · rw [if_pos hfull]
    cases caller with
    | none =>
      rw [if_pos ⟨rfl, hfull⟩] at h
      rcases haction with rfl | rfl <;> exact pushPlaced_ends rfl h
    | some timeout =>
      rw [if_neg (fun hfails => Option.some_ne_none timeout hfails.1)] at h
      rcases haction with rfl | rfl <;> exact pushPlaced_moves rfl h
  · rw [if_neg hfull]
    rw [if_neg (fun hfails => hfull hfails.2)] at h
    rcases haction with rfl | rfl <;> exact pushPlaced_moves ⟨caller, rfl⟩ h

/-- **A step of the producer.** -/
theorem pushStep_placed {action : PushAction} {producer producer' : Producer} {items : List Item}
    (hstep : pushStep action queue producer = some (queue', producer', items))
    (h : Held cap size queue pushed popped)
    (hp : ProducerAt cap size queue pushed.length popped.length producer)
    (hheld : pushed = popped ++ held) (hphase : PushPhase queue producer push)
    (hplaced : Placed cap push pop seen held) :
    PushPlaced cap queue' producer' pop seen (pushShows action producer') (held ++ items) := by
  cases producer with
  | idle =>
    cases action with
    | call item caller =>
      obtain ⟨-, hstep⟩ := Option.ite_none_right_eq_some.mp hstep
      cases hphase
      cases caller with
      | none =>
        cases hstep
        rw [List.append_nil]
        exact ⟨_, rfl, hplaced.invokePush item none⟩
      | some timeout =>
        cases hstep
        rw [List.append_nil]
        exact ⟨_, rfl, hplaced.invokePush item (some timeout)⟩
    | _ => cases hstep
  | looping item timeout =>
    cases action with
    | look inTime =>
      cases hstep
      cases hphase
      rw [List.append_nil]
      by_cases hintime : timeout = 0 ∨ inTime = true
      · rw [if_pos hintime]
        exact pushPlaced_moves rfl hplaced
      · rw [if_neg hintime]
        exact pushPlaced_ends rfl (hplaced.actPush (.pushLate fun h0 => hintime (.inl h0)))
    | _ => cases hstep
  | checking item caller =>
    cases hphase
    cases action with
    | readWrite =>
      cases hstep
      rw [List.append_nil]
      exact pushPlaced_moves rfl hplaced
    | readRead =>
      cases hstep
      rw [List.append_nil]
      exact pushPlaced_moves rfl (push_fails h hheld hplaced)
    | _ => cases hstep
  | gotWrite item caller writeIndex =>
    cases hphase
    cases action with
    | readRead =>
      obtain ⟨-, rfl⟩ := hp
      cases hstep
      rw [List.append_nil]
      exact pushChecked_placed (.inl rfl) (push_fails h hheld hplaced)
    | _ => cases hstep
  | gotRead item caller readIndex =>
    cases hphase
    cases action with
    | readWrite =>
      cases hstep
      rw [List.append_nil]
      exact pushChecked_placed (.inr rfl) hplaced
    | _ => cases hstep
  | locating item =>
    cases action with
    | readWrite =>
      cases hstep
      rw [List.append_nil]
      exact pushPlaced_moves hphase hplaced
    | _ => cases hstep
  | copying item index i =>
    obtain ⟨caller, rfl⟩ := hphase
    cases action with
    | copy =>
      obtain ⟨hi, hstep⟩ := Option.ite_none_right_eq_some.mp hstep
      obtain ⟨data, hdata, -, -⟩ := push_copy h hp hi
      rw [hdata] at hstep
      cases hstep
      rw [List.append_nil]
      exact pushPlaced_moves ⟨caller, rfl⟩ hplaced
    | increment =>
      obtain ⟨hi, hstep⟩ := Option.ite_none_right_eq_some.mp hstep
      cases hstep
      have hroom : held.length < cap - 1 := by
        have hlt := hp.2.1
        rw [hheld, List.length_append] at hlt
        omega
      exact pushPlaced_ends rfl (hplaced.actPush (.pushed hroom))
    | _ => cases hstep
  | stopped => cases action <;> cases hstep
  | undefined => cases hp

/-! ## The consumer -/

/-- The calls so far after a step of the consumer, which shows `events`. -/
def PopPlaced (cap : Nat) (queue : Queue n) (consumer : Consumer) (push : Phase Call Answer)
    (seen : List (Side × Event Call Answer)) (events : List (Event Call Answer))
    (held : List Item) : Prop :=
  ∃ pop, PopPhase queue consumer pop ∧
    Placed cap push pop (seen ++ events.map (Prod.mk .consumer)) held

theorem popPlaced_moves {consumer : Consumer} (hphase : PopPhase queue consumer pop)
    (h : Placed cap push pop seen held) : PopPlaced cap queue consumer push seen [] held := by
  refine ⟨pop, hphase, ?_⟩
  rw [List.map_nil, List.append_nil]
  exact h

theorem popPlaced_ends {consumer : Consumer} {answer : Answer}
    (hphase : PopPhase queue consumer .idle) (h : Placed cap push (.answered answer) seen held) :
    PopPlaced cap queue consumer push seen [.respond answer] held :=
  ⟨.idle, hphase, h.respondPop⟩

theorem empty_held (h : Held cap size queue pushed popped) (hheld : pushed = popped ++ held)
    (hempty : isEmpty queue queue.readIndex queue.writeIndex = true) : held = [] := by
  rw [h.write, h.read] at hempty
  have hlength := (isEmpty_iff h.shape h.le h.room).mp hempty
  rw [hheld, List.length_append] at hlength
  exact List.eq_nil_of_length_eq_zero (by omega)

/-- A pop that fails does so when `write_index` is read. -/
theorem pop_fails {caller : Option UInt32} (h : Held cap size queue pushed popped)
    (hheld : pushed = popped ++ held)
    (hplaced : Placed cap push (.called (.pop caller)) seen held) :
    Placed cap push (if caller = none ∧ isEmpty queue queue.readIndex queue.writeIndex = true then
      .answered .failed else .called (.pop caller)) seen held := by
  split
  · next hfails =>
    obtain ⟨rfl, hempty⟩ := hfails
    obtain rfl := empty_held h hheld hempty
    exact hplaced.actPop .empty
  · exact hplaced

/-- The comparison of `queue_is_empty`, with the effect of the call already decided. -/
theorem popChecked_placed {caller : Option UInt32} {readIndex writeIndex : UInt32}
    {action : PopAction} {consumer : Consumer} (haction : action = .readRead ∨ action = .readWrite)
    (h : Placed cap push (if caller = none ∧ isEmpty queue readIndex writeIndex = true then
      .answered .failed else .called (.pop caller)) seen held) :
    PopPlaced cap queue (popChecked queue caller readIndex writeIndex) push seen
      (popShows action consumer (popChecked queue caller readIndex writeIndex)) held := by
  unfold popChecked
  by_cases hempty : isEmpty queue readIndex writeIndex = true
  · rw [if_pos hempty]
    cases caller with
    | none =>
      rw [if_pos ⟨rfl, hempty⟩] at h
      rcases haction with rfl | rfl <;> exact popPlaced_ends rfl h
    | some timeout =>
      rw [if_neg (fun hfails => Option.some_ne_none timeout hfails.1)] at h
      rcases haction with rfl | rfl <;> exact popPlaced_moves rfl h
  · rw [if_neg hempty]
    rw [if_neg (fun hfails => hempty hfails.2)] at h
    rcases haction with rfl | rfl <;> exact popPlaced_moves ⟨caller, rfl⟩ h

/-- **A step of the consumer.** -/
theorem popStep_placed {action : PopAction} {consumer consumer' : Consumer} {items : List Item}
    (hstep : popStep action queue consumer = some (queue', consumer', items))
    (h : Held cap size queue pushed popped)
    (hp : ConsumerAt cap size queue pushed popped.length consumer)
    (hheld : pushed = popped ++ held) (hphase : PopPhase queue consumer pop)
    (hplaced : Placed cap push pop seen held) :
    ∃ held', held = items ++ held' ∧
      PopPlaced cap queue' consumer' push seen (popShows action consumer consumer') held' := by
  cases consumer with
  | idle =>
    cases action with
    | call caller =>
      cases hphase
      cases caller with
      | none =>
        cases hstep
        exact ⟨held, rfl, _, rfl, hplaced.invokePop none⟩
      | some timeout =>
        cases hstep
        exact ⟨held, rfl, _, rfl, hplaced.invokePop (some timeout)⟩
    | _ => cases hstep
  | looping timeout =>
    cases action with
    | look inTime =>
      cases hstep
      cases hphase
      refine ⟨held, rfl, ?_⟩
      by_cases hintime : timeout = 0 ∨ inTime = true
      · rw [if_pos hintime]
        exact popPlaced_moves rfl hplaced
      · rw [if_neg hintime]
        exact popPlaced_ends rfl (hplaced.actPop (.popLate fun h0 => hintime (.inl h0)))
    | _ => cases hstep
  | checking caller =>
    cases hphase
    cases action with
    | readRead =>
      cases hstep
      exact ⟨held, rfl, popPlaced_moves rfl hplaced⟩
    | readWrite =>
      cases hstep
      exact ⟨held, rfl, popPlaced_moves rfl (pop_fails h hheld hplaced)⟩
    | _ => cases hstep
  | gotRead caller readIndex =>
    cases hphase
    cases action with
    | readWrite =>
      cases hp
      cases hstep
      exact ⟨held, rfl, popChecked_placed (.inr rfl) (pop_fails h hheld hplaced)⟩
    | _ => cases hstep
  | gotWrite caller writeIndex =>
    cases hphase
    cases action with
    | readRead =>
      cases hstep
      exact ⟨held, rfl, popChecked_placed (.inl rfl) hplaced⟩
    | _ => cases hstep
  | locating =>
    cases action with
    | readRead =>
      cases hstep
      exact ⟨held, rfl, popPlaced_moves hphase hplaced⟩
    | _ => cases hstep
  | copying index i out =>
    obtain ⟨caller, rfl⟩ := hphase
    cases action with
    | copy =>
      obtain ⟨hi, hstep⟩ := Option.ite_none_right_eq_some.mp hstep
      obtain ⟨b, hb, -⟩ := pop_copy h hp hi
      rw [hb] at hstep
      cases hstep
      exact ⟨held, rfl, popPlaced_moves ⟨caller, rfl⟩ hplaced⟩
    | increment =>
      obtain ⟨hi, hstep⟩ := Option.ite_none_right_eq_some.mp hstep
      cases hstep
      -- the bytes copied are the item at the front
      have hnext := (pop_increment h hp hi).order
      rw [hheld, List.prefix_append_right_inj] at hnext
      obtain ⟨rest, rfl⟩ := hnext
      exact ⟨rest, rfl, popPlaced_ends rfl (hplaced.actPop .popped)⟩
    | _ => cases hstep
  | stopped => cases action <;> cases hstep
  | undefined => cases hp

/-! ## Both -/

/-- A pop does not touch what the producer's phase depends on. -/
theorem pushPhase_pop {producer : Producer} (h : PushPhase queue producer push)
    (readIndex : UInt32) : PushPhase { queue with readIndex } producer push := by
  cases producer <;> exact h

/-- A push does not touch what the consumer's phase depends on. -/
theorem popPhase_push {consumer : Consumer} (h : PopPhase queue consumer pop)
    (hmask : queue'.mask = queue.mask) (hread : queue'.readIndex = queue.readIndex) :
    PopPhase queue' consumer pop := by
  cases consumer with
  | gotWrite caller writeIndex =>
    unfold PopPhase isEmpty queueIndex
    rw [hmask, hread]
    exact h
  | _ => exact h

/-- What the two threads keep, `seen` being what they have shown. -/
def Explained (cap size : Nat) (s : Threads n) (seen : List (Side × Event Call Answer)) : Prop :=
  Safe cap size s ∧ ∃ held push pop, s.pushed = s.popped ++ held ∧
    PushPhase s.queue s.producer push ∧ PopPhase s.queue s.consumer pop ∧
    Placed cap push pop seen held

theorem Explained.step {action : Action} {s s' : Threads n} (hstep : step action s = some s')
    (h : Explained cap size s seen) : Explained cap size s' (seen ++ shows action s s') := by
  obtain ⟨hsafe, held, push, pop, hheld, hpush, hpop, hplaced⟩ := h
  have hsafe' := hsafe.step hstep
  refine ⟨hsafe', ?_⟩
  cases action with
  | push action =>
    obtain ⟨⟨queue, producer, items⟩, hact, rfl⟩ := Option.map_eq_some_iff.mp hstep
    obtain ⟨-, -, hread⟩ := pushStep_keeps hact hsafe.held hsafe.producer
    obtain ⟨push', hpush', hplaced'⟩ :=
      pushStep_placed hact hsafe.held hsafe.producer hheld hpush hplaced
    have hmask : queue.mask = s.queue.mask :=
      UInt32.toNat_inj.mp (hsafe'.held.shape.mask.trans hsafe.held.shape.mask.symm)
    refine ⟨held ++ items, push', pop, ?_, hpush', popPhase_push hpop hmask hread, hplaced'⟩
    show s.pushed ++ items = s.popped ++ (held ++ items)
    rw [hheld, List.append_assoc]
  | pop action =>
    obtain ⟨⟨queue, consumer, items⟩, hact, rfl⟩ := Option.map_eq_some_iff.mp hstep
    obtain ⟨-, -, readIndex, rfl⟩ := popStep_keeps hact hsafe.held hsafe.consumer
    obtain ⟨held', rfl, pop', hpop', hplaced'⟩ :=
      popStep_placed hact hsafe.held hsafe.consumer hheld hpop hplaced
    refine ⟨held', push, pop', ?_, pushPhase_pop hpush readIndex, hpop', hplaced'⟩
    show s.pushed = s.popped ++ items ++ held'
    rw [hheld, List.append_assoc]

theorem Explained.start (hshape : Shape cap size queue) (hwrite : queue.writeIndex = 0)
    (hread : queue.readIndex = 0) : Explained cap size (start queue) [] := by
  refine ⟨Safe.start hshape hwrite hread, [], .idle, .idle, rfl, rfl, rfl, ?_⟩
  have hidle : phases .idle .idle = fun _ => .idle := by
    funext side
    cases side <;> rfl
  unfold Placed
  rw [hidle]
  exact Linearized.start

end Nuhal.Fifo

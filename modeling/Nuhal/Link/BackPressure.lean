import Nuhal.Link.Looks
import Nuhal.Link.Patience
import Nuhal.Link.Writes
import Nuhal.Linux.Transfer

/-!
# Blocking writes to a full buffer on Linux (`nuhal_all/src/uart.c:83-101`)

The write loop offers what is left again and again, so a `write` that takes only some of it is no
matter. But `uart_write_nonblock` treats a buffer that is full for the moment like any other
failure, and ends the program.

* `sentBy`, `WritesOn`, `WriteStops`: the passes of the write loop, as those of the read loop.
* `uartWriteBlock_passes`: every write goes through passes that go on up to one that ends it.
* `Survived`: how a blocking write is to end.
* **`write_survives_iff`**: it ends so exactly when it never asks while the buffer is full.
-/

namespace Nuhal.Link

open Nuhal.Lib Nuhal.All Nuhal.Clock

variable {port : Nat} {data : List UInt8} {timeout : UInt32} {τ : Nat → Nat} {w w' : World}

/-- The bytes of `data` that the first `i` answers take. -/
def sentBy (w : World) (data : List UInt8) (i : Nat) : Nat :=
  min (capacity (w.writes.take i)) data.length

/-- The pass after `i` others does not end the write. -/
structure WritesOn (data : List UInt8) (timeout : UInt32) (w : World) (i : Nat) : Prop where
  look : LookInTime timeout w (i + 1)
  answer : ∃ count, w.writes[i]? = some (.bytes count)
  short : sentBy w data (i + 1) < data.length

/-- How the pass after `i` others ends the write. -/
inductive WriteStops (port : Nat) (data : List UInt8) (timeout : UInt32) (w : World) (i : Nat)
    (w' : World) : Except Halt Nat → Prop
  | timedOut (stamp : TimeElapsed) (hlook : ¬ LookInTime timeout w (i + 1))
      (hlooked : Looked timeout w (i + 1) stamp w') :
      WriteStops port data timeout w i w' (.error (.error "Timeout on blocking write."))
  | waiting (hanswer : w.writes[i]? = none) :
      WriteStops port data timeout w i w' (.error .pending)
  | failed (msg : String) (hlook : LookInTime timeout w (i + 1))
      (hanswer : w.writes[i]? = some (.fail msg)) :
      WriteStops port data timeout w i w' (.error (.error msg))
  | complete (count : Nat) (stamp : TimeElapsed) (hlook : LookInTime timeout w (i + 1))
      (hanswer : w.writes[i]? = some (.bytes count))
      (hall : sentBy w data (i + 1) = data.length)
      (htx : w'.tx = Function.update w.tx port (w.tx port ++ data))
      (hlooked : Looked timeout w (i + 1) stamp w') :
      WriteStops port data timeout w i w' (.ok data.length)

/-- The state of the write loop after `i` passes. -/
structure AfterWrites (port : Nat) (data : List UInt8) (timeout : UInt32) (w : World) (i : Nat)
    (st : Writing) (w' : World) : Prop where
  writesOn : ∀ j < i, WritesOn data timeout w j
  looked : Looked timeout w i st.stamp w'
  written : st.written = sentBy w data i
  tx : w'.tx = Function.update w.tx port (w.tx port ++ data.take (sentBy w data i))
  writes : w'.writes = w.writes.drop i

/-- What the next pass of a write loop establishes. -/
abbrev NextWrite (port : Nat) (data : List UInt8) (timeout : UInt32) (w : World) :
    Nat → Except Halt (Writing ⊕ Nat) → World → Prop :=
  Run.Pass (fun st w' => ∃ i, AfterWrites port data timeout w i st w')
    (fun w' => w'.writes.length)
    (fun r w' => ∃ i, (∀ j < i, WritesOn data timeout w j) ∧ WriteStops port data timeout w i w' r)

/-! ## One pass -/

theorem sentBy_zero (w : World) (data : List UInt8) : sentBy w data 0 = 0 := by
  simp [sentBy, capacity]

theorem sentBy_succ {count i : Nat} (data : List UInt8) (h : w.writes[i]? = some (.bytes count)) :
    sentBy w data (i + 1) =
      sentBy w data i + ((data.drop (sentBy w data i)).take count).length := by
  have hcap := capacity_take_succ h
  unfold sentBy
  rw [List.length_take, List.length_drop, hcap]
  omega

/-- A pass in which the driver takes bytes, none included. -/
theorem writePass_bytes {i count : Nat} {st : Writing} {w₁ : World} {stamp : TimeElapsed}
    {ticks : Nat} (h : AfterWrites port data timeout w i st w₁)
    (hlook : LookInTime timeout w (i + 1)) (hanswer : w.writes[i]? = some (.bytes count))
    (hlooked : Looked timeout w (i + 1) stamp { w₁ with ticks := ticks })
    (hopen : deadlineOpen timeout st.stamp w₁ = (.ok (true, stamp), { w₁ with ticks := ticks })) :
    (writePass port data timeout st).Ends w₁
      (NextWrite port data timeout w w₁.writes.length) := by
  have hwrites := h.writes.trans (drop_of_getElem? hanswer)
  have hsum := sentBy_succ data hanswer
  have hpoll : uartWriteNonblock port (data.drop st.written) { w₁ with ticks := ticks } =
      (.ok ((data.drop (sentBy w data i)).take count).length,
        { w₁ with
          ticks := ticks
          tx := Function.update w₁.tx port
            (w₁.tx port ++ (data.drop (sentBy w data i)).take count)
          writes := w.writes.drop (i + 1) }) := by
    unfold uartWriteNonblock
    simp only [hwrites, h.written]
  have htx : Function.update w₁.tx port (w₁.tx port ++ (data.drop (sentBy w data i)).take count) =
      Function.update w.tx port (w.tx port ++ data.take (sentBy w data (i + 1))) := by
    rw [h.tx, Function.update_self, Function.update_idem, List.append_assoc, hsum, List.take_add,
      List.length_take, ← List.take_eq_take_min]
  refine Run.ends_of_eq (writePass_open st hopen hpoll) ?_
  dsimp only [handed]
  rw [h.written, ← hsum]
  by_cases hfull : sentBy w data (i + 1) = data.length
  · rw [if_pos hfull, hfull]
    refine ⟨i, h.writesOn,
      .complete count stamp hlook hanswer hfull ?_ (hlooked.congr rfl rfl rfl rfl)⟩
    rw [htx, hfull, List.take_length]
  · rw [if_neg hfull]
    have hshort : sentBy w data (i + 1) < data.length :=
      Nat.lt_of_le_of_ne (Nat.min_le_right _ _) hfull
    refine ⟨⟨i + 1, fun j hj => ?_, hlooked.congr rfl rfl rfl rfl, rfl, htx, rfl⟩, ?_⟩
    · rcases Nat.lt_succ_iff_lt_or_eq.mp hj with hlt | rfl
      · exact h.writesOn j hlt
      · exact ⟨hlook, ⟨count, hanswer⟩, hshort⟩
    · rw [hwrites]
      exact Nat.lt_succ_self _

/-- One pass of the write loop. -/
theorem writePass_next {st : Writing} {w₁ : World}
    (h : ∃ i, AfterWrites port data timeout w i st w₁) :
    (writePass port data timeout st).Ends w₁
      (NextWrite port data timeout w w₁.writes.length) := by
  obtain ⟨i, h⟩ := h
  obtain ⟨stamp, ticks, hlooked, hopen, hexpired⟩ := deadlineOpen_looked h.looked
  by_cases hlook : LookInTime timeout w (i + 1)
  · have hopen := hopen hlook
    cases hanswer : w.writes[i]? with
    | none =>
      have hwrites : w₁.writes = [] := by
        rw [h.writes, List.drop_eq_nil_of_le (List.getElem?_eq_none_iff.mp hanswer)]
      have hpoll : uartWriteNonblock port (data.drop st.written) { w₁ with ticks := ticks } = _ :=
        uartWriteNonblock_pending _ hwrites
      exact Run.ends_of_eq (writePass_open st hopen hpoll) ⟨i, h.writesOn, .waiting hanswer⟩
    | some answer =>
      cases answer with
      | bytes count => exact writePass_bytes h hlook hanswer hlooked hopen
      | fail msg =>
        have hwrites := h.writes.trans (drop_of_getElem? hanswer)
        have hpoll : uartWriteNonblock port (data.drop st.written) { w₁ with ticks := ticks } = _ :=
          uartWriteNonblock_fail _ hwrites
        exact Run.ends_of_eq (writePass_open st hopen hpoll)
          ⟨i, h.writesOn, .failed msg hlook hanswer⟩
  · have hraised : writePass port data timeout st w₁ =
        (.error (.error "Timeout on blocking write."),
          { w₁ with ticks := ticks, log := w₁.log ++ [.expired] }) := by
      unfold writePass
      rw [Run.bind_of_ok (hexpired hlook)]
      rfl
    exact Run.ends_of_eq hraised
      ⟨i, h.writesOn, .timedOut stamp hlook (hlooked.congr rfl rfl rfl rfl)⟩

/-! ## The whole write -/

/-- **A blocking write goes through passes that go on, up to one that ends it.** -/
theorem uartWriteBlock_passes (port : Nat) (data : List UInt8) (timeout : UInt32) (w : World) :
    (uartWriteBlock port data timeout).Ends w fun r w' =>
      ∃ i, (∀ j < i, WritesOn data timeout w j) ∧ WriteStops port data timeout w i w' r := by
  unfold Run.Ends
  rw [uartWriteBlock_start]
  refine Run.iterate_ends (fun _ _ h => writePass_next h) _ _ _ (Nat.lt_succ_self _) ⟨0, ?_⟩
  refine ⟨nofun, ⟨fun _ => rfl, rfl, rfl, fun _ => rfl, fun _ => rfl, rfl⟩,
    (sentBy_zero w data).symm, ?_, rfl⟩
  rw [sentBy_zero, List.take_zero, List.append_nil, Function.update_eq_self]

/-- The pass that ends a write is not one of those that go on. -/
theorem WriteStops.not_writesOn {i : Nat} {r : Except Halt Nat}
    (h : WriteStops port data timeout w i w' r) : ¬ WritesOn data timeout w i := by
  intro hgo
  obtain ⟨count, hbytes⟩ := hgo.answer
  cases h with
  | timedOut _ hlook => exact hlook hgo.look
  | waiting hanswer =>
    rw [hbytes] at hanswer
    cases hanswer
  | failed _ _ hanswer =>
    rw [hbytes] at hanswer
    cases hanswer
  | complete _ _ _ _ hall => exact Nat.ne_of_lt hgo.short hall

/-- A look that finds the deadline passed comes after the deadline. -/
theorem waited_of_late {i : Nat} {stamp : TimeElapsed} (htime : TrueTime τ w)
    (hlook : ¬ LookInTime timeout w (i + 1)) (hlooked : Looked timeout w (i + 1) stamp w') :
    Waited τ timeout w w' := by
  have h0 : timeout ≠ 0 := fun h0 => hlook (.inl h0)
  have hle := elapsedAfter_le (τ := fun k => τ (w.ticks + k))
    (fun a b hab => htime.mono (Nat.add_le_add_left hab _)) (fun k => htime.shows (w.ticks + k))
    (i + 1)
  have hlate : timeout.toNat ≤ (elapsedAfter w.period (fun k => w.clock (w.ticks + k))
      (i + 1)).1.toNat :=
    UInt32.le_iff_toNat_le.mp (UInt32.not_lt.mp fun hlt => hlook (.inr hlt))
  refine ⟨h0, ?_⟩
  rw [hlooked.ticks h0]
  exact Nat.le_trans hlate hle.2.2

/-! ## Back-pressure -/

/-- How a blocking write is to end: it has handed over exactly `data`, or it gives up after its
timeout. It may still be at it only if what `write` has taken is not all. -/
def Survived (τ : Nat → Nat) (port : Nat) (data : List UInt8) (timeout : UInt32) (w : World) :
    Except Halt Nat → World → Prop
  | .ok k, w' => k = data.length ∧ w'.tx = Function.update w.tx port (w.tx port ++ data)
  | .error (.error msg), w' => msg = "Timeout on blocking write." ∧ Waited τ timeout w w'
  | .error .pending, _ => w.writes = [] ∨ capacity w.writes < data.length
  | .error .undefined, _ => False

/-- The loop does not get to a `write` that would block. -/
def MeetsNoBlock (data : List UInt8) (timeout : UInt32) (outcomes : List Linux.WriteOutcome)
    (w : World) : Prop :=
  ∀ i, (∀ j < i, WritesOn data timeout w j) → LookInTime timeout w (i + 1) →
    outcomes[i]? ≠ some .wouldBlock

theorem getElem?_answer {outcomes : List Linux.WriteOutcome} {i : Nat}
    (h : w.writes = outcomes.map (·.answer)) :
    w.writes[i]? = outcomes[i]?.map (·.answer) := by
  rw [h, List.getElem?_map]

theorem answer_wouldBlock :
    Linux.WriteOutcome.wouldBlock.answer = .fail "Resource temporarily unavailable" := rfl

theorem answer_fail {outcome : Linux.WriteOutcome} {msg : String}
    (h : outcome.answer = .fail msg) : outcome = .wouldBlock := by
  cases outcome with
  | accepted room => cases h
  | wouldBlock => rfl

/-- A write whose loop has used up all outcomes. -/
theorem pending_of_waiting {i : Nat} (hgo : ∀ j < i, WritesOn data timeout w j)
    (hanswer : w.writes[i]? = none) : w.writes = [] ∨ capacity w.writes < data.length := by
  cases i with
  | zero => exact .inl (by simpa using hanswer)
  | succ i =>
    have hshort := (hgo i (Nat.lt_succ_self i)).short
    unfold sentBy at hshort
    rw [List.take_of_length_le (List.getElem?_eq_none_iff.mp hanswer)] at hshort
    exact .inr (by omega)

/-- **A blocking write survives back-pressure exactly when it never meets a full buffer**: for all
data, every timeout and every sequence of outcomes of `write`, on a clock that shows the true
time. -/
theorem write_survives_iff (port : Nat) (data : List UInt8) (timeout : UInt32)
    (outcomes : List Linux.WriteOutcome) (w : World) (htime : TrueTime τ w)
    (houtcomes : w.writes = outcomes.map (·.answer)) :
    (uartWriteBlock port data timeout).Ends w (Survived τ port data timeout w) ↔
      MeetsNoBlock data timeout outcomes w := by
  rcases hrun : uartWriteBlock port data timeout w with ⟨r, w'⟩
  obtain ⟨i, hgo, hstops⟩ := (uartWriteBlock_passes port data timeout w).elim hrun
  refine ⟨fun h k hgo' hlook hblock => ?_, fun h => Run.ends_of_eq hrun ?_⟩
  · have hfail : w.writes[k]? = some (.fail "Resource temporarily unavailable") := by
      rw [getElem?_answer houtcomes, hblock, Option.map_some, answer_wouldBlock]
    have hstop : ¬ WritesOn data timeout w k := fun hon => by
      obtain ⟨count, hbytes⟩ := hon.answer
      rw [hfail] at hbytes
      cases hbytes
    obtain rfl := Run.first_stop_unique hgo hstops.not_writesOn hgo' hstop
    have hsurvived := h.elim hrun
    cases hstops with
    | timedOut _ hlate => exact hlate hlook
    | waiting hnone =>
      rw [hfail] at hnone
      cases hnone
    | failed msg _ hmsg =>
      rw [hfail] at hmsg
      cases hmsg
      exact absurd hsurvived.1 (by decide)
    | complete _ _ _ hbytes =>
      rw [hfail] at hbytes
      cases hbytes
  · cases hstops with
    | timedOut stamp hlook hlooked => exact ⟨rfl, waited_of_late htime hlook hlooked⟩
    | waiting hanswer => exact pending_of_waiting hgo hanswer
    | failed msg hlook hanswer =>
      rw [getElem?_answer houtcomes, Option.map_eq_some_iff] at hanswer
      obtain ⟨outcome, hget, hfail⟩ := hanswer
      exact absurd (hget.trans (congrArg some (answer_fail hfail))) (h i hgo hlook)
    | complete _ _ _ _ _ htx => exact ⟨rfl, htx⟩

/-- A world without anything to read, in which `write` has these outcomes. -/
def pressed (outcomes : List Linux.WriteOutcome) : World :=
  { scheduled [] [] [] with writes := outcomes.map (·.answer) }

theorem pressed_trueTime (outcomes : List Linux.WriteOutcome) :
    TrueTime (fun _ => 0) (pressed outcomes) :=
  ⟨fun _ _ _ => Nat.le_refl 0, fun _ => rfl⟩

/-- Three bytes, of which the buffer takes one and then the others. -/
theorem write_survives_iff_short :
    (uartWriteBlock 0 [1, 2, 3] 0).Ends
      (pressed [.accepted 1 (by decide), .accepted 7 (by decide)])
      (Survived (fun _ => 0) 0 [1, 2, 3] 0
        (pressed [.accepted 1 (by decide), .accepted 7 (by decide)])) := by
  refine (write_survives_iff 0 [1, 2, 3] 0 _ _ (pressed_trueTime _) rfl).mpr fun i _ _ => ?_
  rcases i with _ | _ | i
  · simp
  · simp
  · simp

/-- The buffer is full at the second `write`: the program ends. -/
theorem write_blocked : TrueTime (fun _ => 0) (pressed [.accepted 1 (by decide), .wouldBlock]) ∧
    ¬ (uartWriteBlock 0 [1, 2, 3] 0).Ends (pressed [.accepted 1 (by decide), .wouldBlock])
      (Survived (fun _ => 0) 0 [1, 2, 3] 0
        (pressed [.accepted 1 (by decide), .wouldBlock])) := by
  refine ⟨pressed_trueTime _, fun h => ?_⟩
  have hmsg : (uartWriteBlock 0 [1, 2, 3] 0
      (pressed [.accepted 1 (by decide), .wouldBlock])).1 =
        .error (.error "Resource temporarily unavailable") := by decide +kernel
  unfold Run.Ends at h
  rw [hmsg] at h
  exact absurd h.1 (by decide)

end Nuhal.Link

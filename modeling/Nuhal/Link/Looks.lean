import Nuhal.Link.Schedule

/-!
# The looks at the clock of a blocking call (`nuhal_all/src/uart.c:19-28`, `uart.c:86-89`)

A blocking read or write sets up its stamp and then looks at the clock once a pass, if it has a
deadline. What the `i`-th look shows follows from the clock alone.

* `LookInTime`: the `i`-th look finds the deadline open.
* `Looked`: the clock and the stamp after `i` looks. `deadlineOpen_looked` is the next one.
* `lookInTime_of_still`: on a clock that stands still no deadline passes.
-/

namespace Nuhal.Link

open Nuhal.Lib Nuhal.All

variable {timeout : UInt32} {w w' : World}

/-- The `i`-th look at the clock, after the reading that sets up the stamp, is in time. -/
def LookInTime (timeout : UInt32) (w : World) (i : Nat) : Prop :=
  timeout = 0 ∨ (elapsedAfter w.period (fun k => w.clock (w.ticks + k)) i).1 < timeout

theorem elapsedAfter_still (period : UInt32) (i : Nat) :
    elapsedAfter period (fun _ => 0) i = (0, timeElapsedInit 0) := by
  induction i with
  | zero => rfl
  | succ i ih =>
    unfold elapsedAfter
    rw [ih]
    simp [timeElapsed, timeElapsedInit]

/-- On a clock that stands still no deadline passes. -/
theorem lookInTime_of_still (hclock : ∀ i, w.clock i = 0) (i : Nat) : LookInTime timeout w i := by
  have hstill : (fun k => w.clock (w.ticks + k)) = fun _ => 0 := funext fun k => hclock _
  unfold LookInTime
  rw [hstill, elapsedAfter_still]
  by_cases h0 : timeout = 0
  · exact .inl h0
  · exact .inr (zero_lt_of_ne h0)

/-- The stamp of a call that starts in `w`, and the clock, after `i` looks. -/
structure Looked (timeout : UInt32) (w : World) (i : Nat) (stamp : TimeElapsed) (w' : World) :
    Prop where
  stamp : timeout ≠ 0 →
    stamp = (elapsedAfter w.period (fun k => w.clock (w.ticks + k)) i).2
  clock : w'.clock = w.clock
  period : w'.period = w.period
  ticks : timeout ≠ 0 → w'.ticks = w.ticks + (i + 1)
  still : timeout = 0 → w'.ticks = w.ticks + 1
  wait : w'.wait = w.wait

/-- Only the clock matters. -/
theorem Looked.congr {i : Nat} {stamp : TimeElapsed} {w'' : World}
    (h : Looked timeout w i stamp w') (hclock : w''.clock = w'.clock)
    (hperiod : w''.period = w'.period) (hticks : w''.ticks = w'.ticks)
    (hwait : w''.wait = w'.wait) : Looked timeout w i stamp w'' :=
  ⟨h.stamp, hclock.trans h.clock, hperiod.trans h.period, fun h0 => hticks.trans (h.ticks h0),
    fun h0 => hticks.trans (h.still h0), hwait.trans h.wait⟩

/-- Where the clock stands. -/
theorem Looked.reading {i : Nat} {stamp : TimeElapsed} (h : Looked timeout w i stamp w') :
    w'.ticks = w.ticks + 1 + i * looks timeout := by
  unfold looks
  by_cases h0 : timeout = 0
  · rw [if_pos h0, h.still h0]
    rfl
  · rw [if_neg h0, h.ticks h0]
    omega

theorem deadlineOpen_looked {i : Nat} {stamp : TimeElapsed} (h : Looked timeout w i stamp w') :
    ∃ stamp' ticks, Looked timeout w (i + 1) stamp' { w' with ticks := ticks } ∧
      (LookInTime timeout w (i + 1) →
        deadlineOpen timeout stamp w' = (.ok (true, stamp'), { w' with ticks := ticks })) ∧
      (¬ LookInTime timeout w (i + 1) → deadlineOpen timeout stamp w' =
        (.ok (false, stamp'), { w' with ticks := ticks, log := w'.log ++ [.expired] })) := by
  by_cases h0 : timeout = 0
  · subst h0
    exact ⟨stamp, w'.ticks,
      ⟨fun h => absurd rfl h, h.clock, h.period, fun h => absurd rfl h, h.still, h.wait⟩,
      fun _ => deadlineOpen_zero _ _, fun hlook => absurd (.inl rfl) hlook⟩
  · have helapsed : timeElapsed w'.period stamp (w'.clock w'.ticks) =
        elapsedAfter w.period (fun k => w.clock (w.ticks + k)) (i + 1) := by
      rw [h.period, h.clock, h.stamp h0, h.ticks h0]
      rfl
    refine ⟨_, w'.ticks + 1,
      ⟨fun _ => rfl, h.clock, h.period, fun _ => ?_, fun h => absurd h h0, h.wait⟩, fun hlook => ?_,
      fun hlook => ?_⟩
    · show w'.ticks + 1 = _
      rw [h.ticks h0]
      omega
    · rw [← helapsed]
      refine deadlineOpen_lt h0 ?_
      rw [helapsed]
      exact hlook.resolve_left h0
    · rw [← helapsed]
      refine deadlineOpen_ge h0 fun hlt => hlook (.inr ?_)
      rw [helapsed] at hlt
      exact hlt

end Nuhal.Link

import Nuhal.All.Driver
import Nuhal.Lib.Foretold

/-!
# The common code uses its driver and nothing else (`nuhal_all/src/uart.c:8-101`)

Two drivers are `Related` when each of their functions is, for any relation between programs that
sequences and loops respect. What the blocking functions do on the one is then related to what they
do on the other, and so is every program on a port (**`client_related`**): the code is the same, and
all that it knows of a platform comes through the driver.

`uart_wait_for_data` is related together with the clock reading before it (`startReading`).
-/

namespace Nuhal.Drivers

open Nuhal.Lib Nuhal.All

variable {n : Nat} {σ τ α : Type}

/-- The functions of two drivers, one by one. -/
structure Related (C : Congruence σ τ Halt) (d : Driver σ) (d' : Driver τ) : Prop where
  timeCurrentMs : C.related d.timeCurrentMs d'.timeCurrentMs
  timePeriodMs : C.related d.timePeriodMs d'.timePeriodMs
  startReading : ∀ timeout, C.related (d.startReading timeout) (d'.startReading timeout)
  uartReadNonblock : ∀ {n : Nat} (mem : Vector UInt8 n) (off len : Nat),
    C.related (d.uartReadNonblock mem off len) (d'.uartReadNonblock mem off len)
  uartWriteNonblock : ∀ data, C.related (d.uartWriteNonblock data) (d'.uartWriteNonblock data)
  record : ∀ e, C.related (d.record e) (d'.record e)

variable {C : Congruence σ τ Halt} {d : Driver σ} {d' : Driver τ}

namespace Related

theorem timeElapsedMs (h : Related C d d') (stamp : TimeElapsed) :
    C.related (d.timeElapsedMs stamp) (d'.timeElapsedMs stamp) :=
  C.bind h.timeCurrentMs fun _ => C.bind h.timePeriodMs fun _ => C.pure _

theorem deadlineOpen (h : Related C d d') (timeout : UInt32) (stamp : TimeElapsed) :
    C.related (d.deadlineOpen timeout stamp) (d'.deadlineOpen timeout stamp) := by
  unfold Driver.deadlineOpen
  split
  · exact C.pure _
  · refine C.bind (h.timeElapsedMs stamp) fun (elapsed, stamp) => ?_
    dsimp only
    split
    · exact C.pure _
    · exact C.bind (h.record _) fun _ => C.pure _

theorem lastRead (h : Related C d d') (mem : Vector UInt8 n) (off read : Nat) :
    C.related (d.lastRead mem off read) (d'.lastRead mem off read) := by
  refine C.bind (h.record _) fun _ => ?_
  split
  · exact C.pure _
  · exact C.stop _

theorem terminated (h : Related C d d') (term : UartTerm) (mem : Vector UInt8 n)
    (off read : Nat) :
    C.related (d.terminated term mem off read) (d'.terminated term mem off read) := by
  cases term with
  | none => exact C.pure _
  | _ => exact C.bind (h.lastRead mem off read) fun _ => C.pure _

theorem readPass (h : Related C d d') (off len : Nat) (timeout : UInt32) (term : UartTerm)
    (timeoutError : Bool) (st : Reading n) :
    C.related (d.readPass off len timeout term timeoutError st)
      (d'.readPass off len timeout term timeoutError st) := by
  refine C.bind (h.deadlineOpen timeout st.stamp) fun (isOpen, stamp) => ?_
  cases isOpen with
  | true =>
    refine C.bind (h.uartReadNonblock _ _ _) fun (k, mem) => ?_
    dsimp only
    split
    · exact C.pure _
    · refine C.bind (h.terminated term mem off _) fun ends => ?_
      cases ends with
      | true => exact C.pure _
      | false => exact C.pure _
  | false =>
    cases timeoutError with
    | true => exact C.bind (C.stop _) fun _ => C.pure _
    | false => exact C.pure _

theorem uartReadBlockError (h : Related C d d') (passes : Nat) (mem : Vector UInt8 n)
    (off len : Nat) (timeout : UInt32) (term : UartTerm) (timeoutError : Bool) :
    C.related (d.uartReadBlockError passes mem off len timeout term timeoutError)
      (d'.uartReadBlockError passes mem off len timeout term timeoutError) := by
  refine C.bind (h.record _) fun _ => ?_
  by_cases hlen : len = 0
  · simp only [if_pos hlen]
    exact C.pure _
  · simp only [if_neg hlen]
    refine C.bind (h.startReading timeout) fun stamp => ?_
    exact C.iterate (h.readPass off len timeout term timeoutError) passes _

theorem writePass (h : Related C d d') (data : List UInt8) (timeout : UInt32) (st : Writing) :
    C.related (d.writePass data timeout st) (d'.writePass data timeout st) := by
  refine C.bind (h.deadlineOpen timeout st.stamp) fun (isOpen, stamp) => ?_
  cases isOpen with
  | true =>
    refine C.bind (h.uartWriteNonblock _) fun k => ?_
    dsimp only
    split
    · exact C.pure _
    · exact C.pure _
  | false => exact C.stop _

theorem uartWriteBlock (h : Related C d d') (passes : Nat) (data : List UInt8)
    (timeout : UInt32) :
    C.related (d.uartWriteBlock passes data timeout) (d'.uartWriteBlock passes data timeout) := by
  refine C.bind (C.bind h.timeCurrentMs fun _ => C.pure _) fun stamp => ?_
  exact C.iterate (h.writePass data timeout) passes _

end Related

/-- **A program on a port does related things on related drivers.** -/
theorem client_related (h : Related C d d') (client : Client α) (passes : Nat) :
    C.related (client.onDriver d passes) (client.onDriver d' passes) := by
  induction client with
  | done a => exact C.pure a
  | stop e => exact C.stop e
  | record e next ih => exact C.bind (h.record e) fun _ => ih
  | write data timeout next ih => exact C.bind (h.uartWriteBlock passes data timeout) ih
  | read mem off len timeout term timeoutError next ih =>
    exact C.bind (h.uartReadBlockError passes mem off len timeout term timeoutError) ih

end Nuhal.Drivers

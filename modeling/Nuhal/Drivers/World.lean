import Nuhal.All.Driver
import Nuhal.Lib.Foretold
import Nuhal.Link.Patience
import Nuhal.Link.Writes

/-!
# The driver of a world

On `worldDriver` the blocking functions do what they do in `All/Uart`, where the loops have as many
passes as the schedule has answers left, and one more: every pass that goes on has used one up
(`readPass_shortens`, `writePass_shortens`). **`client_approximates`** says it of every program on
the port.
-/

namespace Nuhal.Drivers

open Nuhal.Lib Nuhal.All Nuhal.Link

variable {n : Nat} {α : Type} {port : Nat}

/-! ## The same passes -/

theorem lastRead_world (mem : Vector UInt8 n) (off read : Nat) :
    (worldDriver port).lastRead mem off read = lastRead mem off read := by
  funext w
  have hrecord : (worldDriver port).record (.terminator read) w =
      (.ok (), w.logged (.terminator read)) := rfl
  unfold Driver.lastRead lastRead
  rw [Run.bind_of_ok hrecord]
  cases (if off + read = 0 then none else mem[off + read - 1]?) <;> rfl

theorem terminated_world (term : UartTerm) (mem : Vector UInt8 n) (off read : Nat) :
    (worldDriver port).terminated term mem off read = terminated term mem off read := by
  cases term <;> simp only [Driver.terminated, terminated, lastRead_world]

theorem readPass_world (off len : Nat) (timeout : UInt32) (term : UartTerm) (timeoutError : Bool) :
    (worldDriver port).readPass (n := n) off len timeout term timeoutError =
      readPass port off len timeout term timeoutError := by
  funext st
  unfold Driver.readPass Driver.readOn readPass
  simp only [terminated_world]
  rfl

theorem writePass_world (data : List UInt8) (timeout : UInt32) :
    (worldDriver port).writePass data timeout = writePass port data timeout := rfl

/-! ## And as many as needed -/

theorem lastRead_reads (mem : Vector UInt8 n) (off read : Nat) (w : World) :
    (lastRead mem off read w).2.reads = w.reads := by
  unfold lastRead
  split <;> rfl

/-- Looking for a terminator takes nothing off the port. -/
theorem terminated_reads {term : UartTerm} {mem : Vector UInt8 n} {off read : Nat} {ends : Bool}
    {w w' : World} (h : terminated term mem off read w = (.ok ends, w')) : w'.reads = w.reads := by
  have hlast := lastRead_reads mem off read w
  cases term with
  | none =>
    cases h
    rfl
  | _ =>
    obtain ⟨b, w₁, hb, hrest⟩ := Run.bind_eq_ok h
    rw [hb] at hlast
    cases hrest
    exact hlast

/-- A pass of the read loop that goes on has used up an answer. -/
theorem readPass_shortens {off len : Nat} {timeout : UInt32} {term : UartTerm} {timeoutError : Bool}
    {st st' : Reading n} {w w' : World}
    (h : readPass port off len timeout term timeoutError st w = (.ok (.inl st'), w')) :
    w'.reads.length < w.reads.length := by
  obtain ⟨stamp, ticks, hopen | ⟨-, hexpired⟩⟩ := deadlineOpen_cases timeout st.stamp w
  · unfold readPass at h
    rw [Run.bind_of_ok hopen] at h
    obtain ⟨⟨k, mem'⟩, w₂, hread, hrest⟩ := Run.bind_eq_ok h
    have hfewer := (uartReadNonblock_timed hread).2.2.2.2 k mem' rfl
    dsimp only at hrest
    by_cases hfull : st.read + k = len
    · rw [if_pos hfull] at hrest
      cases hrest
    · rw [if_neg hfull] at hrest
      obtain ⟨ends, w₃, hends, hlast⟩ := Run.bind_eq_ok hrest
      have hkept := terminated_reads hends
      cases ends with
      | true => cases hlast
      | false =>
        cases hlast
        rw [hkept]
        exact hfewer
  · rw [readPass_expired hexpired] at h
    cases timeoutError <;> cases h

theorem uartWriteNonblock_shortens {data : List UInt8} {k : Nat} {w w' : World}
    (h : uartWriteNonblock port data w = (.ok k, w')) : w'.writes.length < w.writes.length := by
  unfold uartWriteNonblock at h
  split at h
  · cases h
  · cases h
  · next hwrites =>
    cases h
    rw [hwrites]
    exact Nat.lt_succ_self _

/-- A pass of the write loop that goes on has used up an answer. -/
theorem writePass_shortens {data : List UInt8} {timeout : UInt32} {st st' : Writing} {w w' : World}
    (h : writePass port data timeout st w = (.ok (.inl st'), w')) :
    w'.writes.length < w.writes.length := by
  obtain ⟨stamp, ticks, hopen | ⟨-, hexpired⟩⟩ := deadlineOpen_cases timeout st.stamp w
  · unfold writePass at h
    rw [Run.bind_of_ok hopen] at h
    obtain ⟨k, w₂, hwrite, hrest⟩ := Run.bind_eq_ok h
    have hfewer := uartWriteNonblock_shortens hwrite
    dsimp only at hrest
    by_cases hfull : st.written + k = data.length
    · rw [if_pos hfull] at hrest
      cases hrest
    · rw [if_neg hfull] at hrest
      cases hrest
      exact hfewer
  · unfold writePass at h
    rw [Run.bind_of_ok hexpired] at h
    cases h

theorem uartReadBlockError_approximates (passes : Nat) (mem : Vector UInt8 n) (off len : Nat)
    (timeout : UInt32) (term : UartTerm) (timeoutError : Bool) :
    Run.Approximates .pending
      ((worldDriver port).uartReadBlockError passes mem off len timeout term timeoutError)
      (uartReadBlockError port mem off len timeout term timeoutError) := by
  refine Run.Approximates.bind (Run.Approximates.refl _) fun _ => ?_
  by_cases hlen : len = 0
  · simp only [if_pos hlen]
    exact Run.Approximates.refl _
  · simp only [if_neg hlen]
    unfold Driver.startReading
    rw [Run.bind_assoc]
    refine Run.Approximates.bind (Run.Approximates.refl _) fun stamp => ?_
    rw [Run.bind_assoc]
    refine Run.Approximates.bind (Run.Approximates.refl _) fun _ => ?_
    rw [readPass_world]
    exact Run.iterate_approximates (fun w : World => w.reads.length)
      (fun _ _ _ _ => readPass_shortens) passes _

theorem uartWriteBlock_approximates (passes : Nat) (data : List UInt8) (timeout : UInt32) :
    Run.Approximates .pending ((worldDriver port).uartWriteBlock passes data timeout)
      (uartWriteBlock port data timeout) := by
  refine Run.Approximates.bind (Run.Approximates.refl _) fun stamp => ?_
  rw [writePass_world]
  exact Run.iterate_approximates (fun w : World => w.writes.length)
    (fun _ _ _ _ => writePass_shortens) passes _

/-- **On the driver of a world a program does what it does on the world.** -/
theorem client_approximates (client : Client α) (passes : Nat) :
    Run.Approximates .pending (client.onDriver (worldDriver port) passes)
      (client.onPlatform port) := by
  induction client with
  | done a => exact Run.Approximates.refl _
  | stop e => exact Run.Approximates.refl _
  | record e next ih => exact (Run.Approximates.refl (record e)).bind fun _ => ih
  | write data timeout next ih =>
    exact (uartWriteBlock_approximates passes data timeout).bind ih
  | read mem off len timeout term timeoutError next ih =>
    exact (uartReadBlockError_approximates passes mem off len timeout term timeoutError).bind ih

end Nuhal.Drivers

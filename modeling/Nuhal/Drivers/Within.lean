import Nuhal.Tiva.Driver

/-!
# Reads stay in their block (`nuhal_all/src/uart.c:8-101`)

An access outside its block has no meaning, and ends a run in the model (`Halt.undefined`). A driver
that stores no more than it was asked for (`Within`) makes none for a buffer that lies in its block;
nor do then the blocking functions, without a terminator.

* `uartReadBlockError_within`, `uartWriteBlock_within`: the two loops. A read keeps `read ≤ len`.
* `tivaDriver_within`: the Tiva's driver is such, whatever TivaWare and the hardware do.
-/

namespace Nuhal.Drivers

open Nuhal.Lib Nuhal.Lib.Run Nuhal.All Nuhal.Tiva

variable {n : Nat} {σ α : Type}

/-- How a read of `len` bytes into `mem + off` ends that stays there: with no more bytes than that,
and what lies before them as it was. -/
def Stays (mem : Vector UInt8 n) (off len : Nat) : Except Halt (Nat × Vector UInt8 n) → Prop
  | .ok (k, mem') => k ≤ len ∧ mem'.toList.take off = mem.toList.take off
  | .error e => e ≠ .undefined

/-- A driver that stores what it was asked for, and nothing else. -/
structure Within (d : Driver σ) : Prop where
  current : d.timeCurrentMs.Never .undefined
  period : d.timePeriodMs.Never .undefined
  waits : ∀ timeout, (d.uartWaitForData timeout).Never .undefined
  reads : ∀ {n : Nat} (mem : Vector UInt8 n) (off len : Nat), off + len ≤ n → ∀ s,
    (d.uartReadNonblock mem off len).Ends s fun r _ => Stays mem off len r
  writes : ∀ data, (d.uartWriteNonblock data).Never .undefined
  records : ∀ e, (d.record e).Never .undefined

variable {d : Driver σ}

theorem never_error {e : Halt} (he : ∀ msg, e ≠ .error msg) (msg : String) :
    (error msg : Run σ Halt α).Never e := Never.stop (he msg).symm

theorem pending_ne : Halt.pending ≠ .undefined := nofun

theorem pending_ne_error (msg : String) : Halt.pending ≠ .error msg := nofun

theorem undefined_ne_error (msg : String) : Halt.undefined ≠ .error msg := nofun

theorem error_within (msg : String) : (error msg : Run σ Halt α).Never .undefined :=
  never_error undefined_ne_error msg

theorem deadlineOpen_within (hd : Within d) (timeout : UInt32) (stamp : TimeElapsed) :
    (d.deadlineOpen timeout stamp).Never .undefined := by
  unfold Driver.deadlineOpen
  split
  · exact Never.pure _ _
  · refine Never.bind (hd.current.bind fun _ => hd.period.bind fun _ => Never.pure _ _)
      fun (elapsed, stamp) => ?_
    dsimp only
    split
    · exact Never.pure _ _
    · exact (hd.records .expired).bind fun _ => Never.pure _ _

/-! ## Reads -/

variable {off len : Nat} {timeoutError : Bool}

/-- What comes before a part that stays in the block. -/
theorem stays_bind {m : Run σ Halt α} {f : α → Run σ Halt (Nat × Vector UInt8 n)}
    {mem : Vector UInt8 n} (hm : m.Never .undefined)
    (hf : ∀ a s, (f a).Ends s fun r _ => Stays mem off len r) (s : σ) :
    (m >>= f).Ends s fun r _ => Stays mem off len r := by
  refine Ends.bind (P := fun r _ => r ≠ .error .undefined) (hm s) (fun a s' _ => hf a s')
    fun e s' he => ?_
  exact fun h => he (congrArg Except.error h)

/-- The loop has not read more than there is room for, and nothing before the buffer was changed. -/
def ReadingWithin (mem : Vector UInt8 n) (off len : Nat) (st : Reading n) (_ : σ) : Prop :=
  st.read ≤ len ∧ st.mem.toList.take off = mem.toList.take off

theorem readOn_within (hd : Within d) {mem : Vector UInt8 n} (hin : off + len ≤ n)
    {st : Reading n} {s : σ} (hst : ReadingWithin mem off len st s) (isOpen : Bool)
    (stamp : TimeElapsed) : (d.readOn off len .none timeoutError st isOpen stamp).Ends s
      (PartialPass (ReadingWithin mem off len) fun r _ => Stays mem off len r) := by
  obtain ⟨hread, hbefore⟩ := hst
  unfold Driver.readOn
  cases isOpen with
  | true =>
    refine Ends.bind (hd.reads st.mem (off + st.read) (len - st.read) (by omega) s)
      (fun (k, mem') s' ⟨hk, hkept⟩ => ?_) fun e s' he => he
    have hkept' : mem'.toList.take off = mem.toList.take off := by
      have hprefix := congrArg (List.take off) hkept
      rw [List.take_take, List.take_take, Nat.min_eq_left (Nat.le_add_right _ _)] at hprefix
      exact hprefix.trans hbefore
    dsimp only
    split
    · exact ⟨by omega, hkept'⟩
    · exact ⟨by show st.read + k ≤ len; omega, hkept'⟩
  | false =>
    cases timeoutError with
    | true => exact undefined_ne_error _ ∘ Eq.symm
    | false => exact ⟨hread, hbefore⟩

/-- **A read into a buffer in its block stays there.** -/
theorem uartReadBlockError_within (hd : Within d) (passes : Nat) (mem : Vector UInt8 n)
    (hin : off + len ≤ n) (timeout : UInt32) (timeoutError : Bool) (s : σ) :
    (d.uartReadBlockError passes mem off len timeout .none timeoutError).Ends s
      fun r _ => Stays mem off len r := by
  unfold Driver.uartReadBlockError
  refine stays_bind (hd.records _) (fun _ s => ?_) s
  by_cases hlen : len = 0
  · rw [if_pos hlen]
    exact ⟨Nat.zero_le _, rfl⟩
  · rw [if_neg hlen]
    have hstart : (d.startReading timeout).Never .undefined :=
      Never.bind (hd.current.bind fun _ => Never.pure _ _) fun _ =>
        (hd.waits timeout).bind fun _ => Never.pure _ _
    refine stays_bind hstart (fun stamp s => ?_) s
    refine iterate_partial (I := ReadingWithin mem off len) (fun st s hst => ?_)
      (fun _ _ _ => pending_ne) passes _ s ⟨Nat.zero_le len, rfl⟩
    refine Ends.bind (P := fun r _ => r ≠ .error .undefined)
      (deadlineOpen_within hd timeout st.stamp s) (fun (isOpen, stamp) s' _ => ?_) fun e s' he => ?_
    · exact readOn_within (s := s') hd hin hst isOpen stamp
    · exact fun h => he (congrArg Except.error h)

/-! ## Writes -/

theorem uartWriteBlock_within (hd : Within d) (passes : Nat) (data : List UInt8)
    (timeout : UInt32) : (d.uartWriteBlock passes data timeout).Never .undefined := by
  unfold Driver.uartWriteBlock
  refine Never.bind (hd.current.bind fun _ => Never.pure _ _) fun stamp => ?_
  refine Never.iterate pending_ne (fun st => ?_) passes _
  refine (deadlineOpen_within hd timeout st.stamp).bind fun (isOpen, stamp) => ?_
  cases isOpen with
  | true =>
    refine (hd.writes _).bind fun k => ?_
    dsimp only
    split
    · exact Never.pure _ _
    · exact Never.pure _ _
  | false => exact error_within _

/-! ## The Tiva -/

variable {lib : UartWare σ} {base : UInt32}

/-- How the body of the loop ends. -/
def StaysOne (mem : Vector UInt8 n) (off : Nat) : Except Halt (Option (Vector UInt8 n)) → Prop
  | .ok none => True
  | .ok (some mem') => mem'.toList.take off = mem.toList.take off
  | .error e => e ≠ .undefined

theorem getChar_within {off index : Nat} {mem : Vector UInt8 n} (hin : off + index < n)
    (b : Board σ) : (getChar lib base off index mem).Ends b fun r _ => StaysOne mem off r := by
  unfold getChar
  refine Ends.bind (P := fun r _ => ∃ nextbyte, r = .ok nextbyte) ⟨_, rfl⟩ (fun nextbyte b₁ _ => ?_)
    fun e b₁ ⟨_, he⟩ => nomatch he
  refine Ends.bind (P := fun r _ => ∃ errors, r = .ok errors) ⟨_, rfl⟩ (fun errors b₂ _ => ?_)
    fun e b₂ ⟨_, he⟩ => nomatch he
  split
  · exact nofun
  · split
    · exact trivial
    · obtain ⟨mem', hmem⟩ : ∃ mem', store mem (off + index) [rxchar nextbyte] = some mem' :=
        exists_store mem hin
      have hstore : storeChar mem off index nextbyte b₂ = (.ok mem', b₂) := by
        unfold storeChar
        rw [hmem]
      unfold Ends
      rw [bind_of_ok hstore]
      exact take_store hmem (Nat.le_add_right _ _)

theorem getChars_within (off : Nat) : ∀ (left index : Nat) (mem : Vector UInt8 n) (b : Board σ),
    off + index + left ≤ n → (getChars lib base off left index mem).Ends b fun r _ =>
      Stays mem off (index + left) r
  | 0, index, mem, b, _ => ⟨Nat.le_refl _, rfl⟩
  | left + 1, index, mem, b, hin => by
    unfold getChars
    refine Ends.bind (P := fun r _ => ∃ available, r = .ok available) ⟨_, rfl⟩
      (fun available b₁ _ => ?_) fun e b₁ ⟨_, he⟩ => nomatch he
    cases available with
    | false => exact ⟨Nat.le_add_right _ _, rfl⟩
    | true =>
      refine Ends.bind (getChar_within (by omega) b₁) (fun next b₂ hnext => ?_) fun e b₂ he => he
      cases next with
      | none => exact ⟨Nat.le_add_right _ _, rfl⟩
      | some mem₁ =>
        refine (getChars_within off left (index + 1) mem₁ b₂ (by omega)).mono fun r b₃ hr => ?_
        match r, hr with
        | .ok (k, mem'), ⟨hk, hkept⟩ => exact ⟨by omega, hkept.trans hnext⟩
        | .error e, he => exact he

theorem putChars_within (lib : TivaWare σ) : ∀ (data : List UInt8) (index : Nat),
    (putChars lib base data index).Never .undefined
  | [], _ => Never.pure _ _
  | c :: data, index => Never.bind (fun b => nofun) fun accepted => by
    cases accepted with
    | true => exact putChars_within lib data (index + 1)
    | false => exact Never.pure _ _

/-- **The Tiva's driver stores no more than it was asked for**, on any hardware. -/
theorem tivaDriver_within (lib : UartWare σ) (port : UartPort) (passes : Nat) :
    Within (tivaDriver lib (some port) passes) where
  current b := nofun
  period := Never.pure _ _
  waits timeout := by
    show (Tiva.uartWaitForData lib (some port) timeout passes).Never _
    unfold Tiva.uartWaitForData
    refine Never.bind (fun b => nofun) fun now => ?_
    refine Never.iterate pending_ne (fun stamp => ?_) passes _
    unfold waitPass
    refine Never.bind (fun b => nofun) fun available => ?_
    cases available with
    | true => exact Never.pure _ _
    | false =>
      refine Never.bind (fun b => nofun) fun now => ?_
      dsimp only
      split
      · exact Never.pure _ _
      · exact Never.pure _ _
  reads {n} mem off len hin b := by
    show (Tiva.uartReadNonblock lib (some port) mem off len).Ends b _
    unfold Tiva.uartReadNonblock
    dsimp only
    rw [if_pos (by omega)]
    refine (getChars_within off len 0 mem b hin).mono fun r _ hr => ?_
    rwa [Nat.zero_add] at hr
  writes data := putChars_within lib.toTivaWare data 0
  records e := Never.pure _ _

end Nuhal.Drivers

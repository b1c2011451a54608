import Nuhal.All.Driver
import Nuhal.Clock.Watching
import Nuhal.Lib.OnTime

/-!
# Deadlines end (`nuhal_all/src/uart.c:8-101`)

A driver whose functions return (`Paced`): then the blocking functions return as well, if they have
a deadline, and so does a program that gives each of its calls one (`Deadlined`). `passes` is no
limit here: it only has to be larger than the time that a deadline takes, since a look at the clock
takes time.

A read has twice its timeout: `uart_wait_for_data` is given all of it, and the loop that comes after
has set up its stamp before, but looks at it only afterwards.

* `deadlineOpen_watched`: a pass looks at the clock.
* `uartReadBlockError_inTime`, `uartWriteBlock_inTime`: the two loops.
* **`client_inTime`**: a program whose calls have deadlines ends.
-/

namespace Nuhal.Drivers

open Nuhal.Lib Nuhal.Lib.Run Nuhal.All Nuhal.Clock

variable {n : Nat} {σ α β : Type}

/-- How fast a driver is: its clock, with what it shows at a time, what it has counted by then, and
the time that so many units take at most; and the time that a look at it takes at most, a read or a
write of at most `block` bytes that does not block, and a wait for data with a timeout up to
`limit`. -/
structure Pace where
  read : Nat → UInt32
  period : UInt32
  count : Nat → Nat
  ticks : Nat → Nat
  jump : Nat
  look : Nat
  block : Nat
  move : Nat
  limit : Nat
  wait : Nat → Nat

structure Pace.Allows (p : Pace) (timeout : UInt32) : Prop where
  some : timeout ≠ 0
  le_limit : timeout.toNat ≤ p.limit

/-- A driver of that pace. -/
structure Paced (d : Driver σ) (now : σ → Nat) (p : Pace) : Prop where
  counting : Counting p.read p.period (p.move + p.look) p.jump p.count p.ticks
  /-- The elapsed time cannot pass over a timeout. -/
  fits : p.limit + p.jump < 2 ^ 32
  current : ∀ s, ∃ s', d.timeCurrentMs s = (.ok (p.read (now s')), s') ∧ now s < now s' ∧
    now s' ≤ now s + p.look
  period : ∀ s, d.timePeriodMs s = (.ok p.period, s)
  waits : ∀ timeout, p.Allows timeout →
    (d.uartWaitForData timeout).InTime now .pending (p.wait timeout.toNat)
  wait_mono : Monotone p.wait
  reads : ∀ {n : Nat} (mem : Vector UInt8 n) (off len : Nat), n ≤ p.block →
    (d.uartReadNonblock mem off len).InTime now .pending p.move
  writes : ∀ data : List UInt8, data.length ≤ p.block →
    (d.uartWriteNonblock data).InTime now .pending p.move
  records : ∀ e, (d.record e).InTime now .pending 0

variable {d : Driver σ} {now : σ → Nat} {p : Pace} {s : σ} {start : Nat} {stamp : TimeElapsed}
  {timeout : UInt32}

/-- From `s` to `s'` no more time than `cost` has passed. -/
def Spends (now : σ → Nat) (cost : Nat) (s s' : σ) : Prop := now s ≤ now s' ∧ now s' ≤ now s + cost

theorem inTime_of_spends {m : Run σ Halt α} {cost : Nat} (hdone : ∀ s, (m s).1 ≠ .error .pending)
    (hspends : ∀ s, Spends now cost s (m s).2) : m.InTime now .pending cost := fun s =>
  ⟨hdone s, (hspends s).1, (hspends s).2⟩

/-- The stamp of a loop on this driver, at the time `t`. -/
abbrev Pace.Watches (p : Pace) (start : Nat) (timeout : UInt32) (stamp : TimeElapsed) (t : Nat) :
    Prop :=
  Watched p.read p.count start p.look p.move timeout.toNat stamp t

/-- The time that a loop with that timeout goes on at most. -/
def Pace.loop (p : Pace) (timeout : Nat) : Nat := p.look + p.ticks timeout + p.move

theorem Pace.Watches.deadline (hd : Paced d now p) {t : Nat}
    (hw : p.Watches start timeout stamp t) : t ≤ start + p.loop timeout.toNat := by
  have h := Watched.deadline hd.counting hw
  unfold Pace.loop
  omega

theorem timeElapsedMsInit_inTime (hd : Paced d now p) :
    d.timeElapsedMsInit.InTime now .pending p.look := by
  intro s
  obtain ⟨s₁, hcurrent, hlt, hle⟩ := hd.current s
  exact ends_of_eq (bind_of_ok hcurrent _) ⟨nofun, Nat.le_of_lt hlt, hle⟩

/-! ## Looks -/

/-- How a look at the clock ends that began at the time `t`. -/
structure Looks (now : σ → Nat) (p : Pace) (start : Nat) (timeout : UInt32) (t : Nat)
    (r : Except Halt (Bool × TimeElapsed)) (s' : σ) : Prop where
  done : r ≠ .error .pending
  after : t < now s'
  before : now s' ≤ t + p.look
  goesOn : ∀ stamp, r = .ok (true, stamp) → ∀ t', now s' ≤ t' → t' ≤ now s' + p.move →
    p.Watches start timeout stamp t'

theorem deadlineOpen_watched (hd : Paced d now p) (hallows : p.Allows timeout)
    (hw : p.Watches start timeout stamp (now s)) :
    (d.deadlineOpen timeout stamp).Ends s (Looks now p start timeout (now s)) := by
  obtain ⟨s₁, hcurrent, hlt, hle⟩ := hd.current s
  have helapsed : d.timeElapsedMs stamp s =
      (.ok (timeElapsed p.period stamp (p.read (now s₁))), s₁) := by
    unfold Driver.timeElapsedMs
    rw [bind_of_ok hcurrent, bind_of_ok (hd.period s₁)]
    rfl
  unfold Driver.deadlineOpen Ends
  rw [if_neg hallows.some, bind_of_ok helapsed]
  dsimp only
  by_cases hopen : (timeElapsed p.period stamp (p.read (now s₁))).1 < timeout
  · rw [if_pos hopen]
    refine ⟨nofun, hlt, hle, fun stamp' hstamp t' hle' hslack => ?_⟩
    cases hstamp
    have hlimit := hallows.le_limit
    have hfits := hd.fits
    exact hw.look hd.counting (Nat.le_refl _) (by omega) (Nat.le_of_lt hlt) hle
      (UInt32.lt_iff_toNat_lt.mp hopen) hle' hslack
  · rw [if_neg hopen]
    have hrecord := hd.records .expired s₁
    refine Ends.bind (Q := Looks now p start timeout (now s)) hrecord (fun _ s₂ h => ?_)
      fun e s₂ h => ?_
    · exact ⟨nofun, Nat.lt_of_lt_of_le hlt h.after, h.before.trans hle, nofun⟩
    · refine ⟨?_, Nat.lt_of_lt_of_le hlt h.after, h.before.trans hle, nofun⟩
      intro he
      exact h.done (congrArg Except.error (Except.error.inj he))

/-! ## Reads -/

theorem lastRead_inTime (hd : Paced d now p) (mem : Vector UInt8 n) (off read : Nat) :
    (d.lastRead mem off read).InTime now .pending 0 := by
  unfold Driver.lastRead
  refine (hd.records (.terminator read)).bind (l := 0) fun _ => ?_
  split
  · exact InTime.pure _
  · exact InTime.stop nofun

theorem terminated_inTime (hd : Paced d now p) (term : UartTerm) (mem : Vector UInt8 n)
    (off read : Nat) : (d.terminated term mem off read).InTime now .pending 0 := by
  cases term with
  | none => exact InTime.pure _
  | lf | cr | null | crOrLf =>
    exact (lastRead_inTime hd mem off read).bind fun _ => InTime.pure _

variable {off len : Nat} {term : UartTerm} {timeoutError : Bool} {isOpen : Bool}

theorem readOn_inTime (hd : Paced d now p) (hblock : n ≤ p.block) (st : Reading n) :
    (d.readOn off len term timeoutError st isOpen stamp).InTime now .pending p.move := by
  unfold Driver.readOn
  cases isOpen with
  | true =>
    refine (hd.reads st.mem _ _ hblock).bind (l := 0) fun (k, mem) => ?_
    dsimp only
    by_cases hfull : st.read + k = len
    · rw [if_pos hfull]
      exact InTime.pure _
    · rw [if_neg hfull]
      refine (terminated_inTime hd term mem off _).bind (l := 0) fun ends => ?_
      cases ends with
      | true => exact InTime.pure _
      | false => exact InTime.pure _
  | false =>
    refine InTime.mono (k := 0) ?_ (Nat.zero_le _)
    cases timeoutError with
    | true => exact InTime.bind (l := 0) (InTime.stop nofun) fun _ => InTime.pure _
    | false => exact InTime.pure _

/-- A pass that goes on has kept the stamp of its look. -/
theorem readOn_inl {st st' : Reading n} {s' : σ}
    (h : d.readOn off len term timeoutError st isOpen stamp s = (.ok (.inl st'), s')) :
    isOpen = true ∧ st'.stamp = stamp := by
  unfold Driver.readOn at h
  cases isOpen with
  | true =>
    obtain ⟨⟨k, mem⟩, s₁, -, h⟩ := bind_eq_ok h
    dsimp only at h
    by_cases hfull : st.read + k = len
    · rw [if_pos hfull] at h
      cases h
    · rw [if_neg hfull] at h
      obtain ⟨ends, s₂, -, h⟩ := bind_eq_ok h
      cases ends with
      | true => cases h
      | false =>
        cases h
        exact ⟨rfl, rfl⟩
  | false =>
    cases timeoutError with
    | true =>
      obtain ⟨_, _, h, -⟩ := bind_eq_ok h
      cases h
    | false => cases h

/-! ## Passes -/

/-- How a pass ends that began at the time `t`, in a loop that began at `start` and keeps `I`. -/
abbrev Passes (now : σ → Nat) (p : Pace) (start : Nat) (timeout : UInt32) (I : β → σ → Prop)
    (t : Nat) : Except Halt (β ⊕ α) → σ → Prop :=
  TimedPass now .pending I (start + p.loop timeout.toNat)
    (start + (p.loop timeout.toNat + p.look + p.move)) t

/-- A pass is a look at the clock and what comes after it, which takes no longer than a read or a
write that does not block. -/
theorem pass_onTime {f : Bool × TimeElapsed → Run σ Halt (β ⊕ α)} {I : β → σ → Prop}
    (hd : Paced d now p) (hallows : p.Allows timeout) (hw : p.Watches start timeout stamp (now s))
    (hf : ∀ a, (f a).InTime now .pending p.move)
    (hI : ∀ isOpen stamp s₁ b s₂, f (isOpen, stamp) s₁ = (.ok (.inl b), s₂) → isOpen = true ∧
      (p.Watches start timeout stamp (now s₂) → I b s₂)) :
    (d.deadlineOpen timeout stamp >>= f).Ends s (Passes now p start timeout I (now s)) := by
  have hstart := hw.deadline hd
  refine Ends.bind (deadlineOpen_watched hd hallows hw) (fun a s₁ h => ?_) fun e s₁ h => ?_
  · obtain ⟨isOpen, stamp'⟩ := a
    rcases hr : f (isOpen, stamp') s₁ with ⟨r, s₂⟩
    have htime := (hf (isOpen, stamp') s₁).elim hr
    have hlate := h.before
    have hafter := h.after
    have hafter' := htime.after
    have hbefore := htime.before
    refine ends_of_eq hr ?_
    match r, hr, htime with
    | .ok (.inl b), hr, htime =>
      obtain ⟨rfl, hkeeps⟩ := hI isOpen stamp' s₁ b s₂ hr
      have hwatches := h.goesOn stamp' rfl (now s₂) hafter' hbefore
      exact ⟨hkeeps hwatches, by omega, hwatches.deadline hd⟩
    | .ok (.inr a), hr, htime => exact ⟨by omega, by omega⟩
    | .error e, hr, htime =>
      exact ⟨fun he => htime.done (congrArg Except.error he), by omega, by omega⟩
  · have hlate := h.before
    have hafter := h.after
    exact ⟨fun he => h.done (congrArg Except.error he), by omega, by omega⟩

/-- A loop whose passes are such. Its first look may come late. -/
theorem loop_inTime {body : β → Run σ Halt (β ⊕ α)} (stampOf : β → TimeElapsed) {passes : Nat}
    {b : β} (hpasses : p.loop timeout.toNat + 1 < passes)
    (hpass : ∀ start b s, p.Watches start timeout (stampOf b) (now s) → (body b).Ends s
      (Passes now p start timeout (fun b s' => p.Watches start timeout (stampOf b) (now s'))
        (now s))) :
    (iterate .pending body passes b).InTime now .pending
      (p.loop timeout.toNat + p.look + p.move) := by
  intro s
  exact iterate_onTime _ _ (hpass (now s)) (by omega) (.inl rfl)

/-- **A read with a deadline ends.** -/
theorem uartReadBlockError_inTime (hd : Paced d now p) {passes : Nat} {mem : Vector UInt8 n}
    (hblock : n ≤ p.block) (hallows : p.Allows timeout)
    (hpasses : p.loop timeout.toNat + 1 < passes) :
    (d.uartReadBlockError passes mem off len timeout term timeoutError).InTime now .pending
      (p.look + p.wait timeout.toNat + (p.loop timeout.toNat + p.look + p.move)) := by
  unfold Driver.uartReadBlockError
  refine InTime.mono (k := 0 + _) ((hd.records (.ask len)).bind fun _ => ?_)
    (Nat.le_of_eq (Nat.zero_add _))
  by_cases hlen : len = 0
  · rw [if_pos hlen]
    exact (InTime.pure _).mono (Nat.zero_le _)
  · rw [if_neg hlen]
    have hstarts : (d.startReading timeout).InTime now .pending
        (p.look + p.wait timeout.toNat) :=
      (timeElapsedMsInit_inTime hd).bind fun _ =>
        (hd.waits timeout hallows).bind (l := 0) fun _ => InTime.pure _
    refine hstarts.bind fun _ => loop_inTime Reading.stamp hpasses fun start st s hw => ?_
    refine pass_onTime hd hallows hw (fun a => readOn_inTime hd hblock st)
      fun isOpen stamp s₁ b s₂ hr => ?_
    obtain ⟨hopen, hstamp⟩ := readOn_inl hr
    exact ⟨hopen, fun hw => hstamp ▸ hw⟩

/-- A read of nothing ends at once. -/
theorem uartReadBlockError_nothing (hd : Paced d now p) (passes : Nat) (mem : Vector UInt8 n)
    (off : Nat) (timeout : UInt32) (term : UartTerm) (timeoutError : Bool) :
    (d.uartReadBlockError passes mem off 0 timeout term timeoutError).InTime now .pending 0 :=
  (hd.records (.ask 0)).bind (l := 0) fun _ => InTime.pure _

/-- **A write with a deadline ends.** -/
theorem uartWriteBlock_inTime (hd : Paced d now p) {passes : Nat} {data : List UInt8}
    (hblock : data.length ≤ p.block) (hallows : p.Allows timeout)
    (hpasses : p.loop timeout.toNat + 1 < passes) :
    (d.uartWriteBlock passes data timeout).InTime now .pending
      (p.look + (p.loop timeout.toNat + p.look + p.move)) := by
  unfold Driver.uartWriteBlock
  refine (timeElapsedMsInit_inTime hd).bind fun _ =>
    loop_inTime Writing.stamp hpasses fun start st s hw => ?_
  refine pass_onTime hd hallows hw (fun (isOpen, stamp) => ?_) fun isOpen stamp s₁ b s₂ hr => ?_
  · cases isOpen with
    | true =>
      refine (hd.writes (data.drop st.written) ?_).bind (l := 0) fun k => ?_
      · rw [List.length_drop]
        omega
      · dsimp only
        split
        · exact InTime.pure _
        · exact InTime.pure _
    | false => exact InTime.mono (k := 0) (InTime.stop nofun) (Nat.zero_le _)
  · cases isOpen with
    | true =>
      obtain ⟨k, s', -, hr⟩ := bind_eq_ok hr
      dsimp only at hr
      split at hr
      · cases hr
      · cases hr
        exact ⟨rfl, id⟩
    | false => cases hr

/-! ## Programs -/

/-- Every run of the program makes at most so many calls, each of them with a timeout up to `limit`
and a block of at most `block` bytes. A read of nothing needs no timeout. The buffer of a read may
reach beyond its block: then the program can also end with an access outside it. -/
inductive Deadlined (block limit : Nat) : Nat → Client α → Prop
  | done {calls : Nat} (a : α) : Deadlined block limit calls (.done a)
  | stop {calls : Nat} {e : Halt} (he : e ≠ .pending) : Deadlined block limit calls (.stop e)
  | record {calls : Nat} {e : Event} {next : Client α} (h : Deadlined block limit calls next) :
      Deadlined block limit calls (.record e next)
  | write {calls : Nat} {data : List UInt8} {timeout : UInt32} {next : Nat → Client α}
      (hblock : data.length ≤ block) (hsome : timeout ≠ 0) (hlimit : timeout.toNat ≤ limit)
      (h : ∀ written, Deadlined block limit calls (next written)) :
      Deadlined block limit (calls + 1) (.write data timeout next)
  | read {calls n off len : Nat} {mem : Vector UInt8 n} {timeout : UInt32} {term : UartTerm}
      {timeoutError : Bool} {next : Nat × Vector UInt8 n → Client α} (hblock : n ≤ block)
      (htimeout : len ≠ 0 → timeout ≠ 0 ∧ timeout.toNat ≤ limit)
      (h : ∀ got, Deadlined block limit calls (next got)) :
      Deadlined block limit (calls + 1) (.read mem off len timeout term timeoutError next)

namespace Deadlined

variable {block limit calls calls' : Nat} {client : Client α}

theorem more (h : Deadlined block limit calls client) :
    ∀ {calls'}, calls ≤ calls' → Deadlined block limit calls' client := by
  induction h with
  | done a => exact fun _ => .done a
  | stop he => exact fun _ => .stop he
  | record _ ih => exact fun hle => .record (ih hle)
  | write hblock hsome hlimit _ ih =>
    intro calls' hle
    obtain ⟨calls', rfl⟩ : ∃ k, calls' = k + 1 := ⟨calls' - 1, by omega⟩
    exact .write hblock hsome hlimit fun written => ih written (Nat.le_of_succ_le_succ hle)
  | read hblock htimeout _ ih =>
    intro calls' hle
    obtain ⟨calls', rfl⟩ : ∃ k, calls' = k + 1 := ⟨calls' - 1, by omega⟩
    exact .read hblock htimeout fun got => ih got (Nat.le_of_succ_le_succ hle)

theorem bind {f : α → Client β} (h : Deadlined block limit calls client)
    (hf : ∀ a, Deadlined block limit calls' (f a)) :
    Deadlined block limit (calls + calls') (client >>= f) := by
  induction h with
  | done a => exact (hf a).more (Nat.le_add_left _ _)
  | stop he => exact .stop he
  | record _ ih => exact .record ih
  | write hblock hsome hlimit _ ih =>
    rw [Nat.add_right_comm]
    exact .write hblock hsome hlimit ih
  | read hblock htimeout _ ih =>
    rw [Nat.add_right_comm]
    exact .read hblock htimeout ih

end Deadlined

/-- The time that a call takes at most. -/
def Pace.call (p : Pace) : Nat :=
  p.look + p.wait p.limit + (p.loop p.limit + p.look + p.move)

theorem Pace.loop_mono (hd : Paced d now p) : Monotone p.loop := by
  intro n m hle
  have hticks := hd.counting.ticks_mono hle
  unfold Pace.loop
  omega

/-- **A program whose calls have deadlines ends**, after so much time for each of its calls. -/
theorem client_inTime (hd : Paced d now p) {calls passes : Nat} {client : Client α}
    (hclient : Deadlined p.block p.limit calls client) (hpasses : p.loop p.limit + 1 < passes) :
    (client.onDriver d passes).InTime now .pending (calls * p.call) := by
  have hwithin : ∀ {timeout : UInt32}, timeout.toNat ≤ p.limit →
      p.loop timeout.toNat ≤ p.loop p.limit ∧ p.wait timeout.toNat ≤ p.wait p.limit :=
    fun hlimit => ⟨Pace.loop_mono hd hlimit, hd.wait_mono hlimit⟩
  induction hclient with
  | done a => exact (InTime.pure a).mono (Nat.zero_le _)
  | stop he => exact (InTime.stop he).mono (Nat.zero_le _)
  | record h ih => exact ((hd.records _).bind fun _ => ih).mono (Nat.le_of_eq (Nat.zero_add _))
  | @write calls data timeout next hdata hsome hlimit h ih =>
    obtain ⟨hloop, -⟩ := hwithin hlimit
    refine ((uartWriteBlock_inTime hd hdata ⟨hsome, hlimit⟩ (by omega)).bind ih).mono ?_
    rw [Nat.succ_mul, Nat.add_comm]
    refine Nat.add_le_add_left ?_ _
    unfold Pace.call
    omega
  | @read calls n off len mem timeout term timeoutError next hmem htimeout h ih =>
    rw [Nat.succ_mul, Nat.add_comm]
    by_cases hlen : len = 0
    · subst hlen
      refine ((uartReadBlockError_nothing hd passes mem off timeout term timeoutError).bind
        ih).mono ?_
      exact Nat.add_le_add_right (Nat.zero_le _) _
    · obtain ⟨hsome, hlimit⟩ := htimeout hlen
      obtain ⟨hloop, hwait⟩ := hwithin hlimit
      refine ((uartReadBlockError_inTime hd hmem ⟨hsome, hlimit⟩ (by omega)).bind ih).mono ?_
      refine Nat.add_le_add_right ?_ _
      unfold Pace.call
      omega

end Nuhal.Drivers

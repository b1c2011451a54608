import Nuhal.Drivers.Related
import Nuhal.Drivers.World

/-!
# A world for every driver (`nuhal_all/src/uart.c:8-101`)

The results about the blocking functions and the packet protocol are about a `World`, which holds
beforehand what its platform is going to do. A platform's driver does what it does as it goes. The
two fit: for every run of a program on a driver there is a `World` on which the program ends in the
same way, in which the clock shows what it showed in the run, the bytes on their way are those that
the driver handed over, and those that the transmitter accepts are those that the driver accepted.

* `Sound` is what is asked of a driver: `uart_read_nonblock` stores no more than it was asked for,
  where it was asked to; `uart_write_nonblock` accepts no more than it was offered; a clock that can
  be read. Nothing is said about how much, when, or how often a function fails.
* `Seen` is what the common code has seen of a driver, and `traced` the driver that keeps a record
  of it. The record changes nothing (`traced_erases`).
* `Foreseen` relates it to a world: what has been seen is what the world had in store, and nothing
  is said about what it still has.
* **`client_foretold`** is the result, and `client_asOnWorld` what it says of a driver whose bytes
  are all accounted for.
-/

namespace Nuhal.Drivers

open Nuhal.Lib Nuhal.All Nuhal.Link

variable {n : Nat} {σ α : Type}

/-- What the common code has seen of a driver. -/
structure Seen where
  clock : List UInt32
  taken : List UInt8
  sent : List UInt8
  log : List Event

/-- Nothing. -/
def Seen.none : Seen := ⟨[], [], [], []⟩

/-- The driver, with a record of what it did. -/
def traced (d : Driver σ) : Driver (σ × Seen) where
  timeCurrentMs := fun (s, seen) =>
    match d.timeCurrentMs s with
    | (.ok now, s') => (.ok now, s', { seen with clock := seen.clock ++ [now] })
    | (.error e, s') => (.error e, s', seen)
  timePeriodMs := fun (s, seen) => ((d.timePeriodMs s).1, (d.timePeriodMs s).2, seen)
  uartWaitForData timeout := fun (s, seen) =>
    ((d.uartWaitForData timeout s).1, (d.uartWaitForData timeout s).2, seen)
  uartReadNonblock mem off len := fun (s, seen) =>
    match d.uartReadNonblock mem off len s with
    | (.ok (k, mem'), s') => (.ok (k, mem'), s', { seen with
        taken := seen.taken ++ window mem' off k
        log := seen.log ++ [.store off k] })
    | (.error e, s') => (.error e, s', seen)
  uartWriteNonblock data := fun (s, seen) =>
    match d.uartWriteNonblock data s with
    | (.ok k, s') => (.ok k, s', { seen with sent := seen.sent ++ data.take k })
    | (.error e, s') => (.error e, s', seen)
  record e := fun (s, seen) =>
    ((d.record e s).1, (d.record e s).2, { seen with log := seen.log ++ [e] })

/-! ## The record changes nothing -/

theorem traced_related (d : Driver σ) : Related (erasure σ Seen Halt) d (traced d) := by
  have hclock : Erases d.timeCurrentMs (traced d).timeCurrentMs := by
    intro s seen
    rcases hrun : d.timeCurrentMs s with ⟨r, s'⟩
    cases r <;> simp [traced, hrun]
  have hwait : ∀ timeout, Erases (d.uartWaitForData timeout) ((traced d).uartWaitForData timeout) :=
    fun _ _ _ => ⟨rfl, rfl⟩
  refine ⟨hclock, fun _ _ => ⟨rfl, rfl⟩, ?_, ?_, ?_, fun _ _ _ => ⟨rfl, rfl⟩⟩
  · intro timeout
    exact Erases.bind (Erases.bind hclock fun _ => Erases.pure _) fun _ =>
      Erases.bind (hwait timeout) fun _ => Erases.pure _
  · intro n mem off len s seen
    rcases hrun : d.uartReadNonblock mem off len s with ⟨r, s'⟩
    cases r <;> simp [traced, hrun]
  · intro data s seen
    rcases hrun : d.uartWriteNonblock data s with ⟨r, s'⟩
    cases r <;> simp [traced, hrun]

theorem traced_erases (d : Driver σ) (client : Client α) (passes : Nat) :
    Erases (client.onDriver d passes) (client.onDriver (traced d) passes) :=
  client_related (traced_related d) client passes

/-! ## What is asked of a driver -/

/-- How `uart_wait_for_data` may end. `I` holds of a platform and of what was seen of it as long as
nothing has failed, `J` also then. -/
def WaitEnds (I J : σ → Seen → Prop) (seen : Seen) : Except Halt Bool × σ → Prop
  | (.ok _, s') => I s' seen
  | (.error (.error _), s') => J s' seen
  | (.error .undefined, _) => False
  | (.error .pending, _) => True

/-- How `uart_read_nonblock(port, mem + off, len)` may end. -/
def ReadNonblockEnds (I J : σ → Seen → Prop) (seen : Seen) (mem : Vector UInt8 n) (off len : Nat) :
    Except Halt (Nat × Vector UInt8 n) × σ → Prop
  | (.ok (k, mem'), s') => ∃ got, got.length = k ∧ k ≤ len ∧ store mem off got = some mem' ∧
      I s' { seen with taken := seen.taken ++ got, log := seen.log ++ [.store off k] }
  | (.error (.error _), s') => J s' seen
  | (.error .undefined, s') => (∃ k ≤ len, n < off + k) ∧ J s' seen
  | (.error .pending, _) => True

/-- How `uart_write_nonblock(port, data, len)` may end. -/
def WriteNonblockEnds (I J : σ → Seen → Prop) (seen : Seen) (data : List UInt8) :
    Except Halt Nat × σ → Prop
  | (.ok k, s') => k ≤ data.length ∧ I s' { seen with sent := seen.sent ++ data.take k }
  | (.error (.error _), s') => J s' seen
  | (.error .undefined, _) => False
  | (.error .pending, _) => True

/-- What is asked of a driver. -/
structure Sound (d : Driver σ) (period : UInt32) (I J : σ → Seen → Prop) : Prop where
  weaken : ∀ s seen, I s seen → J s seen
  clock : ∀ s seen, I s seen → ∃ now s', d.timeCurrentMs s = (.ok now, s') ∧
    I s' { seen with clock := seen.clock ++ [now] }
  period : ∀ s, d.timePeriodMs s = (.ok period, s)
  wait : ∀ timeout s seen, I s seen → WaitEnds I J seen (d.uartWaitForData timeout s)
  read : ∀ {n : Nat} (mem : Vector UInt8 n) (off len : Nat) (s : σ) (seen : Seen), I s seen →
    ReadNonblockEnds I J seen mem off len (d.uartReadNonblock mem off len s)
  write : ∀ data s seen, I s seen → WriteNonblockEnds I J seen data (d.uartWriteNonblock data s)
  record : ∀ e s seen, I s seen → ∃ s', d.record e s = (.ok (), s') ∧
    I s' { seen with log := seen.log ++ [e] }

/-! ## Worlds -/

/-- What a world has in store: all that arrives on the port, and all that the clock shows. -/
structure InStore where
  stream : List UInt8
  clock : Nat → UInt32

/-- The world has in store what has been seen. -/
structure Foreseen (port : Nat) (period : UInt32) (g : InStore) (seen : Seen) (w : World) :
    Prop where
  ticks : w.ticks = seen.clock.length
  clock : w.clock = g.clock
  shown : ∀ i now, seen.clock[i]? = some now → g.clock i = now
  period : w.period = period
  wait : ∀ k ≤ w.ticks, w.wait k = .ok true
  sent : w.tx port = seen.sent
  stream : seen.taken ++ w.rx port = g.stream
  log : w.log = seen.log

/-- Where the program has stopped for a reason. -/
structure Stopped (port : Nat) (period : UInt32) (g : InStore) (seen : Seen) (w : World) :
    Prop where
  ticks : w.ticks = seen.clock.length
  shown : ∀ i now, seen.clock[i]? = some now → g.clock i = now
  sent : w.tx port = seen.sent
  stream : seen.taken <+: g.stream

theorem Foreseen.stopped {port : Nat} {period : UInt32} {g : InStore} {seen : Seen} {w : World}
    (h : Foreseen port period g seen w) : Stopped port period g seen w :=
  ⟨h.ticks, h.shown, h.sent, h.stream ▸ List.prefix_append _ _⟩

/-- What is in store after `seen`, with `more` on its way. -/
def Seen.inStore (seen : Seen) (more : List UInt8) : InStore :=
  { stream := seen.taken ++ more, clock := fun i => seen.clock.getD i 0 }

/-- A world in which `seen` is over, with `more` on its way and these answers left. -/
def worldOf (period : UInt32) (seen : Seen) (more : List UInt8) (reads writes : List Answer) :
    World where
  rx _ := more
  tx _ := seen.sent
  reads := reads
  writes := writes
  clock := (seen.inStore more).clock
  ticks := seen.clock.length
  period := period
  wait _ := .ok true
  available _ := .ok true
  log := seen.log

variable {port : Nat} {period : UInt32} {I J : σ → Seen → Prop} {d : Driver σ} {seen : Seen}

theorem Seen.shown (seen : Seen) (more : List UInt8) (i : Nat) (now : UInt32)
    (h : seen.clock[i]? = some now) : (seen.inStore more).clock i = now := by
  show seen.clock.getD i 0 = now
  rw [List.getD_eq_getElem?_getD, h]
  rfl

theorem worldOf_foreseen (port : Nat) (period : UInt32) (seen : Seen) (more : List UInt8)
    (reads writes : List Answer) :
    Foreseen port period (seen.inStore more) seen (worldOf period seen more reads writes) :=
  ⟨rfl, rfl, seen.shown more, rfl, fun _ _ => rfl, rfl, rfl, rfl⟩

/-- What relates a driver and a world. -/
def foresight (port : Nat) (h : Sound d period I J) : Foresight (σ × Seen) World InStore where
  keeps s := I s.1 s.2
  along g s w := Foreseen port period g s.2 w
  stops g s w := Stopped port period g s.2 w ∧ J s.1 s.2
  possible s hs :=
    have hforeseen := worldOf_foreseen port period s.2 [] [] []
    ⟨_, _, hforeseen, hforeseen.stopped, h.weaken s.1 s.2 hs⟩

theorem getElem?_before {now now' : UInt32} {i : Nat} (h : seen.clock[i]? = some now') :
    (seen.clock ++ [now])[i]? = some now' := by
  rw [List.getElem?_append_left (List.getElem?_eq_some_iff.mp h).1]
  exact h

/-- The world before a reading of the clock. -/
theorem Foreseen.beforeReading {now : UInt32} {g : InStore} {w : World}
    (h : Foreseen port period g { seen with clock := seen.clock ++ [now] } w) :
    Foreseen port period g seen { w with ticks := seen.clock.length } ∧
      w.clock seen.clock.length = now ∧ { w with ticks := seen.clock.length + 1 } = w := by
  have hticks : w.ticks = seen.clock.length + 1 := by
    rw [h.ticks, List.length_append, List.length_singleton]
  refine ⟨⟨rfl, h.clock, fun i now' hi => h.shown i now' (getElem?_before hi), h.period, ?_, h.sent,
    h.stream, h.log⟩, ?_, ?_⟩
  · intro k hk
    exact h.wait k (hticks ▸ Nat.le_succ_of_le hk)
  · rw [h.clock]
    exact h.shown _ _ List.getElem?_concat_length
  · rw [← hticks]

theorem traced_clock {s s' : σ} {now : UInt32} (h : d.timeCurrentMs s = (.ok now, s')) :
    (traced d).timeCurrentMs (s, seen) =
      (.ok now, s', { seen with clock := seen.clock ++ [now] }) := by
  simp only [traced, h]

theorem timeCurrentMs_foretold (h : Sound d period I J) :
    Foretold .pending (foresight port h) (traced d).timeCurrentMs
      (worldDriver port).timeCurrentMs := by
  rintro ⟨s, seen⟩ hI
  obtain ⟨now, s', hrun, hI'⟩ := h.clock s seen hI
  rw [traced_clock hrun]
  refine ⟨?_, ?_⟩
  · intro a s₁ hok
    cases hok
    refine ⟨hI', fun g w' hw => ?_⟩
    obtain ⟨hbefore, hnow, hsame⟩ := hw.beforeReading
    refine ⟨_, hbefore, ?_⟩
    show (Except.ok (w'.clock seen.clock.length), { w' with ticks := seen.clock.length + 1 }) = _
    rw [hnow, hsame]
  · intro e s₁ herror
    cases herror

theorem timePeriodMs_foretold (h : Sound d period I J) :
    Foretold .pending (foresight port h) (traced d).timePeriodMs
      (worldDriver port).timePeriodMs := by
  rintro ⟨s, seen⟩ hI
  have htraced : (traced d).timePeriodMs (s, seen) = (.ok period, s, seen) := by
    simp only [traced, h.period]
  rw [htraced]
  refine ⟨?_, ?_⟩
  · intro a s₁ hok
    cases hok
    refine ⟨hI, fun g w' hw => ⟨w', hw, ?_⟩⟩
    show (Except.ok w'.period, w') = _
    rw [hw.period]
  · intro e s₁ herror
    cases herror

/-- The reading of the clock and the wait, on a world in which the wait ends with `result`. -/
theorem startReading_world {timeout : UInt32} {w w' : World} {now : UInt32}
    (hnow : w.clock w.ticks = now) (hw : { w with ticks := w.ticks + 1 } = w') :
    (worldDriver port).startReading timeout w = match w'.wait w'.ticks with
      | .ok _ => (.ok (timeElapsedInit now), w')
      | .error msg => (.error (.error msg), w'.logged .failed) := by
  subst hnow hw
  unfold Driver.startReading
  have hstamp : (worldDriver port).timeElapsedMsInit w =
      (.ok (timeElapsedInit (w.clock w.ticks)), { w with ticks := w.ticks + 1 }) := rfl
  rw [Run.bind_of_ok hstamp, Run.bind_apply]
  simp only [worldDriver, uartWaitForData]
  cases w.wait (w.ticks + 1) <;> rfl

theorem startReading_foretold (h : Sound d period I J) (timeout : UInt32) :
    Foretold .pending (foresight port h) ((traced d).startReading timeout)
      ((worldDriver port).startReading timeout) := by
  rintro ⟨s, seen⟩ hI
  obtain ⟨now, s₁, hrun, hI₁⟩ := h.clock s seen hI
  have hwait := h.wait timeout s₁ _ hI₁
  have hstamp : (traced d).timeElapsedMsInit (s, seen) =
      (.ok (timeElapsedInit now), s₁, { seen with clock := seen.clock ++ [now] }) :=
    Run.bind_of_ok (traced_clock hrun) _
  have hstart : (traced d).startReading timeout (s, seen) =
      ((d.uartWaitForData timeout s₁).1.map fun _ => timeElapsedInit now,
        (d.uartWaitForData timeout s₁).2, { seen with clock := seen.clock ++ [now] }) := by
    unfold Driver.startReading
    rw [Run.bind_of_ok hstamp, Run.bind_apply]
    simp only [traced]
    cases (d.uartWaitForData timeout s₁).1 <;> rfl
  rw [hstart]
  rcases hend : d.uartWaitForData timeout s₁ with ⟨r, s₂⟩
  rw [hend] at hwait
  cases r with
  | ok ready =>
    refine ⟨?_, ?_⟩
    · intro a s₃ hok
      cases hok
      refine ⟨hwait, fun g w' hw => ?_⟩
      obtain ⟨hbefore, hnow, hsame⟩ := hw.beforeReading
      refine ⟨_, hbefore, ?_⟩
      rw [startReading_world hnow hsame, hw.wait _ (Nat.le_refl _)]
    · intro e s₃ herror
      cases herror
  | error e =>
    refine ⟨?_, ?_⟩
    · intro a s₃ hok
      cases hok
    · intro e' s₃ herror hstuck
      cases herror
      cases e with
      | error msg =>
        -- the wait of this read fails, and none before it
        let after : Seen := { seen with clock := seen.clock ++ [now] }
        let w' : World := { worldOf period after [] [] [] with
          wait := fun k => if k < after.clock.length then .ok true else .error msg }
        have hticks : w'.ticks = seen.clock.length + 1 := List.length_append
        have hnow : w'.clock seen.clock.length = now :=
          after.shown [] _ _ List.getElem?_concat_length
        have hfails : w'.wait w'.ticks = .error msg := if_neg (Nat.lt_irrefl _)
        have hbefore : Foreseen port period (after.inStore []) seen
            { w' with ticks := seen.clock.length } := by
          refine ⟨rfl, rfl, fun i now' hi => after.shown [] i now' (getElem?_before hi), rfl, ?_,
            rfl, rfl, rfl⟩
          intro k hk
          refine if_pos (show k < w'.ticks from ?_)
          rw [hticks]
          exact Nat.lt_succ_of_le hk
        refine ⟨_, _, w'.logged .failed, hbefore, ?_,
          ⟨rfl, after.shown [], rfl, List.prefix_append _ _⟩, hwait⟩
        rw [startReading_world hnow (by rw [← hticks]), hfails]
      | undefined => cases hwait
      | pending => exact absurd rfl hstuck

/-- The world before the driver hands over `got`. -/
def beforeRead (port : Nat) (got : List UInt8) (w : World) (log : List Event) : World :=
  { w with
    rx := Function.update w.rx port (got ++ w.rx port)
    reads := .bytes got.length :: w.reads
    log := log }

theorem beforeRead_incoming {got : List UInt8} {w : World} {log : List Event} {len : Nat}
    (hle : got.length ≤ len) : (beforeRead port got w log).incoming port got.length len = got := by
  unfold World.incoming
  rw [Nat.min_eq_left hle, show (beforeRead port got w log).rx port = got ++ w.rx port from
    Function.update_self _ _ _]
  exact List.take_left

theorem beforeRead_reads {got : List UInt8} {w : World} {log : List Event} {off len : Nat}
    {mem mem' : Vector UInt8 n} (hle : got.length ≤ len) (hstore : store mem off got = some mem')
    (hlog : w.log = log ++ [.store off got.length]) :
    uartReadNonblock port mem off len (beforeRead port got w log) =
      (.ok (got.length, mem'), w) := by
  have hincoming : (beforeRead port got w log).incoming port got.length len = got :=
    beforeRead_incoming hle
  rw [uartReadNonblock_ok rfl (hincoming ▸ hstore), hincoming]
  unfold World.received beforeRead
  simp only [Function.update_self, Function.update_idem, List.drop_left, Function.update_eq_self,
    ← hlog]

theorem uartReadNonblock_foretold (h : Sound d period I J) (mem : Vector UInt8 n) (off len : Nat) :
    Foretold .pending (foresight port h) ((traced d).uartReadNonblock mem off len)
      (uartReadNonblock port mem off len) := by
  rintro ⟨s, seen⟩ hI
  have hread := h.read mem off len s seen hI
  rcases hrun : d.uartReadNonblock mem off len s with ⟨r, s'⟩
  rw [hrun] at hread
  cases r with
  | ok result =>
    obtain ⟨k, mem'⟩ := result
    obtain ⟨got, rfl, hle, hstore, hI'⟩ := hread
    have htraced : (traced d).uartReadNonblock mem off len (s, seen) = (.ok (got.length, mem'), s',
        { seen with taken := seen.taken ++ got, log := seen.log ++ [.store off got.length] }) := by
      simp only [traced, hrun, window_store hstore]
    rw [htraced]
    refine ⟨?_, ?_⟩
    · intro a s₁ hok
      cases hok
      refine ⟨hI', fun g w' hw => ⟨beforeRead port got w' seen.log, ?_, ?_⟩⟩
      · refine ⟨hw.ticks, hw.clock, hw.shown, hw.period, hw.wait, hw.sent, ?_, rfl⟩
        rw [← hw.stream]
        simp only [beforeRead, Function.update_self, List.append_assoc]
      · exact beforeRead_reads hle hstore hw.log
    · intro e s₁ herror
      cases herror
  | error e =>
    have htraced : (traced d).uartReadNonblock mem off len (s, seen) = (.error e, s', seen) := by
      simp only [traced, hrun]
    rw [htraced]
    refine ⟨?_, ?_⟩
    · intro a s₁ hok
      cases hok
    · intro e' s₁ herror hstuck
      cases herror
      cases e with
      | error msg =>
        have hbefore := worldOf_foreseen port period seen [] [.fail msg] []
        exact ⟨_, _, _, hbefore, uartReadNonblock_fail rfl,
          ⟨rfl, hbefore.shown, rfl, List.prefix_append _ _⟩, hread⟩
      | undefined =>
        obtain ⟨⟨k, hle, hout⟩, hJ⟩ := hread
        have hbefore := worldOf_foreseen port period seen (List.replicate k 0) [.bytes k] []
        have hnone : store mem off ((worldOf period seen (List.replicate k 0) [.bytes k]
            []).incoming port k len) = none := by
          refine store_eq_none.mpr ?_
          unfold World.incoming worldOf
          rw [List.length_take, List.length_replicate, Nat.min_eq_left hle, Nat.min_self]
          exact hout
        exact ⟨_, _, _, hbefore, uartReadNonblock_undefined rfl hnone,
          ⟨rfl, hbefore.shown, rfl, List.prefix_append _ _⟩, hJ⟩
      | pending => exact absurd rfl hstuck

/-- The world before the driver accepts `got`. -/
def beforeWrite (port : Nat) (k : Nat) (w : World) (sent : List UInt8) : World :=
  { w with
    tx := Function.update w.tx port sent
    writes := .bytes k :: w.writes }

theorem uartWriteNonblock_foretold (h : Sound d period I J) (data : List UInt8) :
    Foretold .pending (foresight port h) ((traced d).uartWriteNonblock data)
      (uartWriteNonblock port data) := by
  rintro ⟨s, seen⟩ hI
  have hwrite := h.write data s seen hI
  rcases hrun : d.uartWriteNonblock data s with ⟨r, s'⟩
  rw [hrun] at hwrite
  cases r with
  | ok k =>
    obtain ⟨hle, hI'⟩ := hwrite
    have htraced : (traced d).uartWriteNonblock data (s, seen) =
        (.ok k, s', { seen with sent := seen.sent ++ data.take k }) := by
      simp only [traced, hrun]
    rw [htraced]
    refine ⟨?_, ?_⟩
    · intro a s₁ hok
      cases hok
      refine ⟨hI', fun g w' hw => ⟨beforeWrite port k w' seen.sent, ?_, ?_⟩⟩
      · exact ⟨hw.ticks, hw.clock, hw.shown, hw.period, hw.wait, Function.update_self _ _ _,
          hw.stream, hw.log⟩
      · have hsent : seen.sent ++ data.take k = w'.tx port := hw.sent.symm
        unfold uartWriteNonblock beforeWrite
        simp only [List.length_take, Nat.min_eq_left hle, Function.update_self,
          Function.update_idem, hsent, Function.update_eq_self]
    · intro e s₁ herror
      cases herror
  | error e =>
    have htraced : (traced d).uartWriteNonblock data (s, seen) = (.error e, s', seen) := by
      simp only [traced, hrun]
    rw [htraced]
    refine ⟨?_, ?_⟩
    · intro a s₁ hok
      cases hok
    · intro e' s₁ herror hstuck
      cases herror
      cases e with
      | error msg =>
        have hbefore := worldOf_foreseen port period seen [] [] [.fail msg]
        exact ⟨_, _, _, hbefore, uartWriteNonblock_fail data rfl,
          ⟨rfl, hbefore.shown, rfl, List.prefix_append _ _⟩, hwrite⟩
      | undefined => cases hwrite
      | pending => exact absurd rfl hstuck

theorem record_foretold (h : Sound d period I J) (e : Event) :
    Foretold .pending (foresight port h) ((traced d).record e) ((worldDriver port).record e) := by
  rintro ⟨s, seen⟩ hI
  obtain ⟨s', hrun, hI'⟩ := h.record e s seen hI
  have htraced : (traced d).record e (s, seen) =
      (.ok (), s', { seen with log := seen.log ++ [e] }) := by
    simp only [traced, hrun]
  rw [htraced]
  refine ⟨?_, ?_⟩
  · intro a s₁ hok
    cases hok
    refine ⟨hI', fun g w' hw => ⟨{ w' with log := seen.log }, ?_, ?_⟩⟩
    · exact ⟨hw.ticks, hw.clock, hw.shown, hw.period, hw.wait, hw.sent, hw.stream, rfl⟩
    · have hlog : seen.log ++ [e] = w'.log := hw.log.symm
      show (Except.ok (), ({ w' with log := seen.log } : World).logged e) = _
      unfold World.logged
      rw [hlog]
  · intro e' s₁ herror
    cases herror

/-! ## Programs -/

theorem worldDriver_related (port : Nat) (h : Sound d period I J) :
    Related (foretelling .pending (foresight port h)) (traced d) (worldDriver port) where
  timeCurrentMs := timeCurrentMs_foretold h
  timePeriodMs := timePeriodMs_foretold h
  startReading := startReading_foretold h
  uartReadNonblock := uartReadNonblock_foretold h
  uartWriteNonblock := uartWriteNonblock_foretold h
  record := record_foretold h

/-- `w` is the world in which `seen` happens, and `w'` what is left of it. -/
structure Explains (port : Nat) (period : UInt32) (seen : Seen) (w w' : World) : Prop where
  ticks : w.ticks = 0
  period : w.period = period
  clock : ∀ i now, seen.clock[i]? = some now → w.clock i = now
  looks : w'.ticks = seen.clock.length
  unsent : w.tx port = []
  sent : w'.tx port = seen.sent
  taken : seen.taken <+: w.rx port
  unlogged : w.log = []

/-- Every run on a driver is one with a record. -/
theorem traced_run {client : Client α} {passes : Nat} {s s' : σ} {result : Except Halt α}
    (hrun : client.onDriver d passes s = (result, s')) :
    ∃ seen, client.onDriver (traced d) passes (s, .none) = (result, s', seen) := by
  obtain ⟨hresult, hstate⟩ := traced_erases d client passes s .none
  rw [hrun] at hresult hstate
  exact ⟨_, Prod.ext hresult (Prod.ext hstate rfl)⟩

/-- A run with its record. -/
theorem traced_foretold (port : Nat) (h : Sound d period I J) {client : Client α} {passes : Nat}
    {s s' : σ} {result : Except Halt α} (hs : I s .none)
    (htraced : client.onDriver (traced d) passes (s, .none) = (result, s', seen))
    (hdone : result ≠ .error .pending) (more : List UInt8) :
    ∃ w w', client.onPlatform port w = (result, w') ∧ Explains port period seen w w' ∧
      J s' seen ∧ ∀ a, result = .ok a →
        I s' seen ∧ w.rx port = seen.taken ++ more ∧ w'.rx port = more := by
  obtain ⟨hok, herror⟩ := client_related (worldDriver_related port h) client passes (s, .none) hs
  cases result with
  | ok a =>
    obtain ⟨hkeeps, hback⟩ := hok a (s', seen) htraced
    have hI : I s' seen := hkeeps
    have hend : Foreseen port period (seen.inStore more) seen (worldOf period seen more [] []) :=
      worldOf_foreseen port period seen more [] []
    obtain ⟨w, hbefore, hworld⟩ := hback _ _ hend
    have hstream : w.rx port = seen.taken ++ more := hbefore.stream
    have hexplains : Explains port period seen w (worldOf period seen more [] []) :=
      ⟨hbefore.ticks, hbefore.period, fun i now hi => hbefore.clock ▸ hend.shown i now hi,
        hend.ticks, hbefore.sent, hend.sent, hstream ▸ hend.stopped.stream, hbefore.log⟩
    refine ⟨w, _, client_approximates client passes w _ _ hworld hdone, hexplains,
      h.weaken _ _ hI, fun _ _ => ⟨hI, hstream, rfl⟩⟩
  | error e =>
    obtain ⟨g, w, w', hbefore, hworld, hstops, hJ⟩ :=
      herror e (s', seen) htraced fun he => hdone (congrArg _ he)
    have hstream : w.rx port = g.stream := hbefore.stream
    have hexplains : Explains port period seen w w' :=
      ⟨hbefore.ticks, hbefore.period, fun i now hi => hbefore.clock ▸ hstops.shown i now hi,
        hstops.ticks, hbefore.sent, hstops.sent, hstream ▸ hstops.stream, hbefore.log⟩
    refine ⟨w, w', client_approximates client passes w _ _ hworld hdone, hexplains, hJ, ?_⟩
    intro a hok
    cases hok

/-- **A world for every run**: if a program on the port of a sound driver does not wait for ever, it
ends in the same way on a world that has in store what was seen of the driver in this run, and,
unless the program ended in an error, any bytes `more` after that. What was seen and the state that
the platform is left in satisfy `I`, or `J` if there was an error. -/
theorem client_foretold (port : Nat) (h : Sound d period I J) (client : Client α) (passes : Nat)
    {s s' : σ} {result : Except Halt α} (hs : I s .none)
    (hrun : client.onDriver d passes s = (result, s')) (hdone : result ≠ .error .pending)
    (more : List UInt8) :
    ∃ seen w w', client.onDriver (traced d) passes (s, .none) = (result, s', seen) ∧
      client.onPlatform port w = (result, w') ∧ Explains port period seen w w' ∧
      J s' seen ∧ ∀ a, result = .ok a →
        I s' seen ∧ w.rx port = seen.taken ++ more ∧ w'.rx port = more := by
  obtain ⟨seen, htraced⟩ := traced_run hrun
  obtain ⟨w, w', hworld⟩ := traced_foretold port h hs htraced hdone more
  exact ⟨seen, w, w', htraced, hworld⟩

/-! ## Drivers that keep account of their bytes -/

/-- All that the hardware gave since `s₀` (`got`) is among what was `seen` of the driver, but for
the `lost` bytes, which were taken by a read that failed; all that was seen to be sent was accepted
(`put`). -/
structure Accounted (got put : σ → List UInt8) (s₀ : σ) (lost : List UInt8) (s : σ) (seen : Seen) :
    Prop where
  taken : got s = got s₀ ++ seen.taken ++ lost
  sent : put s = put s₀ ++ seen.sent

variable {got put : σ → List UInt8}

theorem Accounted.start (got put : σ → List UInt8) (s : σ) : Accounted got put s [] s .none :=
  ⟨by simp only [Seen.none, List.append_nil], (List.append_nil _).symm⟩

theorem Accounted.congr {s₀ s s' : σ} {lost : List UInt8} (h : Accounted got put s₀ lost s seen)
    (hgot : got s' = got s) (hput : put s' = put s) : Accounted got put s₀ lost s' seen :=
  ⟨hgot.trans h.taken, hput.trans h.sent⟩

/-- A sound driver that accounts for its bytes since `s₀`, until it fails. -/
abbrev Accountable (d : Driver σ) (period : UInt32) (got put : σ → List UInt8) (s₀ : σ) : Prop :=
  Sound d period (Accounted got put s₀ []) fun s seen => ∃ lost, Accounted got put s₀ lost s seen

/-- A run of a program that took the bytes off a driver's hardware and put bytes on it is a run on a
world: the bytes that the hardware gave were on their way, and the transmitter accepts those that
the hardware accepted. Nothing is lost between the hardware and the program unless it ends in an
error. -/
def AsOnWorld (port : Nat) (period : UInt32) (got put : σ → List UInt8) (client : Client α)
    (s : σ) (result : Except Halt α) (s' : σ) : Prop :=
  ∀ more, ∃ w w' taken lost, client.onPlatform port w = (result, w') ∧
    w.ticks = 0 ∧ w.period = period ∧ w.tx port = [] ∧ put s' = put s ++ w'.tx port ∧
    got s' = got s ++ taken ++ lost ∧ taken <+: w.rx port ∧
    ∀ a, result = .ok a → lost = [] ∧ w.rx port = taken ++ more ∧ w'.rx port = more

theorem client_asOnWorld (port : Nat) {client : Client α} {passes : Nat} {s s' : σ}
    {result : Except Halt α} (h : Accountable d period got put s)
    (hrun : client.onDriver d passes s = (result, s')) (hdone : result ≠ .error .pending) :
    AsOnWorld port period got put client s result s' := by
  intro more
  obtain ⟨seen, htraced⟩ := traced_run hrun
  obtain ⟨w, w', hworld, hexplains, ⟨lost, hlost⟩, hok⟩ :=
    traced_foretold port h (Accounted.start got put s) htraced hdone more
  have hput : put s' = put s ++ w'.tx port := by rw [hexplains.sent, hlost.sent]
  cases result with
  | ok a =>
    obtain ⟨hall, hrx, hrx'⟩ := hok a rfl
    exact ⟨w, w', seen.taken, [], hworld, hexplains.ticks, hexplains.period, hexplains.unsent, hput,
      hall.taken, hexplains.taken, fun _ _ => ⟨rfl, hrx, hrx'⟩⟩
  | error e =>
    refine ⟨w, w', seen.taken, lost, hworld, hexplains.ticks, hexplains.period, hexplains.unsent,
      hput, hlost.taken, hexplains.taken, ?_⟩
    intro a hok'
    cases hok'

end Nuhal.Drivers

import Nuhal.Link.Looks

/-!
# The read loop, pass by pass (`nuhal_all/src/uart.c:28-69`)

`Link/Reads` treats a blocking read as a whole. Here it is taken apart, with any terminator. What
the loop has after `i` passes follows from what the call is given: the bytes on their way, the
schedule and the clock.

* `arrivedBy`: how many bytes the first `i` answers of the driver hand over.
* `GoesOn`: the pass that follows `i` others does not end the read. `PassEnds` lists the ways in
  which it can end it.
* **`uartReadBlockError_passes`**: every read goes through passes that go on up to one that ends
  it. `EndsAt.unique` says that there is one such pass only.
-/

namespace Nuhal.Link

open Nuhal.Lib Nuhal.All

variable {n port off len : Nat} {mem : Vector UInt8 n} {timeout : UInt32} {term : UartTerm}
  {timeoutError : Bool} {w w' : World}

/-- The bytes that end a read in a mode. -/
def terminates : UartTerm → UInt8 → Bool
  | .none, _ => false
  | .cr, b => b == 0x0D
  | .lf, b => b == 0x0A
  | .null, b => b == 0x00
  | .crOrLf, b => b == 0x0D || b == 0x0A

/-- `data[read - 1]`, for `data` at `mem + off`, where the block has it. -/
def storedLast (mem : Vector UInt8 n) (off read : Nat) : Option UInt8 :=
  if off + read = 0 then none else mem[off + read - 1]?

/-- The bytes that the first `i` answers hand over to a read of `len` bytes. -/
def arrivedBy (w : World) (port len i : Nat) : Nat :=
  min (capacity (w.reads.take i)) (min len (w.rx port).length)

/-- The byte the terminator test looks at when `read` bytes have come. -/
def lastByte (mem : Vector UInt8 n) (off : Nat) (stream : List UInt8) (read : Nat) :
    Option UInt8 :=
  if read = 0 then storedLast mem off 0 else stream[read - 1]?

/-- The pass after `i` others does not end the read. -/
structure GoesOn (port : Nat) (mem : Vector UInt8 n) (off len : Nat) (timeout : UInt32)
    (term : UartTerm) (w : World) (i : Nat) : Prop where
  look : LookInTime timeout w (i + 1)
  answer : ∃ count, w.reads[i]? = some (.bytes count)
  short : arrivedBy w port len (i + 1) < len
  quiet : term ≠ .none →
    ∃ b, lastByte mem off (w.rx port) (arrivedBy w port len (i + 1)) = some b ∧
      terminates term b = false

/-- What a pass that goes on has last is not a terminator. -/
theorem GoesOn.quiet_at {i : Nat} {b : UInt8} (h : GoesOn port mem off len timeout term w i)
    (hb : lastByte mem off (w.rx port) (arrivedBy w port len (i + 1)) = some b) :
    terminates term b = false := by
  by_cases hterm : term = .none
  · rw [hterm]
    rfl
  · obtain ⟨b', hb', hquiet⟩ := h.quiet hterm
    rw [hb] at hb'
    cases hb'
    exact hquiet

/-- How the pass after `i` others ends the read. -/
inductive PassEnds (port : Nat) (mem : Vector UInt8 n) (off len : Nat) (timeout : UInt32)
    (term : UartTerm) (timeoutError : Bool) (w : World) (i : Nat) (w' : World) :
    Except Halt (Nat × Vector UInt8 n) → Prop
  /-- The deadline has passed. -/
  | late (mem' : Vector UInt8 n) (hlook : ¬ LookInTime timeout w (i + 1))
      (herror : timeoutError = false)
      (hmem : store mem off ((w.rx port).take (arrivedBy w port len i)) = some mem')
      (hrx : w'.rx port = (w.rx port).drop (arrivedBy w port len i))
      (hreads : w'.reads = w.reads.drop i) (hlog : w'.log.getLast? = some .expired) :
      PassEnds port mem off len timeout term timeoutError w i w'
        (.ok (arrivedBy w port len i, mem'))
  | timedOut (hlook : ¬ LookInTime timeout w (i + 1)) (herror : timeoutError = true) :
      PassEnds port mem off len timeout term timeoutError w i w'
        (.error (.error "Timeout on blocking read."))
  /-- The driver does not answer any more. -/
  | waiting (hlook : LookInTime timeout w (i + 1)) (hanswer : w.reads[i]? = none) :
      PassEnds port mem off len timeout term timeoutError w i w' (.error .pending)
  | failed (msg : String) (hlook : LookInTime timeout w (i + 1))
      (hanswer : w.reads[i]? = some (.fail msg)) :
      PassEnds port mem off len timeout term timeoutError w i w' (.error (.error msg))
  /-- The last byte that is looked for has come. -/
  | complete (count : Nat) (mem' : Vector UInt8 n) (hlook : LookInTime timeout w (i + 1))
      (hanswer : w.reads[i]? = some (.bytes count))
      (hdone : arrivedBy w port len (i + 1) = len ∨
        ∃ b, lastByte mem off (w.rx port) (arrivedBy w port len (i + 1)) = some b ∧
          terminates term b = true)
      (hmem : store mem off ((w.rx port).take (arrivedBy w port len (i + 1))) = some mem')
      (hrx : w'.rx port = (w.rx port).drop (arrivedBy w port len (i + 1)))
      (hreads : w'.reads = w.reads.drop (i + 1)) :
      PassEnds port mem off len timeout term timeoutError w i w'
        (.ok (arrivedBy w port len (i + 1), mem'))
  /-- The terminator test looks in front of the block. -/
  | outside (count : Nat) (hterm : term ≠ .none) (hlook : LookInTime timeout w (i + 1))
      (hanswer : w.reads[i]? = some (.bytes count))
      (hnone : lastByte mem off (w.rx port) (arrivedBy w port len (i + 1)) = none) :
      PassEnds port mem off len timeout term timeoutError w i w' (.error .undefined)

/-- The first pass gets to the terminator test without a byte. -/
structure FirstEmpty (port len : Nat) (timeout : UInt32) (term : UartTerm) (w : World) :
    Prop where
  term : term ≠ .none
  look : LookInTime timeout w 1
  answer : ∃ count, w.reads[0]? = some (.bytes count)
  nothing : arrivedBy w port len 1 = 0

/-- The terminator test without a byte is logged if, and only if, the first pass makes it. -/
def Tested (port len : Nat) (timeout : UInt32) (term : UartTerm) (w w' : World) : Prop :=
  ∃ new, w'.log = w.log ++ new ∧
    (Event.terminator 0 ∈ new ↔ FirstEmpty port len timeout term w)

/-- The state of the read loop after `i` passes. -/
structure AfterPasses (port : Nat) (mem : Vector UInt8 n) (off len : Nat) (timeout : UInt32)
    (term : UartTerm) (w : World) (i : Nat) (st : Reading n) (w' : World) : Prop where
  goesOn : ∀ j < i, GoesOn port mem off len timeout term w j
  looked : Looked timeout w i st.stamp w'
  read : st.read = arrivedBy w port len i
  mem : store mem off ((w.rx port).take (arrivedBy w port len i)) = some st.mem
  rx : w'.rx port = (w.rx port).drop (arrivedBy w port len i)
  reads : w'.reads = w.reads.drop i
  log : ∃ new, w'.log = w.log ++ new ∧
    (Event.terminator 0 ∈ new ↔ i ≠ 0 ∧ FirstEmpty port len timeout term w)

/-! ## What has arrived -/

theorem arrivedBy_zero (w : World) (port len : Nat) : arrivedBy w port len 0 = 0 := by
  simp [arrivedBy, capacity]

theorem arrivedBy_le (w : World) (port len i : Nat) : arrivedBy w port len i ≤ len := by
  unfold arrivedBy
  omega

theorem arrivedBy_le_length (w : World) (port len i : Nat) :
    arrivedBy w port len i ≤ (w.rx port).length := by
  unfold arrivedBy
  omega

theorem arrivedBy_mono (w : World) (port len : Nat) {i j : Nat} (h : i ≤ j) :
    arrivedBy w port len i ≤ arrivedBy w port len j := by
  have hcap := capacity_take_le_capacity (w.reads.take j) i
  rw [List.take_take, Nat.min_eq_left h] at hcap
  unfold arrivedBy
  omega

/-- What the pass after `i` others gets from the driver. -/
theorem arrivedBy_succ (port len : Nat) {count i : Nat}
    (h : w.reads[i]? = some (.bytes count)) :
    (w.rx port).take (arrivedBy w port len (i + 1)) =
        (w.rx port).take (arrivedBy w port len i) ++
          ((w.rx port).drop (arrivedBy w port len i)).take
            (min count (len - arrivedBy w port len i)) ∧
      arrivedBy w port len (i + 1) = arrivedBy w port len i +
        (((w.rx port).drop (arrivedBy w port len i)).take
          (min count (len - arrivedBy w port len i))).length := by
  have hcap := capacity_take_succ h
  have hsum : arrivedBy w port len (i + 1) = arrivedBy w port len i +
      (((w.rx port).drop (arrivedBy w port len i)).take
        (min count (len - arrivedBy w port len i))).length := by
    unfold arrivedBy
    rw [List.length_take, List.length_drop, hcap]
    omega
  refine ⟨?_, hsum⟩
  rw [hsum, List.take_add, List.length_take, ← List.take_eq_take_min]

/-! ## The terminator test -/

theorem terminated_none (mem : Vector UInt8 n) (off read : Nat) (w : World) :
    terminated .none mem off read w = (.ok false, w) := rfl

theorem ne_none_of_terminates {b : UInt8} (h : terminates term b = true) : term ≠ .none := by
  rintro rfl
  cases h

theorem lastRead_some {read : Nat} {b : UInt8} (h : storedLast mem off read = some b) :
    lastRead mem off read w = (.ok b, w.logged (.terminator read)) := by
  unfold storedLast at h
  unfold lastRead
  rw [h]

theorem lastRead_none {read : Nat} (h : storedLast mem off read = none) :
    lastRead mem off read w = (.error .undefined, w.logged (.terminator read)) := by
  unfold storedLast at h
  unfold lastRead
  rw [h]

theorem terminated_some {read : Nat} {b : UInt8} (hterm : term ≠ .none)
    (h : storedLast mem off read = some b) :
    terminated term mem off read w = (.ok (terminates term b), w.logged (.terminator read)) := by
  cases term with
  | none => exact absurd rfl hterm
  | lf => exact Run.bind_of_ok (lastRead_some h) _
  | cr => exact Run.bind_of_ok (lastRead_some h) _
  | crOrLf => exact Run.bind_of_ok (lastRead_some h) _
  | null => exact Run.bind_of_ok (lastRead_some h) _

theorem terminated_outside {read : Nat} (hterm : term ≠ .none)
    (h : storedLast mem off read = none) :
    terminated term mem off read w = (.error .undefined, w.logged (.terminator read)) := by
  cases term with
  | none => exact absurd rfl hterm
  | lf => exact Run.bind_of_error (lastRead_none h) _
  | cr => exact Run.bind_of_error (lastRead_none h) _
  | crOrLf => exact Run.bind_of_error (lastRead_none h) _
  | null => exact Run.bind_of_error (lastRead_none h) _

/-- What was stored last is the last byte that came. -/
theorem storedLast_store {mem' : Vector UInt8 n} {stream : List UInt8} {read : Nat}
    (h : store mem off (stream.take read) = some mem') (hread : read ≤ stream.length) :
    storedLast mem' off read = lastByte mem off stream read := by
  unfold lastByte
  by_cases h0 : read = 0
  · subst h0
    rw [List.take_zero, store_nil (by simpa using store_le h)] at h
    rw [if_pos rfl, Option.some.inj h]
  · obtain ⟨hle, hcells⟩ := store_eq_some.mp h
    rw [List.length_take, Nat.min_eq_left hread] at hle
    unfold storedLast
    have hfront : (mem.toList.take off).length = off := by
      rw [List.length_take, Vector.length_toList]
      omega
    rw [if_neg h0, if_neg (by omega), ← Vector.getElem?_toList, hcells, List.append_assoc,
      List.getElem?_append_right (by omega), hfront,
      List.getElem?_append_left (by rw [List.length_take]; omega), List.getElem?_take,
      if_pos (by omega)]
    congr 1
    omega

/-! ## One pass -/

/-- A pass that got an answer from the driver. -/
theorem readPass_got {st : Reading n} {stamp : TimeElapsed} {w₁ w₂ w₃ : World} {k : Nat}
    {mem' : Vector UInt8 n}
    (hopen : deadlineOpen timeout st.stamp w₁ = (.ok (true, stamp), w₂))
    (hpoll : uartReadNonblock port st.mem (off + st.read) (len - st.read) w₂ =
      (.ok (k, mem'), w₃)) :
    readPass port off len timeout term timeoutError st w₁ =
      (do
        if st.read + k = len then return .inr (st.read + k, mem')
        if ← terminated term mem' off (st.read + k) then return .inr (st.read + k, mem')
        return .inl { stamp, mem := mem', read := st.read + k } : OnPlatform _) w₃ := by
  unfold readPass
  rw [Run.bind_of_ok hopen]
  simp only [if_true]
  rw [Run.bind_of_ok hpoll]

/-- A pass in which the driver did not answer. -/
theorem readPass_stopped {st : Reading n} {stamp : TimeElapsed} {w₁ w₂ w₃ : World} {e : Halt}
    (hopen : deadlineOpen timeout st.stamp w₁ = (.ok (true, stamp), w₂))
    (hpoll : uartReadNonblock port st.mem (off + st.read) (len - st.read) w₂ = (.error e, w₃)) :
    readPass port off len timeout term timeoutError st w₁ = (.error e, w₃) := by
  unfold readPass
  rw [Run.bind_of_ok hopen]
  exact Run.bind_of_error hpoll _

/-- The pass that ends a read, and those before it. -/
structure EndsAt (port : Nat) (mem : Vector UInt8 n) (off len : Nat) (timeout : UInt32)
    (term : UartTerm) (timeoutError : Bool) (w : World) (i : Nat)
    (r : Except Halt (Nat × Vector UInt8 n)) (w' : World) : Prop where
  goesOn : ∀ j < i, GoesOn port mem off len timeout term w j
  ends : PassEnds port mem off len timeout term timeoutError w i w' r
  looked : ∃ stamp, Looked timeout w (i + 1) stamp w'
  tested : Tested port len timeout term w w'

/-- The test without a byte is one of the first pass. -/
theorem firstEmpty_of {i count : Nat}
    (hgo : ∀ j < i, GoesOn port mem off len timeout term w j) (hterm : term ≠ .none)
    (hlook : LookInTime timeout w (i + 1)) (hanswer : w.reads[i]? = some (.bytes count))
    (h0 : arrivedBy w port len (i + 1) = 0) : FirstEmpty port len timeout term w := by
  have hfirst := arrivedBy_mono w port len (show 1 ≤ i + 1 by omega)
  cases i with
  | zero => exact ⟨hterm, hlook, ⟨count, hanswer⟩, h0⟩
  | succ i =>
    have hzero := hgo 0 (Nat.succ_pos i)
    exact ⟨hterm, hzero.look, hzero.answer, by omega⟩

/-- A pass that does not get to the terminator test logs nothing of it. -/
theorem AfterPasses.untested {i : Nat} {st : Reading n} {w₁ w₂ : World} {events : List Event}
    (h : AfterPasses port mem off len timeout term w i st w₁) (hlog : w₂.log = w₁.log ++ events)
    (hevents : Event.terminator 0 ∉ events)
    (hno : i = 0 → ¬ FirstEmpty port len timeout term w) : Tested port len timeout term w w₂ := by
  obtain ⟨new, hnew, hiff⟩ := h.log
  refine ⟨new ++ events, by rw [hlog, hnew, List.append_assoc], ?_⟩
  rw [List.mem_append, or_iff_left hevents, hiff]
  exact and_iff_right_of_imp fun hempty h0 => hno h0 hempty

/-- What the terminator test of a pass logs. -/
theorem AfterPasses.tested {i read : Nat} {st : Reading n} {w₁ w₂ : World}
    (h : AfterPasses port mem off len timeout term w i st w₁)
    (hlog : w₂.log = w₁.log ++ [.store (off + st.read) read,
      .terminator (arrivedBy w port len (i + 1))])
    (hempty : arrivedBy w port len (i + 1) = 0 → FirstEmpty port len timeout term w) :
    Tested port len timeout term w w₂ := by
  obtain ⟨new, hnew, hiff⟩ := h.log
  refine ⟨new ++ _, by rw [hlog, hnew, List.append_assoc], ?_⟩
  rw [List.mem_append, hiff]
  constructor
  · rintro (⟨-, hfirst⟩ | htest)
    · exact hfirst
    · exact hempty (by simpa [eq_comm] using htest)
  · intro hfirst
    by_cases h0 : i = 0
    · subst h0
      have hnothing := hfirst.nothing
      exact .inr (by simp [hnothing])
    · exact .inl ⟨h0, hfirst⟩

/-- What the next pass of a read loop establishes. -/
abbrev NextPass (port : Nat) (mem : Vector UInt8 n) (off len : Nat) (timeout : UInt32)
    (term : UartTerm) (timeoutError : Bool) (w : World) :
    Nat → Except Halt (Reading n ⊕ (Nat × Vector UInt8 n)) → World → Prop :=
  Run.Pass (fun st w' => ∃ i, AfterPasses port mem off len timeout term w i st w')
    (fun w' => w'.reads.length)
    (fun r w' => ∃ i, EndsAt port mem off len timeout term timeoutError w i r w')

/-- A pass that finds the deadline passed. -/
theorem readPass_late {i : Nat} {st : Reading n} {w₁ : World} {stamp : TimeElapsed} {ticks : Nat}
    (h : AfterPasses port mem off len timeout term w i st w₁)
    (hlook : ¬ LookInTime timeout w (i + 1))
    (hlooked : Looked timeout w (i + 1) stamp { w₁ with ticks := ticks })
    (hexpired : deadlineOpen timeout st.stamp w₁ =
      (.ok (false, stamp), { w₁ with ticks := ticks, log := w₁.log ++ [.expired] })) :
    (readPass port off len timeout term timeoutError st).Ends w₁
      (NextPass port mem off len timeout term timeoutError w w₁.reads.length) := by
  have htested : Tested port len timeout term w
      { w₁ with ticks := ticks, log := w₁.log ++ [.expired] } :=
    h.untested rfl (by simp) fun h0 hempty => hlook (by rw [h0]; exact hempty.look)
  have hstamp : ∃ stamp, Looked timeout w (i + 1) stamp
      { w₁ with ticks := ticks, log := w₁.log ++ [.expired] } :=
    ⟨stamp, hlooked.congr rfl rfl rfl rfl⟩
  refine Run.ends_of_eq (readPass_expired hexpired) ?_
  cases timeoutError with
  | true => exact ⟨i, h.goesOn, .timedOut hlook rfl, hstamp, htested⟩
  | false =>
    refine ⟨i, h.goesOn, ?_, hstamp, htested⟩
    rw [h.read]
    exact .late st.mem hlook rfl h.mem h.rx h.reads (by simp)

/-- What a pass makes of the bytes it got: `w₂` is the world after the driver's answer. -/
theorem afterAnswer {i count k : Nat} {st : Reading n} {w₁ w₂ : World} {stamp : TimeElapsed}
    {mem' : Vector UInt8 n} (hlen : 0 < len)
    (h : AfterPasses port mem off len timeout term w i st w₁)
    (hlook : LookInTime timeout w (i + 1)) (hanswer : w.reads[i]? = some (.bytes count))
    (hlooked : Looked timeout w (i + 1) stamp w₂)
    (hmem : store mem off ((w.rx port).take (arrivedBy w port len (i + 1))) = some mem')
    (hrx : w₂.rx port = (w.rx port).drop (arrivedBy w port len (i + 1)))
    (hreads : w₂.reads = w.reads.drop (i + 1))
    (hlog : w₂.log = w₁.log ++ [.store (off + st.read) k]) :
    (do
      if arrivedBy w port len (i + 1) = len then
        return .inr (arrivedBy w port len (i + 1), mem')
      if ← terminated term mem' off (arrivedBy w port len (i + 1)) then
        return .inr (arrivedBy w port len (i + 1), mem')
      return .inl { stamp, mem := mem', read := arrivedBy w port len (i + 1) } :
        OnPlatform (Reading n ⊕ (Nat × Vector UInt8 n))).Ends w₂
      (NextPass port mem off len timeout term timeoutError w w₁.reads.length) := by
  have hle := arrivedBy_le w port len (i + 1)
  have hfewer : w₂.reads.length < w₁.reads.length := by
    rw [h.reads, hreads, drop_of_getElem? hanswer]
    exact Nat.lt_succ_self _
  by_cases hfull : arrivedBy w port len (i + 1) = len
  · rw [if_pos hfull]
    refine ⟨i, h.goesOn, .complete count mem' hlook hanswer (.inl hfull) hmem hrx hreads,
      ⟨stamp, hlooked⟩, h.untested hlog (by simp) fun h0 hempty => ?_⟩
    have hnothing := hempty.nothing
    rw [h0, Nat.zero_add] at hfull
    omega
  rw [if_neg hfull]
  have hshort : arrivedBy w port len (i + 1) < len := Nat.lt_of_le_of_ne hle hfull
  have hbytes : ∀ log, Tested port len timeout term w { w₂ with log := log } →
      (term ≠ .none →
        ∃ b, lastByte mem off (w.rx port) (arrivedBy w port len (i + 1)) = some b ∧
          terminates term b = false) →
      NextPass port mem off len timeout term timeoutError w w₁.reads.length
        (.ok (.inl { stamp, mem := mem', read := arrivedBy w port len (i + 1) }))
        { w₂ with log := log } := by
    rintro log ⟨new, hnew, hiff⟩ hquiet
    refine ⟨⟨i + 1, fun j hj => ?_, hlooked.congr rfl rfl rfl rfl, rfl, hmem, hrx, hreads, new,
      hnew, by simpa using hiff⟩, hfewer⟩
    rcases Nat.lt_succ_iff_lt_or_eq.mp hj with hlt | rfl
    · exact h.goesOn j hlt
    · exact ⟨hlook, ⟨count, hanswer⟩, hshort, hquiet⟩
  by_cases hterm : term = .none
  · subst hterm
    have huntested : Tested port len timeout .none w w₂ :=
      h.untested hlog (by simp) fun _ hempty => hempty.term rfl
    unfold Run.Ends
    rw [Run.bind_of_ok (terminated_none _ _ _ _)]
    exact hbytes w₂.log huntested fun hne => absurd rfl hne
  · have htested : ∀ read, read = arrivedBy w port len (i + 1) →
        Tested port len timeout term w (w₂.logged (.terminator read)) := by
      intro read hread
      have hboth : (w₂.logged (.terminator read)).log = w₁.log ++ [.store (off + st.read) k,
          .terminator (arrivedBy w port len (i + 1))] := by
        rw [hread]
        simp [World.logged, hlog]
      exact h.tested hboth fun h0 => firstEmpty_of h.goesOn hterm hlook hanswer h0
    have hlast := storedLast_store hmem (arrivedBy_le_length w port len (i + 1))
    unfold Run.Ends
    cases hb : lastByte mem off (w.rx port) (arrivedBy w port len (i + 1)) with
    | none =>
      rw [Run.bind_of_error (terminated_outside hterm (hlast.trans hb))]
      exact ⟨i, h.goesOn, .outside count hterm hlook hanswer hb,
        ⟨stamp, hlooked.congr rfl rfl rfl rfl⟩, htested _ rfl⟩
    | some b =>
      rw [Run.bind_of_ok (terminated_some hterm (hlast.trans hb))]
      cases hends : terminates term b with
      | true =>
        exact ⟨i, h.goesOn,
          .complete count mem' hlook hanswer (.inr ⟨b, hb, hends⟩) hmem hrx hreads,
          ⟨stamp, hlooked.congr rfl rfl rfl rfl⟩, htested _ rfl⟩
      | false => exact hbytes _ (htested _ rfl) fun _ => ⟨b, hb, hends⟩

/-- A pass that gets bytes, none included. -/
theorem readPass_bytes {i count : Nat} {st : Reading n} {w₁ : World} {stamp : TimeElapsed}
    {ticks : Nat} (hoff : off + len ≤ n) (hlen : 0 < len)
    (h : AfterPasses port mem off len timeout term w i st w₁)
    (hlook : LookInTime timeout w (i + 1)) (hanswer : w.reads[i]? = some (.bytes count))
    (hlooked : Looked timeout w (i + 1) stamp { w₁ with ticks := ticks })
    (hopen : deadlineOpen timeout st.stamp w₁ =
      (.ok (true, stamp), { w₁ with ticks := ticks })) :
    (readPass port off len timeout term timeoutError st).Ends w₁
      (NextPass port mem off len timeout term timeoutError w w₁.reads.length) := by
  obtain ⟨htake, hsum⟩ := arrivedBy_succ port len hanswer
  have hle := arrivedBy_le w port len (i + 1)
  have hin := arrivedBy_le_length w port len (i + 1)
  have hreads := h.reads.trans (drop_of_getElem? hanswer)
  have hgot : World.incoming { w₁ with ticks := ticks } port count (len - st.read) =
      ((w.rx port).drop (arrivedBy w port len i)).take
        (min count (len - arrivedBy w port len i)) := by
    unfold World.incoming
    rw [h.rx, h.read]
  obtain ⟨mem', hmem'⟩ := exists_store mem
    (show off + ((w.rx port).take (arrivedBy w port len (i + 1))).length ≤ n by
      rw [List.length_take]
      omega)
  have hstore : store st.mem (off + st.read)
      (World.incoming { w₁ with ticks := ticks } port count (len - st.read)) = some mem' := by
    have hlength := List.length_take_of_le (arrivedBy_le_length w port len i)
    rw [hgot, h.read, ← hmem', htake, ← store_store h.mem, hlength]
  have hpoll : uartReadNonblock port st.mem (off + st.read) (len - st.read)
      { w₁ with ticks := ticks } = _ := uartReadNonblock_ok hreads hstore
  rw [hgot] at hpoll
  have hread : st.read + (((w.rx port).drop (arrivedBy w port len i)).take
      (min count (len - arrivedBy w port len i))).length = arrivedBy w port len (i + 1) := by
    rw [h.read, hsum]
  unfold Run.Ends
  rw [readPass_got hopen hpoll, hread]
  refine afterAnswer hlen h hlook hanswer (hlooked.congr rfl rfl rfl rfl) hmem' ?_ rfl rfl
  show Function.update w₁.rx port _ port = _
  rw [Function.update_self, h.rx, List.drop_drop, hsum]

/-- One pass of the read loop. -/
theorem readPass_next {st : Reading n} {w₁ : World} (hoff : off + len ≤ n) (hlen : 0 < len)
    (h : ∃ i, AfterPasses port mem off len timeout term w i st w₁) :
    (readPass port off len timeout term timeoutError st).Ends w₁
      (NextPass port mem off len timeout term timeoutError w w₁.reads.length) := by
  obtain ⟨i, h⟩ := h
  obtain ⟨stamp, ticks, hlooked, hopen, hexpired⟩ := deadlineOpen_looked h.looked
  by_cases hlook : LookInTime timeout w (i + 1)
  · have hopen := hopen hlook
    cases hanswer : w.reads[i]? with
    | none =>
      have hreads : w₁.reads = [] := by
        rw [h.reads, List.drop_eq_nil_of_le (List.getElem?_eq_none_iff.mp hanswer)]
      have hpoll : uartReadNonblock port st.mem (off + st.read) (len - st.read)
          { w₁ with ticks := ticks } = _ := uartReadNonblock_pending hreads
      refine Run.ends_of_eq (readPass_stopped hopen hpoll)
        ⟨i, h.goesOn, .waiting hlook hanswer, ⟨stamp, hlooked⟩,
          h.untested (List.append_nil _).symm (by simp) fun h0 hempty => ?_⟩
      obtain ⟨count, hfirst⟩ := hempty.answer
      rw [h0, hfirst] at hanswer
      cases hanswer
    | some answer =>
      cases answer with
      | bytes count => exact readPass_bytes hoff hlen h hlook hanswer hlooked hopen
      | fail msg =>
        have hreads := h.reads.trans (drop_of_getElem? hanswer)
        have hpoll : uartReadNonblock port st.mem (off + st.read) (len - st.read)
            { w₁ with ticks := ticks } = _ := uartReadNonblock_fail hreads
        refine Run.ends_of_eq (readPass_stopped hopen hpoll)
          ⟨i, h.goesOn, .failed msg hlook hanswer, ⟨stamp, hlooked.congr rfl rfl rfl rfl⟩,
            h.untested rfl (by simp) fun h0 hempty => ?_⟩
        obtain ⟨count, hfirst⟩ := hempty.answer
        rw [h0, hfirst] at hanswer
        cases hanswer
  · exact readPass_late h hlook hlooked (hexpired hlook)

/-! ## The whole read -/

/-- **A read of at least one byte goes through passes that go on, up to one that ends it.** -/
theorem uartReadBlockError_passes {ready : Bool} (hoff : off + len ≤ n) (hlen : 0 < len)
    (hwait : w.wait (w.ticks + 1) = .ok ready) :
    (uartReadBlockError port mem off len timeout term timeoutError).Ends w fun r w' =>
      ∃ i, EndsAt port mem off len timeout term timeoutError w i r w' := by
  unfold Run.Ends
  rw [uartReadBlockError_start (Nat.ne_of_gt hlen) hwait]
  refine Run.iterate_ends (fun _ _ h => readPass_next hoff hlen h) _ _ _ (Nat.lt_succ_self _)
    ⟨0, ?_⟩
  have hnone := arrivedBy_zero w port len
  refine ⟨nofun, ⟨fun _ => rfl, rfl, rfl, fun _ => rfl, fun _ => rfl, rfl⟩, hnone.symm, ?_, ?_, rfl,
    [.ask len], rfl, by simp⟩
  · rw [hnone]
    exact store_nil (by omega)
  · rw [hnone]
    rfl

/-- The pass that ends a read is not one of those that go on. -/
theorem PassEnds.not_goesOn {i : Nat} {r : Except Halt (Nat × Vector UInt8 n)}
    (h : PassEnds port mem off len timeout term timeoutError w i w' r) :
    ¬ GoesOn port mem off len timeout term w i := by
  intro hgo
  obtain ⟨count, hbytes⟩ := hgo.answer
  cases h with
  | late _ hlook => exact hlook hgo.look
  | timedOut hlook => exact hlook hgo.look
  | waiting _ hanswer =>
    rw [hbytes] at hanswer
    cases hanswer
  | failed _ _ hanswer =>
    rw [hbytes] at hanswer
    cases hanswer
  | complete _ _ _ _ hdone =>
    rcases hdone with hfull | ⟨b, hb, hends⟩
    · exact Nat.ne_of_lt hgo.short hfull
    · exact absurd hends (by rw [hgo.quiet_at hb]; exact Bool.false_ne_true)
  | outside _ hterm _ _ hnone =>
    obtain ⟨b, hb, -⟩ := hgo.quiet hterm
    rw [hnone] at hb
    cases hb

/-- A read that returns does so because the deadline has passed, or because it is complete. -/
theorem PassEnds.of_ok {i k : Nat} {mem' : Vector UInt8 n}
    (h : PassEnds port mem off len timeout term timeoutError w i w' (.ok (k, mem'))) :
    store mem off ((w.rx port).take k) = some mem' ∧ w'.rx port = (w.rx port).drop k ∧
      (k = arrivedBy w port len i ∧ ¬ LookInTime timeout w (i + 1) ∧ timeoutError = false ∧
          w'.log.getLast? = some .expired ∨
        k = arrivedBy w port len (i + 1) ∧ LookInTime timeout w (i + 1) ∧
          (∃ count, w.reads[i]? = some (.bytes count)) ∧
          (k = len ∨ ∃ b, lastByte mem off (w.rx port) k = some b ∧ terminates term b = true)) := by
  cases h with
  | late _ hlook herror hmem hrx _ hlog => exact ⟨hmem, hrx, .inl ⟨rfl, hlook, herror, hlog⟩⟩
  | complete count _ hlook hanswer hdone hmem hrx =>
    exact ⟨hmem, hrx, .inr ⟨rfl, hlook, ⟨count, hanswer⟩, hdone⟩⟩

/-- A pass in time that gets an answer completes the read, or looks in front of the block. -/
theorem PassEnds.of_bytes {i count : Nat} {r : Except Halt (Nat × Vector UInt8 n)}
    (h : PassEnds port mem off len timeout term timeoutError w i w' r)
    (hlook : LookInTime timeout w (i + 1)) (hanswer : w.reads[i]? = some (.bytes count)) :
    (r = .error .undefined ∧
        lastByte mem off (w.rx port) (arrivedBy w port len (i + 1)) = none) ∨
      ∃ mem', r = .ok (arrivedBy w port len (i + 1), mem') ∧
        (arrivedBy w port len (i + 1) = len ∨
          ∃ b, lastByte mem off (w.rx port) (arrivedBy w port len (i + 1)) = some b ∧
            terminates term b = true) ∧
        store mem off ((w.rx port).take (arrivedBy w port len (i + 1))) = some mem' ∧
        w'.rx port = (w.rx port).drop (arrivedBy w port len (i + 1)) := by
  cases h with
  | late _ hlate => exact absurd hlook hlate
  | timedOut hlate => exact absurd hlook hlate
  | waiting _ hnone =>
    rw [hanswer] at hnone
    cases hnone
  | failed _ _ hfail =>
    rw [hanswer] at hfail
    cases hfail
  | complete _ mem' _ _ hdone hmem hrx => exact .inr ⟨mem', rfl, hdone, hmem, hrx⟩
  | outside _ _ _ _ hnone => exact .inl ⟨rfl, hnone⟩

/-- The first pass that does not go on is the one that ends the read. -/
theorem EndsAt.unique {i k : Nat} {r : Except Halt (Nat × Vector UInt8 n)}
    (h : EndsAt port mem off len timeout term timeoutError w i r w')
    (hgo : ∀ j < k, GoesOn port mem off len timeout term w j)
    (hstop : ¬ GoesOn port mem off len timeout term w k) : k = i :=
  Run.first_stop_unique h.goesOn h.ends.not_goesOn hgo hstop

theorem exists_lastByte {stream : List UInt8} {k : Nat} (mem : Vector UInt8 n) (off : Nat)
    (h0 : 0 < k) (hk : k ≤ stream.length) : ∃ b, lastByte mem off stream k = some b := by
  rw [lastByte, if_neg (Nat.ne_of_gt h0)]
  exact ⟨_, List.getElem?_eq_getElem (by omega)⟩

theorem head?_of_arrivedBy_one {count : Nat} (hlen : 0 < len) (hrx : 0 < (w.rx port).length)
    (hanswer : w.reads[0]? = some (.bytes count)) :
    arrivedBy w port len 1 = 0 ↔ w.reads.head? = some (.bytes 0) := by
  have hcap : capacity (w.reads.take 1) = count := by
    simpa [capacity] using capacity_take_succ hanswer
  rw [List.head?_eq_getElem?, hanswer]
  unfold arrivedBy
  rw [hcap, Option.some.injEq, Answer.bytes.injEq]
  omega

/-- A driver that never fails, and hands over more than `i` answers can, has one more. -/
theorem next_answer {i : Nat} (hbytes : ∀ answer ∈ w.reads, ∃ count, answer = .bytes count)
    (hmore : capacity (w.reads.take i) < capacity w.reads) :
    ∃ count, w.reads[i]? = some (.bytes count) := by
  have hi : i < w.reads.length := by
    by_contra hall
    rw [List.take_of_length_le (Nat.not_lt.mp hall)] at hmore
    exact absurd hmore (Nat.lt_irrefl _)
  obtain ⟨count, hcount⟩ := hbytes _ (List.getElem_mem hi)
  exact ⟨count, by rw [List.getElem?_eq_getElem hi, hcount]⟩

/-- A read whose chunks are cut at the `size`-th byte, which ends it, and which no byte before
ends, returns these bytes. -/
theorem read_returns (timeoutError : Bool) {size : Nat} {ready : Bool} (hsize : 0 < size)
    (hlen : size ≤ len) (hrx : size ≤ (w.rx port).length) (hoff : off + len ≤ n)
    (hwait : w.wait (w.ticks + 1) = .ok ready)
    (hbytes : ∀ answer ∈ w.reads, ∃ count, answer = .bytes count)
    (harrives : size ≤ capacity w.reads)
    (hopen : ∀ i, arrivedBy w port len i < size → LookInTime timeout w (i + 1))
    (hcut : ∀ i, arrivedBy w port len i < size → arrivedBy w port len (i + 1) ≤ size)
    (hquiet : ∀ i, arrivedBy w port len (i + 1) < size →
      ∃ b, lastByte mem off (w.rx port) (arrivedBy w port len (i + 1)) = some b ∧
        terminates term b = false)
    (hstop : size = len ∨
      ∃ b, lastByte mem off (w.rx port) size = some b ∧ terminates term b = true) :
    ∃ mem' w', uartReadBlockError port mem off len timeout term timeoutError w =
        (.ok (size, mem'), w') ∧
      store mem off ((w.rx port).take size) = some mem' ∧
      w'.rx port = (w.rx port).drop size := by
  rcases hrun : uartReadBlockError port mem off len timeout term timeoutError w with ⟨r, w'⟩
  obtain ⟨i, hends⟩ := (uartReadBlockError_passes hoff (by omega) hwait).elim hrun
  have hbefore : ∀ j ≤ i, arrivedBy w port len j < size := by
    intro j hj
    induction j with
    | zero =>
      rw [arrivedBy_zero]
      exact hsize
    | succ j ih =>
      have hgo := hends.goesOn j hj
      refine Nat.lt_of_le_of_ne (hcut j (ih (by omega))) fun hat => ?_
      rcases hstop with hfull | ⟨b, hb, hends'⟩
      · exact Nat.ne_of_lt hgo.short (hat.trans hfull)
      · rw [← hat] at hb
        exact absurd hends' (by rw [hgo.quiet_at hb]; exact Bool.false_ne_true)
  have hlook := hopen i (hbefore i (Nat.le_refl i))
  obtain ⟨count, hanswer⟩ := next_answer (i := i) hbytes (by
    have hlast := hbefore i (Nat.le_refl i)
    unfold arrivedBy at hlast
    omega)
  have hbyte : ∃ b, lastByte mem off (w.rx port) (arrivedBy w port len (i + 1)) = some b := by
    by_cases hlt : arrivedBy w port len (i + 1) < size
    · obtain ⟨b, hb, -⟩ := hquiet i hlt
      exact ⟨b, hb⟩
    · exact exists_lastByte mem off (by omega) (arrivedBy_le_length w port len (i + 1))
  rcases hends.ends.of_bytes hlook hanswer with ⟨-, hnone⟩ | ⟨mem', rfl, hdone, hmem, hrx'⟩
  · obtain ⟨b, hb⟩ := hbyte
    rw [hnone] at hb
    cases hb
  · have hat : arrivedBy w port len (i + 1) = size := by
      by_contra hne
      have hlt := Nat.lt_of_le_of_ne (hcut i (hbefore i (Nat.le_refl i))) hne
      obtain ⟨b, hb, hno⟩ := hquiet i hlt
      rcases hdone with hfull | ⟨b', hb', hends'⟩
      · omega
      · rw [hb'] at hb
        cases hb
        rw [hends'] at hno
        cases hno
    rw [hat] at hmem hrx'
    exact ⟨mem', w', by rw [hat], hmem, hrx'⟩

end Nuhal.Link

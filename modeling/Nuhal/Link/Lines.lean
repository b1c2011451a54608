import Nuhal.Link.Passes

/-!
# Reads up to a terminator (`nuhal_all/src/uart.c:8-81`)

The loop tests for a terminator once a pass, on the last byte it has, whatever the driver handed
over in that pass. So a terminator in the middle of a chunk is not seen; and a pass that got
nothing when nothing had come before looks at `data[-1]`, a byte that was not received. The
wrapper `uart_read_block` passes `timeout_error = false`, so that it comes back with what it has
when the deadline passes.

* `Line`: the shortest part of a stream, from its beginning, that ends a read.
* **`read_line_iff`**: the read returns the line exactly when no chunk goes beyond its end.
* **`terminator_received_iff`**: the terminator test looks only at received bytes exactly when the
  first pass does not come to it without a byte.
* **`read_finished_iff`**: `uart_read_block` returns only when it has finished exactly when the
  deadline is not found passed.
-/

namespace Nuhal.Link

open Nuhal.Lib Nuhal.All

variable {n port off len : Nat} {mem : Vector UInt8 n} {timeout : UInt32} {term : UartTerm}
  {timeoutError : Bool} {w w' : World} {stream line : List UInt8}

/-! ## Lines -/

/-- What ends a read of `len` bytes: that many bytes, or a terminator behind them. -/
def Complete (term : UartTerm) (len : Nat) (bytes : List UInt8) : Prop :=
  bytes.length = len ∨ bytes.getLast?.any (terminates term) = true

instance (term : UartTerm) (len : Nat) (bytes : List UInt8) :
    Decidable (Complete term len bytes) :=
  inferInstanceAs (Decidable (_ ∨ _))

/-- `line` is the shortest part of the stream, from its beginning, that ends a read. -/
structure Line (term : UartTerm) (len : Nat) (stream line : List UInt8) : Prop where
  front : line <+: stream
  complete : Complete term len line
  shortest : ∀ other, other <+: stream → Complete term len other → line.length ≤ other.length

theorem getLast?_take {k : Nat} (h0 : 0 < k) (hk : k ≤ stream.length) :
    (stream.take k).getLast? = stream[k - 1]? := by
  rw [List.getLast?_eq_getElem?, List.length_take_of_le hk, List.getElem?_take, if_pos (by omega)]

theorem complete_take {k : Nat} (hk : k ≤ stream.length) :
    Complete term len (stream.take k) ↔
      k = len ∨ 0 < k ∧ ∃ b, stream[k - 1]? = some b ∧ terminates term b = true := by
  unfold Complete
  rw [List.length_take, Nat.min_eq_left hk, Option.any_eq_true]
  refine or_congr_right ⟨fun h => ?_, fun ⟨h0, b, hb, hends⟩ =>
    ⟨b, (getLast?_take h0 hk).trans hb, hends⟩⟩
  obtain ⟨b, hb, hends⟩ := h
  have h0 : 0 < k := Nat.pos_of_ne_zero fun h => by simp [h] at hb
  exact ⟨h0, b, (getLast?_take h0 hk).symm.trans hb, hends⟩

theorem line_take {k : Nat} (hk : k ≤ stream.length) (hcomplete : Complete term len (stream.take k))
    (hquiet : ∀ j < k, ¬ Complete term len (stream.take j)) :
    Line term len stream (stream.take k) := by
  refine ⟨List.take_prefix _ _, hcomplete, fun other hfront hother => ?_⟩
  rw [List.length_take, Nat.min_eq_left hk]
  by_contra hlt
  refine hquiet other.length (Nat.not_le.mp hlt) ?_
  rwa [← List.prefix_iff_eq_take.mp hfront]

theorem Line.length_le (h : Line term len stream line) : line.length ≤ stream.length :=
  h.front.length_le

theorem Line.take_eq (h : Line term len stream line) : stream.take line.length = line :=
  (List.prefix_iff_eq_take.mp h.front).symm

theorem Line.pos (h : Line term len stream line) (hlen : 0 < len) : 0 < line.length := by
  rcases h.complete with hfull | hends
  · omega
  · exact List.length_pos_iff.mpr fun hnil => by simp [hnil] at hends

theorem Line.le_len (h : Line term len stream line) : line.length ≤ len := by
  by_cases hle : len ≤ stream.length
  · have hfull := h.shortest (stream.take len) (List.take_prefix _ _)
      ((complete_take hle).mpr (.inl rfl))
    rwa [List.length_take, Nat.min_eq_left hle] at hfull
  · have hline := h.length_le
    omega

/-- Nothing before the end of the line ends a read. -/
theorem Line.quiet {k : Nat} {b : UInt8} (h : Line term len stream line) (h0 : 0 < k)
    (hk : k < line.length) (hb : stream[k - 1]? = some b) : terminates term b = false := by
  have hle := h.length_le
  cases hends : terminates term b with
  | false => rfl
  | true =>
    have hcomplete : Complete term len (stream.take k) :=
      (complete_take (by omega)).mpr (.inr ⟨h0, b, hb, hends⟩)
    have hshortest := h.shortest (stream.take k) (List.take_prefix _ _) hcomplete
    rw [List.length_take, Nat.min_eq_left (by omega)] at hshortest
    omega

/-- The end of the line does. -/
theorem Line.ends (h : Line term len stream line) :
    line.length = len ∨ ∃ b, lastByte mem off stream line.length = some b ∧
      terminates term b = true := by
  have hcomplete := h.complete
  rw [← h.take_eq, complete_take h.length_le] at hcomplete
  refine hcomplete.imp_right fun ⟨h0, b, hb, hends⟩ => ⟨b, ?_, hends⟩
  rw [lastByte, if_neg (Nat.ne_of_gt h0), hb]

/-! ## Chunks -/

/-- The read returns the line, has it in the buffer and leaves the rest on the port. -/
def ReturnsLine (port : Nat) (mem : Vector UInt8 n) (off len : Nat) (timeout : UInt32)
    (term : UartTerm) (timeoutError : Bool) (w : World) (line : List UInt8) : Prop :=
  ∃ mem' w', uartReadBlockError port mem off len timeout term timeoutError w =
      (.ok (line.length, mem'), w') ∧
    store mem off line = some mem' ∧ w'.rx port = (w.rx port).drop line.length

/-- `data[-1]` is not a terminator, if the block has it. -/
def FrontQuiet (mem : Vector UInt8 n) (off : Nat) (term : UartTerm) : Prop :=
  ∀ b, storedLast mem off 0 = some b → terminates term b = false

/-- The chunks that the read gets end where the line ends: none goes beyond it. If the first one is
empty then there is a byte in front of the buffer, and it is not a terminator. -/
structure CutAtLine (port : Nat) (mem : Vector UInt8 n) (off len : Nat) (term : UartTerm)
    (w : World) (line : List UInt8) : Prop where
  chunks : ∀ i, arrivedBy w port len i < line.length → arrivedBy w port len (i + 1) ≤ line.length
  first : w.reads.head? = some (.bytes 0) →
    (storedLast mem off 0).isSome ∧ FrontQuiet mem off term

/-- The terminator test before the end of the line finds nothing. -/
theorem quiet_before {i count : Nat} (hlen : 0 < len) (hline : Line term len (w.rx port) line)
    (hfirst : w.reads.head? = some (.bytes 0) →
      (storedLast mem off 0).isSome ∧ FrontQuiet mem off term)
    (hanswer : w.reads[0]? = some (.bytes count))
    (hbefore : arrivedBy w port len (i + 1) < line.length) :
    ∃ b, lastByte mem off (w.rx port) (arrivedBy w port len (i + 1)) = some b ∧
      terminates term b = false := by
  have hin := hline.length_le
  have hpos := hline.pos hlen
  by_cases h0 : arrivedBy w port len (i + 1) = 0
  · have hone := arrivedBy_mono w port len (show 1 ≤ i + 1 by omega)
    have hempty :=
      (head?_of_arrivedBy_one hlen (Nat.lt_of_lt_of_le hpos hin) hanswer).mp (by omega)
    obtain ⟨hsome, hquiet⟩ := hfirst hempty
    obtain ⟨b, hb⟩ := Option.isSome_iff_exists.mp hsome
    rw [lastByte, if_pos h0]
    exact ⟨b, hb, hquiet b hb⟩
  · obtain ⟨b, hb⟩ := exists_lastByte mem off (Nat.pos_of_ne_zero h0)
      (arrivedBy_le_length w port len (i + 1))
    refine ⟨b, hb, hline.quiet (Nat.pos_of_ne_zero h0) hbefore ?_⟩
    rwa [lastByte, if_neg h0] at hb

/-- Chunks that are cut at the end of the line give the line. -/
theorem returnsLine_of_cut {ready : Bool} (hlen : 0 < len) (hoff : off + len ≤ n)
    (hwait : w.wait (w.ticks + 1) = .ok ready)
    (hbytes : ∀ answer ∈ w.reads, ∃ count, answer = .bytes count)
    (hline : Line term len (w.rx port) line) (harrives : line.length ≤ capacity w.reads)
    (hopen : ∀ i, arrivedBy w port len i < line.length → LookInTime timeout w (i + 1))
    (hcut : CutAtLine port mem off len term w line) :
    ReturnsLine port mem off len timeout term timeoutError w line := by
  have hpos := hline.pos hlen
  obtain ⟨count, hanswer⟩ := next_answer (i := 0) hbytes (Nat.lt_of_lt_of_le hpos harrives)
  have hread := read_returns timeoutError hpos hline.le_len hline.length_le hoff hwait hbytes
    harrives hopen hcut.chunks (fun i hi => quiet_before hlen hline hcut.first hanswer hi)
    hline.ends
  rw [hline.take_eq] at hread
  exact hread

/-- A read that came to the end of the line was cut there. -/
theorem cut_of_arrived (timeout : UInt32) {i count : Nat} (hlen : 0 < len) (hterm : term ≠ .none)
    (hline : Line term len (w.rx port) line) (hanswer : w.reads[0]? = some (.bytes count))
    (hat : arrivedBy w port len i = line.length)
    (hgo : 0 < arrivedBy w port len 1 ∨ GoesOn port mem off len timeout term w 0) :
    CutAtLine port mem off len term w line := by
  have hpos := hline.pos hlen
  have hin := hline.length_le
  refine ⟨fun j hj => ?_, fun hempty => ?_⟩
  · by_cases hij : i ≤ j
    · have hmono := arrivedBy_mono w port len hij
      omega
    · rw [← hat]
      exact arrivedBy_mono w port len (by omega)
  · have hnone := (head?_of_arrivedBy_one hlen (Nat.lt_of_lt_of_le hpos hin) hanswer).mpr hempty
    have hquiet := (hgo.resolve_left (by omega)).quiet hterm
    rw [Nat.zero_add, hnone, lastByte, if_pos rfl] at hquiet
    obtain ⟨b, hb, hno⟩ := hquiet
    refine ⟨by rw [hb]; rfl, fun b' hb' => ?_⟩
    cases hb.symm.trans hb'
    exact hno

/-- **A read up to a terminator returns the line exactly when the chunks are cut at its end**, for
every stream, every way to cut it and every deadline that does not pass before the line is
there. -/
theorem read_line_iff {ready : Bool} (hterm : term ≠ .none) (hlen : 0 < len) (hoff : off + len ≤ n)
    (hwait : w.wait (w.ticks + 1) = .ok ready)
    (hbytes : ∀ answer ∈ w.reads, ∃ count, answer = .bytes count)
    (hline : Line term len (w.rx port) line) (harrives : line.length ≤ capacity w.reads)
    (hopen : ∀ i, arrivedBy w port len i < line.length → LookInTime timeout w (i + 1)) :
    ReturnsLine port mem off len timeout term timeoutError w line ↔
      CutAtLine port mem off len term w line := by
  refine ⟨?_, returnsLine_of_cut hlen hoff hwait hbytes hline harrives hopen⟩
  rintro ⟨mem', w', hrun, -, -⟩
  obtain ⟨i, hends⟩ := (uartReadBlockError_passes hoff hlen hwait).elim hrun
  have hpos := hline.pos hlen
  obtain ⟨-, -, ⟨hat, -⟩ | ⟨hat, -, hanswer, -⟩⟩ := hends.ends.of_ok
  all_goals cases i with
  | zero => ?_
  | succ i =>
    have hfirst := hends.goesOn 0 (Nat.succ_pos i)
    obtain ⟨count, hanswer₀⟩ := hfirst.answer
    exact cut_of_arrived timeout hlen hterm hline hanswer₀ hat.symm (.inr hfirst)
  · rw [arrivedBy_zero] at hat
    omega
  · obtain ⟨count, hanswer₀⟩ := hanswer
    exact cut_of_arrived timeout hlen hterm hline hanswer₀ hat.symm
      (.inl (by rw [Nat.zero_add] at hat; omega))

/-- A line of two bytes, one byte at a time. -/
theorem read_line_iff_typed : ReturnsLine 0 #v[0, 0, 0, 0] 0 4 0 .lf false
    (scheduled [0x61, 0x0A, 0x62, 0x63] [.bytes 1, .bytes 1] []) [0x61, 0x0A] := by
  have hline : Line .lf 4 [0x61, 0x0A, 0x62, 0x63] [0x61, 0x0A] :=
    line_take (k := 2) (by decide) (by decide) (by decide)
  have hcut : CutAtLine 0 #v[0, 0, 0, 0] 0 4 .lf
      (scheduled [0x61, 0x0A, 0x62, 0x63] [.bytes 1, .bytes 1] []) [0x61, 0x0A] := by
    refine ⟨fun i hi => ?_, fun h => by simp [scheduled] at h⟩
    rcases i with _ | _ | i
    · decide
    · decide
    · simp [arrivedBy, scheduled, capacity] at hi
  exact (read_line_iff (by decide) (by decide) (by decide) rfl (by simp [scheduled]) hline
    (by decide) fun _ _ => .inl rfl).mpr hcut

/-- The same bytes in one burst: the read goes on beyond the line. -/
theorem read_line_burst :
    Line .lf 4 [0x61, 0x0A, 0x62, 0x63] [0x61, 0x0A] ∧
      ¬ ReturnsLine 0 #v[0, 0, 0, 0] 0 4 0 .lf false
        (scheduled [0x61, 0x0A, 0x62, 0x63] [.bytes 4] []) [0x61, 0x0A] := by
  refine ⟨line_take (k := 2) (by decide) (by decide) (by decide), ?_⟩
  rintro ⟨mem', w', hrun, -, -⟩
  have hall : (uartReadBlockError 0 #v[0, 0, 0, 0] 0 4 0 .lf false
      (scheduled [0x61, 0x0A, 0x62, 0x63] [.bytes 4] [])).1 =
        .ok (4, #v[0x61, 0x0A, 0x62, 0x63]) := by decide +kernel
  rw [hrun] at hall
  cases hall

/-! ## The terminator test -/

/-- The terminator test was never made without a byte, and a read that came back early, other than
for the deadline, did so because of the last byte that it received. -/
structure OnlyReceived (port len : Nat) (term : UartTerm) (w : World)
    (r : Except Halt (Nat × Vector UInt8 n)) (w' : World) : Prop where
  tests : Grown (fun e => e ≠ .terminator 0) w w'
  ends : ∀ k mem', r = .ok (k, mem') → k < len → w'.log.getLast? ≠ some .expired →
    ∃ got b, w.rx port = got ++ w'.rx port ∧ got.length = k ∧ got.getLast? = some b ∧
      terminates term b = true

/-- **The terminator test looks only at received bytes exactly when the first pass does not get to
it without one**: whatever the mode, the deadline, the clock, the answers of the driver and the
end of the wait for data are. -/
theorem terminator_received_iff (port : Nat) (mem : Vector UInt8 n) (off len : Nat)
    (timeout : UInt32) (term : UartTerm) (timeoutError : Bool) (w : World) (hlen : 0 < len)
    (hoff : off + len ≤ n) :
    (uartReadBlockError port mem off len timeout term timeoutError).Ends w
        (OnlyReceived port len term w) ↔
      ¬ ((∃ ready, w.wait (w.ticks + 1) = .ok ready) ∧ FirstEmpty port len timeout term w) := by
  cases hwait : w.wait (w.ticks + 1) with
  | error msg =>
    refine iff_of_true ?_ (by simp)
    refine Run.ends_of_eq (uartReadBlockError_wait (Nat.ne_of_gt hlen) hwait) ⟨?_, nofun⟩
    exact ⟨[.ask len, .failed], by simp [asked, World.logged], by simp⟩
  | ok ready =>
    rcases hrun : uartReadBlockError port mem off len timeout term timeoutError w with ⟨r, w'⟩
    obtain ⟨i, hends⟩ := (uartReadBlockError_passes hoff hlen hwait).elim hrun
    have hready : ∃ ready', Except.ok (ε := String) ready = .ok ready' := ⟨ready, rfl⟩
    obtain ⟨new, hnew, htest⟩ := hends.tested
    rw [and_iff_right hready, ← htest]
    refine ⟨fun h hfirst => ?_, fun hfirst => Run.ends_of_eq hrun
      ⟨⟨new, hnew, fun e he h0 => hfirst (h0 ▸ he)⟩, ?_⟩⟩
    · obtain ⟨new', hnew', honly⟩ := (h.elim hrun).tests
      rw [hnew] at hnew'
      exact honly _ (List.append_cancel_left hnew' ▸ hfirst) rfl
    · rintro k mem' rfl hk hlog
      obtain ⟨-, hrx, ⟨-, -, -, hexpired⟩ | ⟨hat, hlook, ⟨count, hanswer⟩, hdone⟩⟩ :=
        hends.ends.of_ok
      · exact absurd hexpired hlog
      · obtain ⟨b, hb, hb'⟩ := hdone.resolve_left (Nat.ne_of_lt hk)
        have hterm := ne_none_of_terminates hb'
        have hpos : 0 < k := Nat.pos_of_ne_zero fun h0 =>
          hfirst (htest.mpr (firstEmpty_of hends.goesOn hterm hlook hanswer (hat.symm.trans h0)))
        have hin : k ≤ (w.rx port).length := hat ▸ arrivedBy_le_length w port len (i + 1)
        refine ⟨(w.rx port).take k, b, by rw [hrx, List.take_append_drop],
          List.length_take_of_le hin, ?_, hb'⟩
        rw [getLast?_take hpos hin]
        rwa [lastByte, if_neg (Nat.ne_of_gt hpos)] at hb

/-- A read of one byte, which comes. -/
theorem terminator_received_iff_byte :
    (uartReadBlockError 0 #v[0] 0 1 0 .lf false).Ends (scheduled [0x0A] [.bytes 1] [])
      (OnlyReceived 0 1 .lf (scheduled [0x0A] [.bytes 1] [])) := by
  refine (terminator_received_iff 0 #v[0] 0 1 0 .lf false (scheduled [0x0A] [.bytes 1] [])
    (by decide) (by decide)).mpr ?_
  rintro ⟨-, hfirst⟩
  exact absurd hfirst.nothing (by decide)

/-- The driver has nothing at first, and the byte in front of the buffer is a line feed: the read
ends without a byte. -/
theorem terminator_not_received :
    ¬ (uartReadBlockError 0 #v[0x0A, 0] 1 1 0 .lf false).Ends
      (scheduled [0x61] [.bytes 0, .bytes 1] [])
      (OnlyReceived 0 1 .lf (scheduled [0x61] [.bytes 0, .bytes 1] [])) := by
  intro h
  have hlog : Event.terminator 0 ∈ (uartReadBlockError 0 #v[0x0A, 0] 1 1 0 .lf false
      (scheduled [0x61] [.bytes 0, .bytes 1] [])).2.log := by decide +kernel
  exact h.tests.all rfl _ hlog rfl

/-! ## Coming back -/

/-- The `k` bytes that a read returned are what it took off the port and put into the buffer, and
they are all that were asked for or end in a terminator. -/
def Finished (port : Nat) (mem : Vector UInt8 n) (off len : Nat) (term : UartTerm) (w : World)
    (k : Nat) (mem' : Vector UInt8 n) (w' : World) : Prop :=
  ∃ got, w.rx port = got ++ w'.rx port ∧ got.length = k ∧ store mem off got = some mem' ∧
    Complete term len got

/-- Every pass that the loop gets to finds the deadline open; and if the first one gets nothing,
there is no terminator in front of the buffer. -/
structure StaysInTime (port : Nat) (mem : Vector UInt8 n) (off len : Nat) (timeout : UInt32)
    (term : UartTerm) (w : World) : Prop where
  looks : ∀ i, (∀ j < i, GoesOn port mem off len timeout term w j) →
    LookInTime timeout w (i + 1)
  first : FirstEmpty port len timeout term w → FrontQuiet mem off term

/-- What a read has while it goes on is not complete. -/
theorem not_complete_of_goesOn {i : Nat} (hlen : 0 < len)
    (hgo : ∀ j < i, GoesOn port mem off len timeout term w j) :
    ¬ Complete term len ((w.rx port).take (arrivedBy w port len i)) := by
  have hin := arrivedBy_le_length w port len i
  rw [complete_take hin]
  cases i with
  | zero =>
    rw [arrivedBy_zero]
    omega
  | succ i =>
    have hlast := hgo i (Nat.lt_succ_self i)
    rintro (hfull | ⟨h0, b, hb, hends⟩)
    · exact Nat.ne_of_lt hlast.short hfull
    · have hquiet := hlast.quiet_at (b := b) (by rw [lastByte, if_neg (Nat.ne_of_gt h0), hb])
      exact absurd hends (by rw [hquiet]; exact Bool.false_ne_true)

/-- A read that gets to a pass which finds the deadline passed comes back unfinished. -/
theorem late_unfinished {i : Nat} {r : Except Halt (Nat × Vector UInt8 n)} (hlen : 0 < len)
    (h : EndsAt port mem off len timeout term false w i r w')
    (hlate : ¬ LookInTime timeout w (i + 1)) :
    ∃ k mem', r = .ok (k, mem') ∧ ¬ Finished port mem off len term w k mem' w' := by
  cases h.ends with
  | late mem' =>
    refine ⟨_, mem', rfl, ?_⟩
    rintro ⟨got, hrx, hk, -, hcomplete⟩
    refine not_complete_of_goesOn hlen h.goesOn ?_
    rwa [hrx, List.take_left' hk]
  | timedOut _ herror => cases herror
  | waiting hlook => exact absurd hlook hlate
  | failed _ hlook => exact absurd hlook hlate
  | complete _ _ hlook => exact absurd hlook hlate
  | outside _ _ hlook => exact absurd hlook hlate

/-- A read that takes the byte in front of the buffer for a terminator comes back with nothing. -/
theorem front_unfinished {b : UInt8} {r : Except Halt (Nat × Vector UInt8 n)} (hlen : 0 < len)
    (h : EndsAt port mem off len timeout term false w 0 r w')
    (hfirst : FirstEmpty port len timeout term w) (hb : storedLast mem off 0 = some b) :
    ∃ k mem', r = .ok (k, mem') ∧ ¬ Finished port mem off len term w k mem' w' := by
  obtain ⟨count, hanswer⟩ := hfirst.answer
  have hnothing := hfirst.nothing
  rcases h.ends.of_bytes hfirst.look hanswer with ⟨-, hnone⟩ | ⟨mem', rfl, -⟩
  · rw [Nat.zero_add, hnothing, lastByte, if_pos rfl, hb] at hnone
    cases hnone
  · refine ⟨_, mem', rfl, ?_⟩
    rintro ⟨got, -, hk, -, hcomplete⟩
    rw [Nat.zero_add, hnothing] at hk
    rw [List.length_eq_zero_iff.mp hk] at hcomplete
    rcases hcomplete with hfull | hnone
    · exact Nat.ne_of_lt hlen hfull
    · cases hnone

/-- A read that stays in time comes back finished. -/
theorem finished_of_inTime {i k : Nat} {mem' : Vector UInt8 n}
    (h : EndsAt port mem off len timeout term false w i (.ok (k, mem')) w')
    (htime : StaysInTime port mem off len timeout term w) :
    Finished port mem off len term w k mem' w' := by
  obtain ⟨hmem, hrx, ⟨-, hlate, -⟩ | ⟨hat, hlook, ⟨count, hanswer⟩, hdone⟩⟩ := h.ends.of_ok
  · exact absurd (htime.looks i h.goesOn) hlate
  · have hin : k ≤ (w.rx port).length := hat ▸ arrivedBy_le_length w port len (i + 1)
    refine ⟨(w.rx port).take k, by rw [hrx, List.take_append_drop],
      List.length_take_of_le hin, hmem, (complete_take hin).mpr (hdone.imp_right ?_)⟩
    rintro ⟨b, hb, hends⟩
    by_cases h0 : k = 0
    · have hfirst := firstEmpty_of h.goesOn (ne_none_of_terminates hends) hlook hanswer
        (hat.symm.trans h0)
      rw [lastByte, if_pos h0] at hb
      rw [htime.first hfirst b hb] at hends
      cases hends
    · rw [lastByte, if_neg h0] at hb
      exact ⟨Nat.pos_of_ne_zero h0, b, hb, hends⟩

/-- **`uart_read_block` returns only when it has finished exactly when it stays in time.** -/
theorem read_finished_iff (port : Nat) (mem : Vector UInt8 n) (off len : Nat) (timeout : UInt32)
    (term : UartTerm) (w : World) (hoff : off + len ≤ n) :
    (∀ k mem' w', uartReadBlock port mem off len timeout term w = (.ok (k, mem'), w') →
        Finished port mem off len term w k mem' w') ↔
      len = 0 ∨ (∃ msg, w.wait (w.ticks + 1) = .error msg) ∨
        StaysInTime port mem off len timeout term w := by
  by_cases hlen : len = 0
  · subst hlen
    refine iff_of_true (fun k mem' w' hrun => ?_) (.inl rfl)
    cases hrun.symm.trans (uartReadBlockError_zero w)
    exact ⟨[], rfl, rfl, store_nil hoff, .inl rfl⟩
  rw [or_iff_right hlen]
  cases hwait : w.wait (w.ticks + 1) with
  | error msg =>
    refine iff_of_true (fun k mem' w' hrun => ?_) (.inl ⟨msg, rfl⟩)
    cases hrun.symm.trans (uartReadBlockError_wait hlen hwait)
  | ok ready =>
    have hpos := Nat.pos_of_ne_zero hlen
    rcases hrun : uartReadBlockError port mem off len timeout term false w with ⟨r, w'⟩
    obtain ⟨i, hends⟩ := (uartReadBlockError_passes hoff hpos hwait).elim hrun
    rw [or_iff_right (by rintro ⟨msg, hmsg⟩; cases hmsg)]
    refine ⟨fun hfinished => ⟨fun k hgo => ?_, fun hfirst b hb => ?_⟩, fun htime => ?_⟩
    · by_contra hlate
      obtain rfl := hends.unique hgo fun hgo => hlate hgo.look
      obtain ⟨j, mem', rfl, hno⟩ := late_unfinished hpos hends hlate
      exact hno (hfinished j mem' w' hrun)
    · by_contra hends'
      have hstop : ¬ GoesOn port mem off len timeout term w 0 := fun hgo => by
        refine hends' (hgo.quiet_at ?_)
        rw [Nat.zero_add, hfirst.nothing, lastByte, if_pos rfl, hb]
      obtain rfl := hends.unique (fun _ hj => absurd hj (Nat.not_lt_zero _)) hstop
      obtain ⟨j, mem', rfl, hno⟩ := front_unfinished hpos hends hfirst hb
      exact hno (hfinished j mem' w' hrun)
    · intro k mem' w'' hrun'
      cases hrun.symm.trans hrun'
      exact finished_of_inTime hends htime

/-- Two bytes that come at once, without a deadline. -/
theorem read_finished_iff_burst : ∃ mem' w',
    uartReadBlock 0 #v[0, 0] 0 2 0 .none (scheduled [7, 8] [.bytes 2] []) = (.ok (2, mem'), w') ∧
      Finished 0 #v[0, 0] 0 2 .none (scheduled [7, 8] [.bytes 2] []) 2 mem' w' :=
  ⟨_, _, rfl, (read_finished_iff 0 #v[0, 0] 0 2 0 .none (scheduled [7, 8] [.bytes 2] [])
    (by decide)).mpr (.inr (.inr ⟨fun _ _ => .inl rfl, fun hfirst => absurd rfl hfirst.term⟩))
    2 _ _ rfl⟩

/-- One byte of two comes, then the deadline passes: the call returns 1. -/
theorem read_short :
    ∃ mem' w', uartReadBlock 0 #v[0, 0] 0 2 5 .none (scheduled [7] [.bytes 1] [2]) =
        (.ok (1, mem'), w') ∧
      ¬ Finished 0 #v[0, 0] 0 2 .none (scheduled [7] [.bytes 1] [2]) 1 mem' w' := by
  refine ⟨#v[7, 0], _, rfl, ?_⟩
  rintro ⟨got, -, hlength, -, hfull | hends⟩
  · omega
  · cases hlast : got.getLast? <;> simp [hlast, terminates] at hends

end Nuhal.Link

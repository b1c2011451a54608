import Nuhal.Link.Lines

/-!
# The line that `uart_scanf` parses (`nuhal_all/src/uart.c:140-155`)

`uart_scanf` reads up to 1024 bytes into a buffer of 1024 bytes, looks at the last of them and
hands the buffer to `vsscanf`. The NUL that ends the string is one of the zeros the buffer was set
up with, so that there is one only if fewer than 1024 bytes came. If the 1024th byte ends the line
it passes the test, and nothing ends the string.

When nothing has come yet both the read and the test look at the byte `front` on the stack.

* `ParsesLine`: what reaches `vsscanf` has its NUL; a line that leaves no room for one is an error.
* `LeavesRoom`: no read that gets 1024 bytes has a line end as the last of them.
* **`scanf_parses_iff`**: the first exactly when the second.
-/

namespace Nuhal.Link

open Nuhal.Lib Nuhal.All

variable {port : Nat} {front : UInt8} {w w' : World}

/-- The bytes that end a line. -/
abbrev endsLine : UInt8 → Bool := terminates .crOrLf

/-- The buffer is a string that ends after the bytes that were received; and if the line with its
end takes 1024 bytes or more, and they come, the call is an error. -/
structure ParsesLine (front : UInt8) (port : Nat) (w : World) : Prop where
  nul : ∀ len buffer w', uartScanfLine front port w = (.ok (len, buffer), w') →
    ∃ i, len ≤ i ∧ i < 1024 ∧ buffer[i]? = some 0
  tooLong : (∀ b ∈ (w.rx port).take 1023, endsLine b = false) → 1024 ≤ (w.rx port).length →
    1024 ≤ capacity w.reads →
      ∀ vsscanf, (uartScanf vsscanf front port w).1 = .error (.error "uart_scanf input too long")

/-- The first chunk is empty, and the byte in front of the buffer is taken for the end of the
line. -/
def EndedByFront (front : UInt8) (w : World) : Prop :=
  w.reads.head? = some (.bytes 0) ∧ endsLine front = true

/-- Of the reads that get 1024 bytes: none ends with a line end that comes as the 1024th byte, no
chunk before having ended with one; and none of a line that takes all these bytes is ended by the
byte in front of the buffer. -/
structure LeavesRoom (front : UInt8) (port : Nat) (w : World) : Prop where
  last : 1024 ≤ (w.rx port).length → 1024 ≤ capacity w.reads → ¬ EndedByFront front w →
    (w.rx port)[1023]?.any endsLine = true →
      ∃ i, 0 < arrivedBy w port 1024 i ∧ arrivedBy w port 1024 i < 1024 ∧
        (w.rx port)[arrivedBy w port 1024 i - 1]?.any endsLine = true
  first : 1024 ≤ (w.rx port).length → 1024 ≤ capacity w.reads →
    (∀ b ∈ (w.rx port).take 1023, endsLine b = false) → ¬ EndedByFront front w

/-! ## The buffer -/

theorem toList_scanfBuffer (front : UInt8) :
    (scanfBuffer front).toList = front :: List.replicate 1024 0 := by
  unfold scanfBuffer
  rw [Vector.toList_append, Vector.toList_replicate]
  rfl

/-- What is behind the bytes received is still zero. -/
theorem toList_scanned {got : List UInt8} {mem : Vector UInt8 1025}
    (hmem : store (scanfBuffer front) 1 got = some mem) :
    (mem.drop 1).toList = got ++ List.replicate (1024 - got.length) 0 := by
  obtain ⟨-, hcells⟩ := store_eq_some.mp hmem
  rw [toList_scanfBuffer, Nat.add_comm 1 got.length, List.drop_succ_cons,
    List.drop_replicate] at hcells
  rw [Vector.toList_drop, hcells]
  rfl

theorem nul_behind {got : List UInt8} {mem : Vector UInt8 1025}
    (hmem : store (scanfBuffer front) 1 got = some mem) (hlt : got.length < 1024) :
    (mem.drop 1)[got.length]? = some 0 := by
  rw [← Vector.getElem?_toList, toList_scanned hmem, List.getElem?_append_right (Nat.le_refl _),
    Nat.sub_self, List.getElem?_replicate, if_pos (by omega)]

/-- Before anything has come the test sees the byte in front of the buffer. -/
theorem lastByte_zero (front : UInt8) (stream : List UInt8) :
    lastByte (scanfBuffer front) 1 stream 0 = some front := by
  show (scanfBuffer front)[0]? = some front
  rw [← Vector.getElem?_toList, toList_scanfBuffer]
  rfl

/-! ## The test on the last byte -/

theorem endsLine_iff {b : UInt8} : endsLine b = true ↔ b = 0x0D ∨ b = 0x0A := by
  simp [terminates]

/-- The line after a read of `k` bytes. -/
theorem scanfLine_read {k : Nat} {mem : Vector UInt8 1025} {b : UInt8}
    (hread : uartReadBlock port (scanfBuffer front) 1 1024 0 .crOrLf w = (.ok (k, mem), w'))
    (hmem : store (scanfBuffer front) 1 ((w.rx port).take k) = some mem)
    (hk : k ≤ (w.rx port).length) (hb : lastByte (scanfBuffer front) 1 (w.rx port) k = some b) :
    uartScanfLine front port w = (if endsLine b then .ok (k, mem.drop 1)
      else .error (.error "uart_scanf input too long"), w'.logged (.terminator k)) := by
  have hlast : storedLast mem 1 k = some b := (storedLast_store hmem hk).trans hb
  unfold uartScanfLine
  rw [Run.bind_of_ok hread]
  dsimp only
  rw [Run.bind_of_ok (lastRead_some hlast)]
  by_cases hends : b = 0x0D ∨ b = 0x0A
  · rw [if_neg (fun h => hends.elim h.1 h.2), if_pos (endsLine_iff.mpr hends)]
    rfl
  · rw [if_pos (not_or.mp hends), if_neg (fun h => hends (endsLine_iff.mp h))]
    rfl

/-- A read of 1024 bytes whose chunks before do not end with a line end gets them all. -/
theorem scanfLine_full {ready : Bool} {b : UInt8} (hwait : w.wait (w.ticks + 1) = .ok ready)
    (hbytes : ∀ answer ∈ w.reads, ∃ count, answer = .bytes count)
    (hrx : 1024 ≤ (w.rx port).length) (harrives : 1024 ≤ capacity w.reads)
    (hfirst : ¬ EndedByFront front w)
    (hquiet : ∀ i, 0 < arrivedBy w port 1024 i → arrivedBy w port 1024 i < 1024 →
      (w.rx port)[arrivedBy w port 1024 i - 1]?.any endsLine = false)
    (hb : (w.rx port)[1023]? = some b) :
    ∃ buffer w', uartScanfLine front port w = (if endsLine b then .ok (1024, buffer)
      else .error (.error "uart_scanf input too long"), w') := by
  obtain ⟨count, hanswer⟩ := next_answer (i := 0) hbytes (show 0 < capacity w.reads by omega)
  have hopen : ∀ i, arrivedBy w port 1024 (i + 1) < 1024 →
      ∃ b, lastByte (scanfBuffer front) 1 (w.rx port) (arrivedBy w port 1024 (i + 1)) = some b ∧
        terminates .crOrLf b = false := by
    intro i hi
    by_cases h0 : arrivedBy w port 1024 (i + 1) = 0
    · have hone := arrivedBy_mono w port 1024 (show 1 ≤ i + 1 by omega)
      have hempty := (head?_of_arrivedBy_one (by decide) (by omega) hanswer).mp
        (show arrivedBy w port 1024 1 = 0 by omega)
      rw [h0]
      exact ⟨front, lastByte_zero front _, by simpa using fun hends => hfirst ⟨hempty, hends⟩⟩
    · obtain ⟨b', hb'⟩ := exists_lastByte (scanfBuffer front) 1 (Nat.pos_of_ne_zero h0)
        (arrivedBy_le_length w port 1024 (i + 1))
      refine ⟨b', hb', ?_⟩
      have hno := hquiet (i + 1) (Nat.pos_of_ne_zero h0) hi
      rw [lastByte, if_neg h0] at hb'
      rwa [hb'] at hno
  obtain ⟨mem, w', hread, hmem, -⟩ := read_returns false (by decide) (Nat.le_refl 1024) hrx
    (show 1 + 1024 ≤ 1025 by decide) hwait hbytes harrives (fun _ _ => .inl rfl)
    (fun i _ => arrivedBy_le w port 1024 (i + 1)) hopen (.inl rfl)
  exact ⟨mem.drop 1, _, scanfLine_read hread hmem hrx hb⟩

/-- A line end in front of the buffer, and an empty chunk at first: nothing is read, and nothing is
an error. -/
theorem scanfLine_front {ready : Bool} (hwait : w.wait (w.ticks + 1) = .ok ready)
    (hrx : 0 < (w.rx port).length) (hfirst : EndedByFront front w) :
    ∃ buffer w', uartScanfLine front port w = (.ok (0, buffer), w') := by
  obtain ⟨hempty, hends⟩ := hfirst
  have hanswer : w.reads[0]? = some (.bytes 0) := by rw [← List.head?_eq_getElem?, hempty]
  have hnothing := (head?_of_arrivedBy_one (show 0 < 1024 by decide) hrx hanswer).mpr hempty
  have hfront := lastByte_zero front (w.rx port)
  rcases hrun : uartReadBlock port (scanfBuffer front) 1 1024 0 .crOrLf w with ⟨r, w'⟩
  obtain ⟨i, hat⟩ := (uartReadBlockError_passes (by decide) (by decide) hwait).elim hrun
  have hstop : ¬ GoesOn port (scanfBuffer front) 1 1024 0 .crOrLf w 0 := fun hgo => by
    have hquiet := hgo.quiet_at (b := front) (by rw [Nat.zero_add, hnothing, hfront])
    exact absurd (hquiet.symm.trans hends) Bool.false_ne_true
  obtain rfl := hat.unique (fun _ hj => absurd hj (Nat.not_lt_zero _)) hstop
  rcases hat.ends.of_bytes (.inl rfl) hanswer with ⟨-, hnone⟩ | ⟨mem, rfl, -, hmem, -⟩
  · rw [Nat.zero_add, hnothing, hfront] at hnone
    cases hnone
  · rw [Nat.zero_add, hnothing] at hmem hrun
    have hline := scanfLine_read hrun hmem (Nat.zero_le _) hfront
    rw [if_pos hends] at hline
    exact ⟨_, _, hline⟩

/-! ## The whole call -/

theorem tooLong_of_line (vsscanf : Vector UInt8 1024 → OnPlatform Int) {msg : String}
    (h : uartScanfLine front port w = (.error (.error msg), w')) :
    (uartScanf vsscanf front port w).1 = .error (.error msg) := by
  unfold uartScanf
  rw [Run.bind_of_error h]

theorem any_of_longLine {k : Nat} (hline : ∀ b ∈ (w.rx port).take 1023, endsLine b = false)
    (hk : k < 1023) : (w.rx port)[k]?.any endsLine = false := by
  cases hb : (w.rx port)[k]? with
  | none => rfl
  | some b =>
    refine hline b (List.mem_iff_getElem?.mpr ⟨k, ?_⟩)
    rw [List.getElem?_take, if_pos hk, hb]

/-- What reaches `vsscanf` are bytes that were received, behind which the test has found a line
end. -/
theorem scanfLine_ok {ready : Bool} {k : Nat} {buffer : Vector UInt8 1024}
    (hwait : w.wait (w.ticks + 1) = .ok ready)
    (hrun : uartScanfLine front port w = (.ok (k, buffer), w')) :
    ∃ i mem w₁, uartReadBlock port (scanfBuffer front) 1 1024 0 .crOrLf w = (.ok (k, mem), w₁) ∧
      EndsAt port (scanfBuffer front) 1 1024 0 .crOrLf false w i (.ok (k, mem)) w₁ ∧
      w' = w₁.logged (.terminator k) ∧ buffer = mem.drop 1 ∧ k = arrivedBy w port 1024 (i + 1) ∧
      (lastByte (scanfBuffer front) 1 (w.rx port) k).any endsLine = true ∧
      store (scanfBuffer front) 1 ((w.rx port).take k) = some mem := by
  rcases hread : uartReadBlock port (scanfBuffer front) 1 1024 0 .crOrLf w with ⟨r, w₁⟩
  obtain ⟨i, hends⟩ := (uartReadBlockError_passes (by decide) (by decide) hwait).elim hread
  match r, hread, hends with
  | .error e, hread, _ =>
    unfold uartScanfLine at hrun
    rw [Run.bind_of_error hread] at hrun
    cases hrun
  | .ok (k', mem), hread, hends =>
    obtain ⟨hmem, -, ⟨-, hlate, -⟩ | ⟨hat, -⟩⟩ := hends.ends.of_ok
    · exact absurd (.inl rfl) hlate
    have hin : k' ≤ (w.rx port).length := hat ▸ arrivedBy_le_length w port 1024 (i + 1)
    obtain ⟨b, hb⟩ : ∃ b, lastByte (scanfBuffer front) 1 (w.rx port) k' = some b := by
      by_cases h0 : k' = 0
      · exact ⟨front, h0 ▸ lastByte_zero front _⟩
      · exact exists_lastByte _ _ (Nat.pos_of_ne_zero h0) hin
    rw [scanfLine_read hread hmem hin hb] at hrun
    by_cases hline : endsLine b = true
    · rw [if_pos hline] at hrun
      cases hrun
      exact ⟨i, mem, w₁, rfl, hends, rfl, rfl, hat, by rw [hb]; exact hline, hmem⟩
    · rw [if_neg hline] at hrun
      cases hrun

/-- A call that hands 1024 bytes to `vsscanf` got a line end as the last of them, and no chunk
before ended with one. -/
theorem full_of_scanf {ready : Bool} {buffer : Vector UInt8 1024}
    (hwait : w.wait (w.ticks + 1) = .ok ready)
    (hrun : uartScanfLine front port w = (.ok (1024, buffer), w')) :
    1024 ≤ (w.rx port).length ∧ 1024 ≤ capacity w.reads ∧ ¬ EndedByFront front w ∧
      (w.rx port)[1023]?.any endsLine = true ∧
      ∀ j, 0 < arrivedBy w port 1024 j → arrivedBy w port 1024 j < 1024 →
        (w.rx port)[arrivedBy w port 1024 j - 1]?.any endsLine = false := by
  obtain ⟨i, mem, w₁, -, hends, -, -, hat, hlast, -⟩ := scanfLine_ok hwait hrun
  have hcap := capacity_take_le_capacity w.reads (i + 1)
  have hall : 1024 ≤ (w.rx port).length ∧ 1024 ≤ capacity w.reads := by
    unfold arrivedBy at hat
    omega
  refine ⟨hall.1, hall.2, fun ⟨hempty, hfront⟩ => ?_, hlast, fun j h0 hj => ?_⟩
  · have hanswer : w.reads[0]? = some (.bytes 0) := by rw [← List.head?_eq_getElem?, hempty]
    have hnothing := (head?_of_arrivedBy_one (show 0 < 1024 by decide)
      (show 0 < (w.rx port).length by omega) hanswer).mpr hempty
    have hi : 0 < i := Nat.pos_of_ne_zero fun h0 => by
      rw [h0, Nat.zero_add, hnothing] at hat
      cases hat
    have hquiet := (hends.goesOn 0 hi).quiet_at (b := front)
      (by rw [Nat.zero_add, hnothing, lastByte_zero])
    exact absurd (hquiet.symm.trans hfront) Bool.false_ne_true
  · have hji : j < i + 1 := by
      by_contra hge
      have hmono := arrivedBy_mono w port 1024 (Nat.not_lt.mp hge)
      omega
    cases j with
    | zero =>
      rw [arrivedBy_zero] at h0
      cases h0
    | succ j =>
      obtain ⟨b, hb, hquiet⟩ := (hends.goesOn j (by omega)).quiet nofun
      rw [lastByte, if_neg (Nat.ne_of_gt h0)] at hb
      rw [hb]
      exact hquiet

/-- **What `uart_scanf` parses is a terminated line, and a line that is too long is an error,
exactly when it leaves room**, for every stream, every way to cut it and every byte in front of the
buffer. -/
theorem scanf_parses_iff {ready : Bool} (front : UInt8) (port : Nat) (w : World)
    (hwait : w.wait (w.ticks + 1) = .ok ready)
    (hbytes : ∀ answer ∈ w.reads, ∃ count, answer = .bytes count) :
    ParsesLine front port w ↔ LeavesRoom front port w := by
  refine ⟨fun h => ⟨fun hrx harrives hfirst hlast => ?_, fun hrx harrives hline hfirst => ?_⟩,
    fun h => ⟨fun len buffer w' hrun => ?_, fun hline hrx harrives vsscanf => ?_⟩⟩
  · by_contra hno
    obtain ⟨b, hb, hends⟩ := (Option.any_eq_true _ _).mp hlast
    obtain ⟨buffer, w', hrun⟩ := scanfLine_full hwait hbytes hrx harrives hfirst
      (fun i h0 hi => by simpa using fun hi' => hno ⟨i, h0, hi, hi'⟩) hb
    rw [if_pos hends] at hrun
    obtain ⟨i, hle, hlt, -⟩ := h.nul _ _ _ hrun
    omega
  · obtain ⟨buffer, w', hrun⟩ := scanfLine_front hwait (show 0 < (w.rx port).length by omega) hfirst
    have herror := h.tooLong hline hrx harrives fun _ => pure 0
    unfold uartScanf at herror
    rw [Run.bind_of_ok hrun] at herror
    cases herror
  · obtain ⟨i, mem, w₁, -, -, -, rfl, hat, -, hmem⟩ := scanfLine_ok hwait hrun
    have hle := hat ▸ arrivedBy_le w port 1024 (i + 1)
    have hlength := List.length_take_of_le (hat ▸ arrivedBy_le_length w port 1024 (i + 1))
    rcases Nat.lt_or_eq_of_le hle with hlt | rfl
    · have hnul := nul_behind hmem (by rw [hlength]; exact hlt)
      rw [hlength] at hnul
      exact ⟨len, Nat.le_refl len, hlt, hnul⟩
    · obtain ⟨hrx, harrives, hfirst, hlast, hquiet⟩ := full_of_scanf hwait hrun
      obtain ⟨j, h0, hj, hj'⟩ := h.last hrx harrives hfirst hlast
      rw [hquiet j h0 hj] at hj'
      cases hj'
  · have hfirst := h.first hrx harrives hline
    obtain ⟨b, hb⟩ : ∃ b, (w.rx port)[1023]? = some b := ⟨_, List.getElem?_eq_getElem hrx⟩
    obtain ⟨buffer, w', hrun⟩ := scanfLine_full hwait hbytes hrx harrives hfirst
      (fun i h0 hi => any_of_longLine hline (by omega)) hb
    have hno : ¬ endsLine b = true := fun hends => by
      obtain ⟨i, h0, hi, hi'⟩ := h.last hrx harrives hfirst (by rw [hb]; exact hends)
      rw [any_of_longLine hline (by omega)] at hi'
      cases hi'
    rw [if_neg hno] at hrun
    exact tooLong_of_line vsscanf hrun

/-- A short line. -/
theorem scanf_parses_iff_short : ParsesLine 0x00 0 (scheduled [0x61, 0x0A] [.bytes 2] []) :=
  (scanf_parses_iff 0x00 0 (scheduled [0x61, 0x0A] [.bytes 2] []) rfl (by simp [scheduled])).mpr
    ⟨fun h => absurd h (by decide), fun h => absurd h (by decide)⟩

/-- A line of 1023 characters: with its line feed it fills the buffer. -/
def fullLine : World := scheduled (List.replicate 1023 0x61 ++ [0x0A]) [.bytes 1024] []

theorem fullLine_reads : fullLine.reads = [.bytes 1024] := rfl

theorem fullLine_rx : fullLine.rx 0 = List.replicate 1023 0x61 ++ [0x0A] := by
  simp only [fullLine, scheduled]

theorem fullLine_length : (fullLine.rx 0).length = 1024 := by
  rw [fullLine_rx, List.length_append, List.length_replicate, List.length_singleton]

theorem fullLine_last : (fullLine.rx 0)[1023]? = some 0x0A := by
  rw [fullLine_rx, List.getElem?_append_right (Nat.le_of_eq List.length_replicate),
    List.length_replicate]
  rfl

theorem arrivedBy_fullLine (i : Nat) :
    arrivedBy fullLine 0 1024 i = 0 ∨ arrivedBy fullLine 0 1024 i = 1024 := by
  cases i with
  | zero => exact .inl (arrivedBy_zero _ _ _)
  | succ i => exact .inr (by simp [arrivedBy, fullLine_reads, fullLine_length, capacity])

/-- It is parsed, and nothing ends it. -/
theorem scanf_full_line : ¬ ParsesLine 0x00 0 fullLine := by
  intro h
  have hbytes : ∀ answer ∈ fullLine.reads, ∃ count, answer = .bytes count := by
    simp [fullLine_reads]
  obtain ⟨buffer, w', hrun⟩ := scanfLine_full rfl hbytes (Nat.le_of_eq fullLine_length.symm)
    (by simp [fullLine_reads, capacity]) (fun h => by simpa [fullLine_reads] using h.1)
    (fun i h0 hi => by rcases arrivedBy_fullLine i with h | h <;> omega) fullLine_last
  rw [if_pos (by decide)] at hrun
  obtain ⟨i, hle, hlt, -⟩ := h.nul _ _ _ hrun
  omega

end Nuhal.Link

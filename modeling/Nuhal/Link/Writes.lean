import Nuhal.Link.Looks

/-!
# What a blocking write does (`nuhal_all/src/uart.c:83-101`)

`Sent port sent w w'` says that between two worlds exactly the bytes `sent` went to the
transmitter of `port` and nothing was read. **`uartWriteBlock_writes`**: a blocking write hands
over its bytes from the front, whatever the driver accepts at a time, and returns only when it has
handed over all of them. `WriteEnds` lists the ways it ends. `uartWriteBlock_at_once` is the write
whose driver takes everything in its first answer.
-/

namespace Nuhal.Link

open Nuhal.Lib Nuhal.All

/-- Between `w` and `w'` the bytes `sent` were given to the transmitter of `port` and nothing was
read. -/
structure Sent (port : Nat) (sent : List UInt8) (w w' : World) : Prop where
  tx : w'.tx = Function.update w.tx port (w.tx port ++ sent)
  rx : w'.rx = w.rx
  reads : w'.reads = w.reads
  log : Grown (fun _ => True) w w'

theorem Sent.refl (port : Nat) (w : World) : Sent port [] w w :=
  ⟨by rw [List.append_nil, Function.update_eq_self], rfl, rfl, Grown.refl w⟩

theorem Sent.trans {port : Nat} {xs ys : List UInt8} {w w₁ w₂ : World}
    (h₁ : Sent port xs w w₁) (h₂ : Sent port ys w₁ w₂) : Sent port (xs ++ ys) w w₂ := by
  refine ⟨?_, ?_, ?_, h₁.log.trans h₂.log⟩
  · rw [h₂.tx, h₁.tx, Function.update_self, Function.update_idem, List.append_assoc]
  · rw [h₂.rx, h₁.rx]
  · rw [h₂.reads, h₁.reads]

/-- How a blocking write of `data` ends when it handed over the bytes `sent`. -/
def WriteEnds (data sent : List UInt8) (w' : World) : Except Halt Nat → Prop
  | .ok k => k = data.length ∧ sent = data
  | .error .undefined => False
  | .error .pending => (data ≠ [] → sent.length < data.length) ∧ w'.writes = []
  | .error (.error _) => .failed ∈ w'.log ∨ .expired ∈ w'.log

/-- What a blocking write does: the bytes it hands over, and how it ends. -/
structure Writes (port : Nat) (data sent : List UInt8) (w : World) (r : Except Halt Nat)
    (w' : World) : Prop where
  given : Sent port sent w w'
  pre : sent <+: data
  ends : WriteEnds data sent w' r
  moves : data ≠ [] → productive w.writes ≤ productive w'.writes + sent.length

/-- The state of the write loop after it handed over `sent`. -/
structure WrittenSoFar (port : Nat) (data sent : List UInt8) (w : World) (st : Writing)
    (w' : World) : Prop where
  given : Sent port sent w w'
  written : st.written = sent.length
  pre : sent <+: data
  lt : data ≠ [] → sent.length < data.length
  moves : data ≠ [] → productive w.writes ≤ productive w'.writes + sent.length

/-- The invariant and the postcondition of the write loop. -/
abbrev WritePass (port : Nat) (data : List UInt8) (w : World) :
    Nat → Except Halt (Writing ⊕ Nat) → World → Prop :=
  Run.Pass (fun st w' => ∃ sent, WrittenSoFar port data sent w st w')
    (fun w' => w'.writes.length) (fun r w' => ∃ sent, Writes port data sent w r w')

variable {port : Nat} {data : List UInt8} {timeout : UInt32}

/-- What a pass makes of the driver's result. -/
def handed (data : List UInt8) (stamp : TimeElapsed) (st : Writing) :
    Except Halt Nat → Except Halt (Writing ⊕ Nat)
  | .ok k =>
    if st.written + k = data.length then .ok (.inr (st.written + k))
    else .ok (.inl { stamp, written := st.written + k })
  | .error e => .error e

theorem writePass_open (st : Writing) {stamp : TimeElapsed} {w w₁ w₂ : World}
    {r : Except Halt Nat} (hopen : deadlineOpen timeout st.stamp w = (.ok (true, stamp), w₁))
    (hpoll : uartWriteNonblock port (data.drop st.written) w₁ = (r, w₂)) :
    writePass port data timeout st w = (handed data stamp st r, w₂) := by
  unfold writePass
  rw [Run.bind_of_ok hopen]
  simp only [if_true]
  match r, hpoll with
  | .error e, hpoll => exact Run.bind_of_error hpoll _
  | .ok k, hpoll =>
    rw [Run.bind_of_ok hpoll]
    unfold handed
    by_cases hfull : st.written + k = data.length
    · simp only [if_pos hfull]
      rfl
    · simp only [if_neg hfull]
      rfl

/-- One call of the driver: what it accepts is the next bytes, and some of them if it accepts
any. -/
theorem uartWriteNonblock_sent {w : World} {count : Nat} {rest : List Answer} (port : Nat)
    (data : List UInt8) (h : w.writes = .bytes count :: rest) :
    ∃ w', uartWriteNonblock port data w = (.ok (data.take count).length, w') ∧
      Sent port (data.take count) w w' ∧ w'.writes = rest := by
  unfold uartWriteNonblock
  simp only [h]
  exact ⟨_, rfl, ⟨rfl, rfl, rfl, Grown.refl w⟩, rfl⟩

theorem uartWriteNonblock_pending {w : World} (data : List UInt8) (h : w.writes = []) :
    uartWriteNonblock port data w = (.error .pending, w) := by
  unfold uartWriteNonblock
  simp only [h]

theorem uartWriteNonblock_fail {w : World} {msg : String} {rest : List Answer}
    (data : List UInt8) (h : w.writes = .fail msg :: rest) :
    uartWriteNonblock port data w =
      (.error (.error msg), { w with writes := rest, log := w.log ++ [.failed] }) := by
  unfold uartWriteNonblock
  simp only [h]

theorem prefix_append_take {sent data : List UInt8} (h : sent <+: data) (count : Nat) :
    sent ++ (data.drop sent.length).take count <+: data := by
  obtain ⟨rest, rfl⟩ := h
  rw [List.drop_left]
  exact List.prefix_append_right_inj sent |>.mpr (List.take_prefix count rest)

/-- A pass that asks the driver. -/
theorem handed_pass {w w₁ : World} {sent : List UInt8} {st : Writing} (stamp : TimeElapsed)
    (h : WrittenSoFar port data sent w st w₁) :
    ∃ r w₂, uartWriteNonblock port (data.drop st.written) w₁ = (r, w₂) ∧
      WritePass port data w w₁.writes.length (handed data stamp st r) w₂ := by
  cases hwrites : w₁.writes with
  | nil =>
    exact ⟨_, _, uartWriteNonblock_pending _ hwrites, sent, h.given, h.pre, ⟨h.lt, hwrites⟩,
      h.moves⟩
  | cons answer rest =>
    have hmoves := h.moves
    rw [hwrites] at hmoves
    cases answer with
    | fail msg =>
      refine ⟨_, _, uartWriteNonblock_fail _ hwrites, sent, ?_, h.pre, .inl (by simp), hmoves⟩
      exact ⟨h.given.tx, h.given.rx, h.given.reads, h.given.log.trans (Grown.one rfl trivial)⟩
    | bytes count =>
      obtain ⟨w₂, hpoll, hmore, hrest⟩ :=
        uartWriteNonblock_sent port (data.drop st.written) hwrites
      refine ⟨_, w₂, hpoll, ?_⟩
      have hpre := prefix_append_take h.pre count
      have hlength : (more : List UInt8) → st.written + more.length = (sent ++ more).length :=
        fun more => by rw [List.length_append, h.written]
      have hmoves' : data ≠ [] → productive w.writes ≤
          productive rest + (sent ++ (data.drop st.written).take count).length := by
        intro hdata
        have hanswer := productive_bytes_le count rest
        have hlt := h.lt hdata
        have hold := hmoves hdata
        rw [List.length_append, List.length_take, List.length_drop, h.written]
        omega
      rw [← h.written] at hpre
      rw [← hrest] at hmoves'
      unfold handed
      by_cases hfull : st.written + ((data.drop st.written).take count).length = data.length
      · simp only [if_pos hfull]
        refine ⟨_, h.given.trans hmore, hpre, ⟨hfull, ?_⟩, hmoves'⟩
        exact hpre.eq_of_length (by rw [← hlength, hfull])
      · simp only [if_neg hfull]
        refine ⟨⟨_, h.given.trans hmore, hlength _, hpre, fun _ => ?_, hmoves'⟩, ?_⟩
        · have hle := hpre.length_le
          rw [← hlength] at hle ⊢
          omega
        · show w₂.writes.length < _
          rw [hrest]
          exact Nat.lt_succ_self _

/-- One pass of the write loop. -/
theorem writePass_pass {w w₁ : World} {st : Writing}
    (h : ∃ sent, WrittenSoFar port data sent w st w₁) :
    (writePass port data timeout st).Ends w₁ (WritePass port data w w₁.writes.length) := by
  obtain ⟨sent, h⟩ := h
  obtain ⟨stamp, ticks, hopen | ⟨-, hexpired⟩⟩ := deadlineOpen_cases timeout st.stamp w₁
  · have h₁ : WrittenSoFar port data sent w st { w₁ with ticks := ticks } :=
      ⟨⟨h.given.tx, h.given.rx, h.given.reads, h.given.log⟩, h.written, h.pre, h.lt, h.moves⟩
    obtain ⟨r, w₂, hpoll, hpass⟩ := handed_pass stamp h₁
    exact Run.ends_of_eq (writePass_open st hopen hpoll) hpass
  · have hraised : writePass port data timeout st w₁ =
        (.error (.error "Timeout on blocking write."),
          { w₁ with ticks := ticks, log := w₁.log ++ [.expired] }) := by
      unfold writePass
      rw [Run.bind_of_ok hexpired]
      rfl
    refine Run.ends_of_eq hraised ⟨sent, ?_, h.pre, .inr (by simp), h.moves⟩
    exact ⟨h.given.tx, h.given.rx, h.given.reads, h.given.log.trans (Grown.one rfl trivial)⟩

/-- A blocking write is its loop. -/
theorem uartWriteBlock_start (port : Nat) (data : List UInt8) (timeout : UInt32) (w : World) :
    uartWriteBlock port data timeout w =
      Run.iterate .pending (writePass port data timeout) (w.writes.length + 1)
        { stamp := timeElapsedInit (w.clock w.ticks), written := 0 }
        { w with ticks := w.ticks + 1 } := rfl

/-- **A blocking write that returns has handed over all of its bytes, in order.** -/
theorem uartWriteBlock_writes (port : Nat) (data : List UInt8) (timeout : UInt32) (w : World) :
    (uartWriteBlock port data timeout).Ends w fun r w' => ∃ sent, Writes port data sent w r w' := by
  unfold Run.Ends
  rw [uartWriteBlock_start]
  refine Run.iterate_ends (fun _ _ h => writePass_pass h) _ _ _ (Nat.lt_succ_self _) ⟨[], ?_⟩
  refine ⟨⟨?_, rfl, rfl, Grown.refl w⟩, rfl, List.nil_prefix, List.length_pos_of_ne_nil, ?_⟩
  · rw [List.append_nil, Function.update_eq_self]
  · exact fun _ => Nat.le_refl _

/-- A driver that takes all bytes at once, before the deadline. -/
theorem uartWriteBlock_at_once (port : Nat) (timeout : UInt32) {w : World} {data : List UInt8}
    {count : Nat} {rest : List Answer} (hwrites : w.writes = .bytes count :: rest)
    (hcount : data.length ≤ count)
    (hlook : LookInTime timeout w 1) : ∃ w', uartWriteBlock port data timeout w =
      (.ok data.length, w') ∧ w'.tx = Function.update w.tx port (w.tx port ++ data) ∧
      w'.writes = rest ∧ w'.clock = w.clock ∧ w'.period = w.period := by
  have hlooked : Looked timeout w 0 (timeElapsedInit (w.clock w.ticks))
      { w with ticks := w.ticks + 1 } :=
    ⟨fun _ => rfl, rfl, rfl, fun _ => rfl, fun _ => rfl, rfl⟩
  obtain ⟨stamp, ticks, -, hopen, -⟩ := deadlineOpen_looked hlooked
  have hpoll : uartWriteNonblock port (data.drop 0) { w with ticks := ticks } =
      (.ok data.length, { w with
        ticks := ticks
        tx := Function.update w.tx port (w.tx port ++ data)
        writes := rest }) := by
    unfold uartWriteNonblock
    simp only [hwrites, List.drop_zero, List.take_of_length_le hcount]
  have hpass := writePass_open { stamp := timeElapsedInit (w.clock w.ticks), written := 0 }
    (hopen hlook) hpoll
  unfold handed at hpass
  dsimp only at hpass
  rw [if_pos (Nat.zero_add _), Nat.zero_add] at hpass
  have hrun := (uartWriteBlock_start port data timeout w).trans (Run.iterate_of_inr hpass)
  exact ⟨_, hrun, rfl, rfl, rfl, rfl⟩

end Nuhal.Link

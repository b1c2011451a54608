import Nuhal.All.Uart

/-!
# What a blocking read does (`nuhal_all/src/uart.c:8-81`)

The read loop, whatever the schedule of the driver and the clock are.

* `Taken port got w w'`: between `w` and `w'` exactly the bytes `got` were taken off `port`, and
  nothing was sent.
* **`uartReadBlockError_reads`**: a blocking read without a terminator takes a run of at most `len`
  bytes off the port, leaves them one after the other in the caller's buffer, and comes back with
  fewer than `len` only if a deadline has passed. `ReadEnds` lists the ways it ends.
* `productive` counts the answers of a schedule that move something. Each of them moves a byte as
  long as there are bytes, so a schedule with enough of them never leaves a call waiting.

`readPass_open`, `readPass_expired` and `uartReadBlockError_start` compute single passes, for
schedules that are given.
-/

namespace Nuhal.Link

open Nuhal.Lib Nuhal.All

variable {n : Nat}

/-! ## Comparing two worlds -/

/-- The log of `w'` is that of `w` with events of the kind `E` after it. -/
def Grown (E : Event → Prop) (w w' : World) : Prop :=
  ∃ new, w'.log = w.log ++ new ∧ ∀ e ∈ new, E e

theorem Grown.refl {E : Event → Prop} (w : World) : Grown E w w :=
  ⟨[], (List.append_nil _).symm, fun _ he => absurd he List.not_mem_nil⟩

theorem Grown.trans {E : Event → Prop} {w w₁ w₂ : World} (h₁ : Grown E w w₁)
    (h₂ : Grown E w₁ w₂) : Grown E w w₂ := by
  obtain ⟨new₁, e₁, a₁⟩ := h₁
  obtain ⟨new₂, e₂, a₂⟩ := h₂
  refine ⟨new₁ ++ new₂, by rw [e₂, e₁, List.append_assoc], fun e he => ?_⟩
  rcases List.mem_append.mp he with h | h
  · exact a₁ e h
  · exact a₂ e h

theorem Grown.one {E : Event → Prop} {w w' : World} {e : Event} (h : w'.log = w.log ++ [e])
    (he : E e) : Grown E w w' :=
  ⟨[e], h, fun x hx => by rw [List.mem_singleton.mp hx]; exact he⟩

theorem Grown.mono {E E' : Event → Prop} {w w' : World} (h : Grown E w w')
    (hE : ∀ e, E e → E' e) : Grown E' w w' := by
  obtain ⟨new, hlog, hnew⟩ := h
  exact ⟨new, hlog, fun e he => hE e (hnew e he)⟩

/-- Parts of a stretch that has only events of a kind. -/
theorem Grown.split {E : Event → Prop} {w w₁ w' : World} (h : Grown E w w')
    (h₁ : Grown (fun _ => True) w w₁) (h₂ : Grown (fun _ => True) w₁ w') :
    Grown E w w₁ ∧ Grown E w₁ w' := by
  obtain ⟨new, hlog, hnew⟩ := h
  obtain ⟨new₁, hlog₁, -⟩ := h₁
  obtain ⟨new₂, hlog₂, -⟩ := h₂
  rw [hlog₂, hlog₁, List.append_assoc] at hlog
  obtain rfl := List.append_cancel_left hlog
  exact ⟨⟨new₁, hlog₁, fun e he => hnew e (List.mem_append_left _ he)⟩,
    ⟨new₂, hlog₂, fun e he => hnew e (List.mem_append_right _ he)⟩⟩

theorem Grown.mem {E : Event → Prop} {w w' : World} {e : Event} (h : Grown E w w')
    (he : e ∈ w.log) : e ∈ w'.log := by
  obtain ⟨new, hlog, -⟩ := h
  rw [hlog]
  exact List.mem_append_left new he

theorem Grown.all {E : Event → Prop} {w w' : World} (h : Grown E w w') (hlog : w.log = []) :
    ∀ e ∈ w'.log, E e := by
  obtain ⟨new, hnew, hE⟩ := h
  rw [hlog, List.nil_append] at hnew
  rw [hnew]
  exact hE

/-- Between `w` and `w'` the bytes `got` were taken off `port` and nothing was sent. -/
structure Taken (E : Event → Prop) (port : Nat) (got : List UInt8) (w w' : World) : Prop where
  rx : w.rx port = got ++ w'.rx port
  others : ∀ p, p ≠ port → w'.rx p = w.rx p
  tx : w'.tx = w.tx
  writes : w'.writes = w.writes
  log : Grown E w w'

theorem Taken.refl {E : Event → Prop} (port : Nat) (w : World) : Taken E port [] w w :=
  ⟨rfl, fun _ _ => rfl, rfl, rfl, Grown.refl w⟩

theorem Taken.trans {E : Event → Prop} {port : Nat} {xs ys : List UInt8} {w w₁ w₂ : World}
    (h₁ : Taken E port xs w w₁) (h₂ : Taken E port ys w₁ w₂) :
    Taken E port (xs ++ ys) w w₂ := by
  refine ⟨?_, fun p hp => ?_, ?_, ?_, h₁.log.trans h₂.log⟩
  · rw [h₁.rx, h₂.rx, List.append_assoc]
  · rw [h₂.others p hp, h₁.others p hp]
  · rw [h₂.tx, h₁.tx]
  · rw [h₂.writes, h₁.writes]

theorem Taken.mono {E E' : Event → Prop} {port : Nat} {got : List UInt8} {w w' : World}
    (h : Taken E port got w w') (hE : ∀ e, E e → E' e) : Taken E' port got w w' :=
  ⟨h.rx, h.others, h.tx, h.writes, h.log.mono hE⟩

/-- No deadline has passed and no driver has failed so far. -/
structure Undisturbed (w : World) : Prop where
  expired : Event.expired ∉ w.log
  failed : Event.failed ∉ w.log

theorem Undisturbed.before {E : Event → Prop} {w w' : World} (h : Undisturbed w')
    (hlog : Grown E w w') : Undisturbed w :=
  ⟨fun he => h.expired (hlog.mem he), fun he => h.failed (hlog.mem he)⟩

/-- How many answers of a schedule move something. -/
def productive : List Answer → Nat
  | [] => 0
  | .bytes 0 :: rest => productive rest
  | .bytes (_ + 1) :: rest => productive rest + 1
  | .fail _ :: rest => productive rest

/-- How many bytes the answers of a schedule can move at most. -/
def capacity : List Answer → Nat
  | [] => 0
  | .bytes count :: rest => count + capacity rest
  | .fail _ :: rest => capacity rest

theorem productive_bytes_le (c : Nat) (rest : List Answer) :
    productive (.bytes c :: rest) ≤ productive rest + min c 1 := by
  cases c with
  | zero => exact Nat.le_refl _
  | succ c =>
    have hmin : min (c + 1) 1 = 1 := Nat.min_eq_right (by omega)
    rw [hmin]
    exact Nat.le_refl _

/-- What is left after `i` answers begins with the next one. -/
theorem drop_of_getElem? {α : Type} {l : List α} {a : α} {i : Nat} (h : l[i]? = some a) :
    l.drop i = a :: l.drop (i + 1) := by
  obtain ⟨hi, hget⟩ := List.getElem?_eq_some_iff.mp h
  rw [List.drop_eq_getElem_cons hi, hget]

theorem capacity_append (front back : List Answer) :
    capacity (front ++ back) = capacity front + capacity back := by
  induction front with
  | nil => exact (Nat.zero_add _).symm
  | cons answer rest ih =>
    cases answer with
    | bytes count =>
      show count + capacity (rest ++ back) = count + capacity rest + capacity back
      rw [ih, Nat.add_assoc]
    | fail msg => exact ih

theorem capacity_take_succ {reads : List Answer} {i count : Nat}
    (h : reads[i]? = some (.bytes count)) :
    capacity (reads.take (i + 1)) = capacity (reads.take i) + count := by
  rw [List.take_add_one, h, capacity_append]
  rfl

theorem capacity_take_le_capacity (reads : List Answer) (i : Nat) :
    capacity (reads.take i) ≤ capacity reads := by
  have hsplit := capacity_append (reads.take i) (reads.drop i)
  rw [List.take_append_drop] at hsplit
  rw [hsplit]
  exact Nat.le_add_right _ _

/-! ## The deadline -/

theorem record_ok (e : Event) (w : World) : record e w = (.ok (), w.logged e) := rfl

theorem timeElapsedMsInit_ok (w : World) : timeElapsedMsInit w =
    (.ok (timeElapsedInit (w.clock w.ticks)), { w with ticks := w.ticks + 1 }) := rfl

theorem timeElapsedMs_ok (stamp : TimeElapsed) (w : World) : timeElapsedMs stamp w =
    (.ok (timeElapsed w.period stamp (w.clock w.ticks)), { w with ticks := w.ticks + 1 }) := rfl

/-- Without a deadline nobody looks at the clock. -/
theorem deadlineOpen_zero (stamp : TimeElapsed) (w : World) :
    deadlineOpen 0 stamp w = (.ok (true, stamp), w) := rfl

theorem deadlineOpen_lt {timeout : UInt32} {stamp : TimeElapsed} {w : World} (h0 : timeout ≠ 0)
    (h : (timeElapsed w.period stamp (w.clock w.ticks)).1 < timeout) :
    deadlineOpen timeout stamp w = (.ok (true, (timeElapsed w.period stamp (w.clock w.ticks)).2),
      { w with ticks := w.ticks + 1 }) := by
  unfold deadlineOpen
  rw [if_neg h0, Run.bind_of_ok (timeElapsedMs_ok stamp w)]
  simp only [if_pos h]
  rfl

theorem deadlineOpen_ge {timeout : UInt32} {stamp : TimeElapsed} {w : World} (h0 : timeout ≠ 0)
    (h : ¬ (timeElapsed w.period stamp (w.clock w.ticks)).1 < timeout) :
    deadlineOpen timeout stamp w = (.ok (false, (timeElapsed w.period stamp (w.clock w.ticks)).2),
      { w with ticks := w.ticks + 1, log := w.log ++ [.expired] }) := by
  unfold deadlineOpen
  rw [if_neg h0, Run.bind_of_ok (timeElapsedMs_ok stamp w)]
  simp only [if_neg h]
  rfl

/-- A look at the clock finds the deadline open, or finds it passed and says so in the log. -/
theorem deadlineOpen_cases (timeout : UInt32) (stamp : TimeElapsed) (w : World) :
    ∃ stamp' ticks,
      deadlineOpen timeout stamp w = (.ok (true, stamp'), { w with ticks := ticks }) ∨
      timeout ≠ 0 ∧ deadlineOpen timeout stamp w =
        (.ok (false, stamp'), { w with ticks := ticks, log := w.log ++ [.expired] }) := by
  by_cases h0 : timeout = 0
  · subst h0
    exact ⟨stamp, w.ticks, .inl (deadlineOpen_zero stamp w)⟩
  · refine ⟨(timeElapsed w.period stamp (w.clock w.ticks)).2, w.ticks + 1, ?_⟩
    by_cases hlt : (timeElapsed w.period stamp (w.clock w.ticks)).1 < timeout
    · exact .inl (deadlineOpen_lt h0 hlt)
    · exact .inr ⟨h0, deadlineOpen_ge h0 hlt⟩

/-! ## Reading -/

/-- What a read of `len` bytes into `off, …, off + len - 1` may log. -/
def ReadEvent (off len : Nat) : Event → Prop
  | .store first count => off ≤ first ∧ first + count ≤ off + len
  | .ask k => k = len
  | .load _ => False
  | .terminator _ => False
  | .expired => True
  | .failed => True

/-- How a blocking read of `len` bytes into `mem + off` ends when it took the bytes `got`. -/
def ReadEnds (mem : Vector UInt8 n) (off len : Nat) (timeout : UInt32) (timeoutError : Bool)
    (got : List UInt8) (w' : World) : Except Halt (Nat × Vector UInt8 n) → Prop
  | .ok (k, mem') => k = got.length ∧ store mem off got = some mem' ∧
      (k < len → .expired ∈ w'.log ∧ timeout ≠ 0 ∧ timeoutError = false)
  | .error .undefined => n < off + got.length
  | .error .pending => got.length < len ∧ w'.reads = []
  | .error (.error _) =>
      got.length < len ∧ (.failed ∈ w'.log ∨
        .expired ∈ w'.log ∧ timeout ≠ 0 ∧ timeoutError = true)

/-- What a blocking read does: the run of bytes it takes, and how it ends. -/
structure Reads (port : Nat) (mem : Vector UInt8 n) (off len : Nat) (timeout : UInt32)
    (timeoutError : Bool) (got : List UInt8) (w : World)
    (r : Except Halt (Nat × Vector UInt8 n)) (w' : World) : Prop where
  taken : Taken (ReadEvent off len) port got w w'
  asked : .ask len ∈ w'.log
  le : got.length ≤ len
  ends : ReadEnds mem off len timeout timeoutError got w' r
  moves : len ≤ (w.rx port).length → productive w.reads ≤ productive w'.reads + got.length
  within : got.length + capacity w'.reads ≤ capacity w.reads

/-- The state of the read loop after it took `got`. -/
structure ReadSoFar (port : Nat) (mem : Vector UInt8 n) (off len : Nat) (w : World)
    (got : List UInt8) (st : Reading n) (w' : World) : Prop where
  taken : Taken (ReadEvent off len) port got w w'
  asked : .ask len ∈ w'.log
  read : st.read = got.length
  lt : got.length < len
  mem : store mem off got = some st.mem
  moves : len ≤ (w.rx port).length → productive w.reads ≤ productive w'.reads + got.length
  within : got.length + capacity w'.reads ≤ capacity w.reads

variable {port off len : Nat} {timeout : UInt32} {term : UartTerm} {timeoutError : Bool}
  {mem : Vector UInt8 n}

theorem uartReadNonblock_pending {w : World} (h : w.reads = []) :
    uartReadNonblock port mem off len w = (.error .pending, w) := by
  unfold uartReadNonblock
  simp only [h]

theorem uartReadNonblock_fail {w : World} {msg : String} {rest : List Answer}
    (h : w.reads = .fail msg :: rest) : uartReadNonblock port mem off len w =
      (.error (.error msg), { w with reads := rest, log := w.log ++ [.failed] }) := by
  unfold uartReadNonblock
  simp only [h]

theorem uartReadNonblock_undefined {w : World} {count : Nat} {rest : List Answer}
    (h : w.reads = .bytes count :: rest)
    (hv : store mem off (w.incoming port count len) = none) :
    uartReadNonblock port mem off len w =
      (.error .undefined, w.received port off (w.incoming port count len).length rest) := by
  unfold uartReadNonblock
  simp only [h, hv]

theorem uartReadNonblock_ok {w : World} {count : Nat} {rest : List Answer} {mem' : Vector UInt8 n}
    (h : w.reads = .bytes count :: rest)
    (hv : store mem off (w.incoming port count len) = some mem') :
    uartReadNonblock port mem off len w = (.ok ((w.incoming port count len).length, mem'),
      w.received port off (w.incoming port count len).length rest) := by
  unfold uartReadNonblock
  simp only [h, hv]

theorem incoming_append (w : World) (port count len : Nat) :
    w.incoming port count len ++ (w.rx port).drop (w.incoming port count len).length =
      w.rx port := by
  unfold World.incoming
  rw [List.length_take]
  rcases Nat.le_total (min count len) (w.rx port).length with h | h
  · rw [Nat.min_eq_left h, List.take_append_drop]
  · rw [Nat.min_eq_right h, List.drop_length, List.append_nil, List.take_of_length_le h]

theorem length_incoming (w : World) (port count len : Nat) :
    (w.incoming port count len).length = min (min count len) (w.rx port).length := by
  unfold World.incoming
  rw [List.length_take]

/-- One call of the driver, after which `got` more bytes are off the port. -/
theorem received_taken {first : Nat} {rest : List Answer} {got : List UInt8}
    {w : World} (hrx : got ++ (w.rx port).drop got.length = w.rx port) (hoff : off ≤ first)
    (hlen : first + got.length ≤ off + len) :
    Taken (ReadEvent off len) port got w (w.received port first got.length rest) := by
  refine ⟨?_, fun p hp => Function.update_of_ne hp _ _, rfl, rfl, Grown.one rfl ⟨hoff, hlen⟩⟩
  show w.rx port = got ++ Function.update w.rx port _ port
  rw [Function.update_self, hrx]

/-- What one pass of the loop does with the answer `bytes count`. -/
theorem readSoFar_received {w w₁ : World} {st : Reading n} {got : List UInt8} {count : Nat}
    {rest : List Answer} (h : ReadSoFar port mem off len w got st w₁)
    (hreads : w₁.reads = .bytes count :: rest) :
    Taken (ReadEvent off len) port (got ++ w₁.incoming port count (len - st.read)) w
        (w₁.received port (off + st.read) (w₁.incoming port count (len - st.read)).length rest) ∧
      (got ++ w₁.incoming port count (len - st.read)).length ≤ len ∧
      (len ≤ (w.rx port).length → productive w.reads ≤
        productive rest + (got ++ w₁.incoming port count (len - st.read)).length) ∧
      (got ++ w₁.incoming port count (len - st.read)).length + capacity rest ≤
        capacity w.reads := by
  have hread := h.read
  have hlt := h.lt
  have hcount := length_incoming w₁ port count (len - st.read)
  have hwithin := h.within
  rw [hreads] at hwithin
  change got.length + (count + capacity rest) ≤ _ at hwithin
  refine ⟨h.taken.trans (received_taken (incoming_append _ _ _ _) (by omega) (by omega)),
    by rw [List.length_append]; omega, fun hfit => ?_, by rw [List.length_append]; omega⟩
  have hmoves := h.moves hfit
  have hrx := congrArg List.length h.taken.rx
  have hanswer := productive_bytes_le count rest
  rw [hreads] at hmoves
  rw [List.length_append] at hrx ⊢
  -- the port still holds the bytes that are missing, so the answer moves what it can
  omega

/-- What a pass makes of the driver's result, without a terminator to look for. -/
def polled (len : Nat) (stamp : TimeElapsed) (st : Reading n) :
    Except Halt (Nat × Vector UInt8 n) → Except Halt (Reading n ⊕ (Nat × Vector UInt8 n))
  | .ok (k, mem) =>
    if st.read + k = len then .ok (.inr (st.read + k, mem))
    else .ok (.inl { stamp, mem, read := st.read + k })
  | .error e => .error e

theorem readPass_open (timeoutError : Bool) (st : Reading n) {stamp : TimeElapsed}
    {w w₁ w₂ : World} {r : Except Halt (Nat × Vector UInt8 n)}
    (hopen : deadlineOpen timeout st.stamp w = (.ok (true, stamp), w₁))
    (hpoll : uartReadNonblock port st.mem (off + st.read) (len - st.read) w₁ = (r, w₂)) :
    readPass port off len timeout .none timeoutError st w = (polled len stamp st r, w₂) := by
  unfold readPass
  rw [Run.bind_of_ok hopen]
  simp only [if_true]
  match r, hpoll with
  | .error e, hpoll => exact Run.bind_of_error hpoll _
  | .ok (k, mem'), hpoll =>
    rw [Run.bind_of_ok hpoll]
    unfold polled
    by_cases hfull : st.read + k = len
    · simp only [if_pos hfull]
      rfl
    · simp only [if_neg hfull]
      rfl

theorem readPass_expired {st : Reading n} {stamp : TimeElapsed} {w w₁ : World}
    (hexpired : deadlineOpen timeout st.stamp w = (.ok (false, stamp), w₁)) :
    readPass port off len timeout term timeoutError st w =
      (if timeoutError then .error (.error "Timeout on blocking read.")
        else .ok (.inr (st.read, st.mem)), w₁) := by
  unfold readPass
  rw [Run.bind_of_ok hexpired]
  cases timeoutError with
  | true => rfl
  | false => rfl

/-- The invariant and the postcondition of the read loop. -/
abbrev ReadPass (port : Nat) (mem : Vector UInt8 n) (off len : Nat) (timeout : UInt32)
    (timeoutError : Bool) (w : World) :
    Nat → Except Halt (Reading n ⊕ (Nat × Vector UInt8 n)) → World → Prop :=
  Run.Pass (fun st w' => ∃ got, ReadSoFar port mem off len w got st w') (fun w' => w'.reads.length)
    (fun r w' => ∃ got, Reads port mem off len timeout timeoutError got w r w')

/-- A pass that asks the driver. -/
theorem polled_pass {w w₁ : World} {got : List UInt8} {st : Reading n} (stamp : TimeElapsed)
    (h : ReadSoFar port mem off len w got st w₁) :
    ∃ r w₂, uartReadNonblock port st.mem (off + st.read) (len - st.read) w₁ = (r, w₂) ∧
      ReadPass port mem off len timeout timeoutError w w₁.reads.length (polled len stamp st r)
        w₂ := by
  have hread := h.read
  have hle := Nat.le_of_lt h.lt
  cases hreads : w₁.reads with
  | nil =>
    exact ⟨_, _, uartReadNonblock_pending hreads, got, h.taken, h.asked, hle, ⟨h.lt, hreads⟩,
      h.moves, h.within⟩
  | cons answer rest =>
    cases answer with
    | fail msg =>
      have hmoves := h.moves
      have hwithin := h.within
      rw [hreads] at hmoves hwithin
      refine ⟨_, _, uartReadNonblock_fail hreads, got, ?_, List.mem_append_left _ h.asked, hle,
        ⟨h.lt, .inl (by simp)⟩, hmoves, hwithin⟩
      exact ⟨h.taken.rx, h.taken.others, h.taken.tx, h.taken.writes,
        h.taken.log.trans (Grown.one rfl trivial)⟩
    | bytes count =>
      obtain ⟨htaken, hle', hmoves, hwithin⟩ := readSoFar_received h hreads
      have hasked : Event.ask len ∈ (w₁.received port (off + st.read)
          (w₁.incoming port count (len - st.read)).length rest).log :=
        List.mem_append_left _ h.asked
      have hstore : store st.mem (off + st.read) (w₁.incoming port count (len - st.read)) =
          store mem off (got ++ w₁.incoming port count (len - st.read)) := by
        rw [hread]
        exact store_store h.mem
      cases hv : store st.mem (off + st.read) (w₁.incoming port count (len - st.read)) with
      | none =>
        rw [hv] at hstore
        exact ⟨_, _, uartReadNonblock_undefined hreads hv, _, htaken, hasked, hle',
          store_eq_none.mp hstore.symm, hmoves, hwithin⟩
      | some mem' =>
        rw [hv] at hstore
        refine ⟨_, _, uartReadNonblock_ok hreads hv, ?_⟩
        have hlength : st.read + (w₁.incoming port count (len - st.read)).length =
            (got ++ w₁.incoming port count (len - st.read)).length := by
          rw [List.length_append, hread]
        unfold polled
        by_cases hfull : st.read + (w₁.incoming port count (len - st.read)).length = len
        · simp only [if_pos hfull]
          exact ⟨_, htaken, hasked, hle', ⟨hlength, hstore.symm,
            fun hlt => absurd hfull (Nat.ne_of_lt hlt)⟩, hmoves, hwithin⟩
        · simp only [if_neg hfull]
          exact ⟨⟨_, htaken, hasked, hlength, by omega, hstore.symm, hmoves, hwithin⟩,
            Nat.lt_succ_self _⟩

/-- One pass of the read loop. -/
theorem readPass_pass {w w₁ : World} {st : Reading n}
    (h : ∃ got, ReadSoFar port mem off len w got st w₁) :
    (readPass port off len timeout .none timeoutError st).Ends w₁
      (ReadPass port mem off len timeout timeoutError w w₁.reads.length) := by
  obtain ⟨got, h⟩ := h
  obtain ⟨stamp, ticks, hopen | ⟨htimeout, hexpired⟩⟩ := deadlineOpen_cases timeout st.stamp w₁
  · have h₁ : ReadSoFar port mem off len w got st { w₁ with ticks := ticks } :=
      ⟨⟨h.taken.rx, h.taken.others, h.taken.tx, h.taken.writes, h.taken.log⟩, h.asked, h.read, h.lt,
        h.mem, h.moves, h.within⟩
    obtain ⟨r, w₂, hpoll, hpass⟩ := polled_pass stamp h₁
    exact Run.ends_of_eq (readPass_open timeoutError st hopen hpoll) hpass
  · refine Run.ends_of_eq (readPass_expired hexpired) ?_
    have htaken : Taken (ReadEvent off len) port got w
        { w₁ with ticks := ticks, log := w₁.log ++ [.expired] } :=
      ⟨h.taken.rx, h.taken.others, h.taken.tx, h.taken.writes,
        h.taken.log.trans (Grown.one rfl trivial)⟩
    have hlogged : Event.expired ∈ w₁.log ++ [.expired] := by simp
    have hasked : Event.ask len ∈ w₁.log ++ [.expired] := List.mem_append_left _ h.asked
    cases timeoutError with
    | true =>
      exact ⟨got, htaken, hasked, Nat.le_of_lt h.lt, ⟨h.lt, .inr ⟨hlogged, htimeout, rfl⟩⟩,
        h.moves, h.within⟩
    | false =>
      exact ⟨got, htaken, hasked, Nat.le_of_lt h.lt,
        ⟨h.read, h.mem, fun _ => ⟨hlogged, htimeout, rfl⟩⟩, h.moves, h.within⟩

theorem uartWaitForData_ok {w : World} {ready : Bool} (hwait : w.wait w.ticks = .ok ready) :
    uartWaitForData w = (.ok ready, w) := by
  unfold uartWaitForData
  rw [hwait]

theorem uartWaitForData_error {w : World} {msg : String} (hwait : w.wait w.ticks = .error msg) :
    uartWaitForData w = (.error (.error msg), w.logged .failed) := by
  unfold uartWaitForData
  rw [hwait]

/-- The world a blocking read enters its loop with. -/
def asked (w : World) (len : Nat) : World :=
  { w with ticks := w.ticks + 1, log := w.log ++ [.ask len] }

/-- A blocking read of at least one byte, up to its loop. -/
theorem uartReadBlockError_start {w : World} {ready : Bool} (hlen : len ≠ 0)
    (hwait : w.wait (w.ticks + 1) = .ok ready) :
    uartReadBlockError port mem off len timeout term timeoutError w =
      Run.iterate .pending (readPass port off len timeout term timeoutError)
        (w.reads.length + 1) { stamp := timeElapsedInit (w.clock w.ticks), mem, read := 0 }
        (asked w len) := by
  have hready : uartWaitForData (asked w len) = (.ok ready, asked w len) :=
    uartWaitForData_ok hwait
  unfold uartReadBlockError
  rw [Run.bind_of_ok (record_ok _ w), if_neg hlen, Run.bind_of_ok (timeElapsedMsInit_ok _)]
  exact Run.bind_of_ok hready _

theorem uartReadBlockError_wait {w : World} {msg : String} (hlen : len ≠ 0)
    (hwait : w.wait (w.ticks + 1) = .error msg) :
    uartReadBlockError port mem off len timeout term timeoutError w =
      (.error (.error msg), (asked w len).logged .failed) := by
  have hfail : uartWaitForData (asked w len) =
      (.error (.error msg), (asked w len).logged .failed) := uartWaitForData_error hwait
  unfold uartReadBlockError
  rw [Run.bind_of_ok (record_ok _ w), if_neg hlen, Run.bind_of_ok (timeElapsedMsInit_ok _)]
  exact Run.bind_of_error hfail _

/-- A read of no bytes is only asked for. -/
theorem uartReadBlockError_zero (w : World) :
    uartReadBlockError port mem off 0 timeout term timeoutError w =
      (.ok (0, mem), w.logged (.ask 0)) := rfl

theorem asked_taken (w : World) : Taken (ReadEvent off len) port [] w (asked w len) :=
  ⟨rfl, fun _ _ => rfl, rfl, rfl, Grown.one rfl rfl⟩

theorem asked_mem (w : World) (len : Nat) : .ask len ∈ (asked w len).log :=
  List.mem_append_right _ (List.mem_singleton_self _)

/-- **A blocking read takes a run of at most `len` bytes off its port into the buffer**, and ends
in one of the ways of `ReadEnds`. -/
theorem uartReadBlockError_reads (port : Nat) (mem : Vector UInt8 n) (off len : Nat)
    (timeout : UInt32) (timeoutError : Bool) (w : World) (hoff : off ≤ n) :
    (uartReadBlockError port mem off len timeout .none timeoutError).Ends w fun r w' =>
      ∃ got, Reads port mem off len timeout timeoutError got w r w' := by
  by_cases hlen : len = 0
  · subst hlen
    refine Run.ends_of_eq (uartReadBlockError_zero w) ⟨[], ?_, ?_, Nat.le_refl _, ?_, ?_, ?_⟩
    · exact ⟨rfl, fun _ _ => rfl, rfl, rfl, Grown.one rfl rfl⟩
    · exact List.mem_append_right _ (List.mem_singleton_self _)
    · exact ⟨rfl, store_nil hoff, fun hlt => absurd hlt (Nat.lt_irrefl _)⟩
    · exact fun _ => Nat.le_refl _
    · exact Nat.le_of_eq (Nat.zero_add _)
  · cases hwait : w.wait (w.ticks + 1) with
    | error msg =>
      refine Run.ends_of_eq (uartReadBlockError_wait hlen hwait)
        ⟨[], ?_, List.mem_append_left _ (asked_mem w len), Nat.zero_le _, ?_, ?_, ?_⟩
      · exact (asked_taken w).trans ⟨rfl, fun _ _ => rfl, rfl, rfl, Grown.one rfl trivial⟩
      · exact ⟨Nat.pos_of_ne_zero hlen, .inl (List.mem_append_right _ (List.mem_singleton_self _))⟩
      · exact fun _ => Nat.le_refl _
      · exact Nat.le_of_eq (Nat.zero_add _)
    | ok ready =>
      unfold Run.Ends
      rw [uartReadBlockError_start hlen hwait]
      refine Run.iterate_ends (fun _ _ h => readPass_pass h) _ _ _ (Nat.lt_succ_self _) ⟨[], ?_⟩
      exact ⟨asked_taken w, asked_mem w len, rfl, Nat.pos_of_ne_zero hlen, store_nil hoff,
        fun _ => Nat.le_refl _, Nat.le_of_eq (Nat.zero_add _)⟩

end Nuhal.Link

import Nuhal.Link.Reads

/-!
# Blocking reads on a given schedule

What `uart_read_block_error` does is decided by the answers of the driver and by what the clock
shows when it is looked at. Three schedules are enough to realise everything the packet reader can
meet:

* `read_whole`: the first look is in time and the driver hands over all that was asked for;
* `read_part`: the first look is in time, the driver hands over less, the second look is late;
* `read_late`: the first look is late.

Each says exactly what the read returns and the world it leaves. `scheduled` is a world whose clock
shows 0 but for chosen readings that are as late as can be; on it `read_realised` makes a read come
back with any part of what it asked for.
-/

namespace Nuhal.Link

open Nuhal.Lib Nuhal.All

variable {n : Nat}

/-- The first look at the clock of a read that starts in `w`. -/
def firstLook (w : World) : UInt32 × TimeElapsed :=
  timeElapsed w.period (timeElapsedInit (w.clock w.ticks)) (w.clock (w.ticks + 1))

/-- The second look. -/
def secondLook (w : World) : UInt32 × TimeElapsed :=
  timeElapsed w.period (firstLook w).2 (w.clock (w.ticks + 2))

/-- How often a look in time reads the clock. -/
def looks (timeout : UInt32) : Nat := if timeout = 0 then 0 else 1

/-- The first look of a read that starts in `w` is in time. -/
def InTime (timeout : UInt32) (w : World) : Prop := timeout = 0 ∨ (firstLook w).1 < timeout

instance (timeout : UInt32) (w : World) : Decidable (InTime timeout w) :=
  inferInstanceAs (Decidable (_ ∨ _))

variable {port off len : Nat} {timeout : UInt32} {timeoutError : Bool} {mem mem' : Vector UInt8 n}
  {w : World}

/-- The first look, when it is in time. -/
theorem deadlineOpen_first (len : Nat) (h : InTime timeout w) : ∃ stamp,
    deadlineOpen timeout (timeElapsedInit (w.clock w.ticks)) (asked w len) =
      (.ok (true, stamp), { asked w len with ticks := w.ticks + 1 + looks timeout }) ∧
    (timeout ≠ 0 → stamp = (firstLook w).2) := by
  unfold looks
  by_cases h0 : timeout = 0
  · subst h0
    exact ⟨_, deadlineOpen_zero _ _, fun h => absurd rfl h⟩
  · rw [if_neg h0]
    exact ⟨_, deadlineOpen_lt h0 (h.resolve_left h0), fun _ => rfl⟩

/-- One call of the driver that hands over `k` bytes. -/
theorem poll_bytes {w : World} {count k : Nat} {rest : List Answer}
    (hreads : w.reads = .bytes count :: rest) (hk : min count len = k)
    (hrx : k ≤ (w.rx port).length) (hstore : store mem off ((w.rx port).take k) = some mem') :
    uartReadNonblock port mem off len w = (.ok (k, mem'), w.received port off k rest) := by
  have hlength : (w.incoming port count len).length = k := by
    rw [length_incoming, hk]
    exact Nat.min_eq_left hrx
  have hincoming : w.incoming port count len = (w.rx port).take k := by
    unfold World.incoming
    rw [hk]
  have hpoll : uartReadNonblock port mem off len w =
      (.ok ((w.incoming port count len).length, mem'),
      w.received port off (w.incoming port count len).length rest) :=
    uartReadNonblock_ok hreads (by rw [hincoming]; exact hstore)
  rwa [hlength] at hpoll

/-- The first look is in time and everything is there. -/
theorem read_whole {ready : Bool} {count : Nat} {rest : List Answer} (hlen : len ≠ 0)
    (hwait : w.wait (w.ticks + 1) = .ok ready) (hlook : InTime timeout w)
    (hreads : w.reads = .bytes count :: rest) (hcount : len ≤ count)
    (hrx : len ≤ (w.rx port).length) (hstore : store mem off ((w.rx port).take len) = some mem') :
    uartReadBlockError port mem off len timeout .none timeoutError w = (.ok (len, mem'),
      { w with
        rx := Function.update w.rx port ((w.rx port).drop len)
        reads := rest
        ticks := w.ticks + 1 + looks timeout
        log := w.log ++ [.ask len] ++ [.store off len] }) := by
  obtain ⟨stamp, hopen, -⟩ := deadlineOpen_first len hlook
  have hpoll := poll_bytes (w := { asked w len with ticks := w.ticks + 1 + looks timeout })
    hreads (Nat.min_eq_right hcount) hrx hstore
  rw [uartReadBlockError_start hlen hwait]
  refine Run.iterate_of_inr ?_
  have hpass := readPass_open timeoutError ⟨timeElapsedInit (w.clock w.ticks), mem, 0⟩ hopen hpoll
  refine hpass.trans ?_
  simp only [polled, Nat.zero_add, if_true]
  rfl

/-- The first look is in time, less than all is there, the second look is late. -/
theorem read_part {ready : Bool} {k : Nat} {rest : List Answer} (hk : k < len)
    (hwait : w.wait (w.ticks + 1) = .ok ready) (h0 : timeout ≠ 0)
    (hfirst : (firstLook w).1 < timeout) (hsecond : ¬ (secondLook w).1 < timeout)
    (hreads : w.reads = .bytes k :: rest) (hrx : k ≤ (w.rx port).length)
    (hstore : store mem off ((w.rx port).take k) = some mem') :
    uartReadBlockError port mem off len timeout .none false w = (.ok (k, mem'),
      { w with
        rx := Function.update w.rx port ((w.rx port).drop k)
        reads := rest
        ticks := w.ticks + 3
        log := w.log ++ [.ask len] ++ [.store off k] ++ [.expired] }) := by
  obtain ⟨stamp, hopen, hstamp⟩ := deadlineOpen_first len (.inr hfirst)
  obtain rfl := hstamp h0
  unfold looks at hopen
  rw [if_neg h0] at hopen
  have hpoll := poll_bytes (w := { asked w len with ticks := w.ticks + 1 + 1 })
    hreads (Nat.min_eq_left (Nat.le_of_lt hk)) hrx hstore
  have hpolled : polled len (firstLook w).2 ⟨timeElapsedInit (w.clock w.ticks), mem, 0⟩
      (.ok (k, mem')) = .ok (.inl ⟨(firstLook w).2, mem', k⟩) := by
    simp only [polled, Nat.zero_add, if_neg (Nat.ne_of_lt hk)]
  have hpass : readPass port off len timeout .none false
      ⟨timeElapsedInit (w.clock w.ticks), mem, 0⟩ (asked w len) =
        (.ok (.inl ⟨(firstLook w).2, mem', k⟩),
          World.received { asked w len with ticks := w.ticks + 1 + 1 } port off k rest) := by
    rw [← hpolled]
    exact readPass_open false ⟨timeElapsedInit (w.clock w.ticks), mem, 0⟩ hopen hpoll
  rw [uartReadBlockError_start (Nat.ne_zero_of_lt hk) hwait, hreads]
  show Run.iterate _ _ (rest.length + 1 + 1) _ _ = _
  rw [Run.iterate_of_inl hpass]
  exact Run.iterate_of_inr (readPass_expired (deadlineOpen_ge h0 hsecond))

/-- The first look is late. -/
theorem read_late {ready : Bool} (hlen : len ≠ 0) (hwait : w.wait (w.ticks + 1) = .ok ready)
    (hlook : ¬ InTime timeout w) :
    uartReadBlockError port mem off len timeout .none timeoutError w =
      (if timeoutError then .error (.error "Timeout on blocking read.") else .ok (0, mem),
        { w with ticks := w.ticks + 2, log := w.log ++ [.ask len] ++ [.expired] }) := by
  have h0 : timeout ≠ 0 := fun h => hlook (.inl h)
  have hfirst : ¬ (firstLook w).1 < timeout := fun h => hlook (.inr h)
  have hexpired := deadlineOpen_ge (w := asked w len) h0 hfirst
  have hpass : readPass port off len timeout .none timeoutError
      ⟨timeElapsedInit (w.clock w.ticks), mem, 0⟩ (asked w len) = _ := readPass_expired hexpired
  rw [uartReadBlockError_start hlen hwait]
  cases timeoutError with
  | true => exact Run.iterate_of_error hpass
  | false => exact Run.iterate_of_inr hpass

/-! ## Realising an outcome -/

/-- A clock that shows 0, except for the readings `late`. -/
def lateAt (late : List Nat) : Nat → UInt32 := fun i => if i ∈ late then 0xFFFFFFFF else 0

/-- A world in which `stream` arrives on every port, the driver answers `reads`, and the readings
`late` of the clock are late. -/
def scheduled (stream : List UInt8) (reads : List Answer) (late : List Nat) : World :=
  { rx := fun _ => stream
    tx := fun _ => []
    reads := reads
    writes := []
    clock := lateAt late
    ticks := 0
    period := 0
    wait := fun _ => .ok true
    available := fun _ => .ok true
    log := [] }

theorem lateAt_mem {late : List Nat} {i : Nat} (h : i ∈ late) : lateAt late i = 0xFFFFFFFF :=
  if_pos h

theorem lateAt_not_mem {late : List Nat} {i : Nat} (h : i ∉ late) : lateAt late i = 0 := if_neg h

theorem firstLook_zero (h₀ : w.clock w.ticks = 0) (h₁ : w.clock (w.ticks + 1) = 0) :
    firstLook w = (0, ⟨0, 0, 0⟩) := by
  unfold firstLook
  rw [h₀, h₁]
  rfl

theorem secondLook_late (h₀ : w.clock w.ticks = 0) (h₁ : w.clock (w.ticks + 1) = 0)
    (h₂ : w.clock (w.ticks + 2) = 0xFFFFFFFF) : (secondLook w).1 = 0xFFFFFFFF := by
  unfold secondLook
  rw [firstLook_zero h₀ h₁, h₂]
  rfl

theorem zero_lt_of_ne {timeout : UInt32} (h : timeout ≠ 0) : 0 < timeout := by
  have h' : timeout.toNat ≠ 0 := fun h0 => h (UInt32.toNat_inj.mp h0)
  exact Nat.pos_of_ne_zero h'

/-- A read whose first look finds that no time has passed is in time. -/
theorem inTime_of_firstLook (h : firstLook w = (0, ⟨0, 0, 0⟩)) : InTime timeout w := by
  by_cases h0 : timeout = 0
  · exact .inl h0
  · right
    rw [h]
    exact zero_lt_of_ne h0

theorem inTime_before (h₀ : w.clock w.ticks = 0) (h₁ : w.clock (w.ticks + 1) = 0) :
    InTime timeout w := inTime_of_firstLook (firstLook_zero h₀ h₁)

theorem not_max_lt (timeout : UInt32) : ¬ 0xFFFFFFFF < timeout := by
  intro h
  have h' : 0xFFFFFFFF < timeout.toNat := h
  have hlt := timeout.toNat_lt
  omega

/-- Any part `k` of what is asked for can be what a read comes back with. -/
theorem read_realised {late : List Nat} {k : Nat} {rest : List Answer}
    (hclock : w.clock = lateAt late) (hwait : w.wait = fun _ => .ok true)
    (h₀ : w.ticks ∉ late) (h₁ : w.ticks + 1 ∉ late) (hlen : len ≠ 0) (hk : k ≤ len)
    (hpart : k < len → timeout ≠ 0 ∧ timeoutError = false ∧ w.ticks + 2 ∈ late)
    (hreads : w.reads = .bytes k :: rest) (hrx : k ≤ (w.rx port).length)
    (hstore : store mem off ((w.rx port).take k) = some mem') :
    ∃ w', uartReadBlockError port mem off len timeout .none timeoutError w = (.ok (k, mem'), w') ∧
      w'.rx port = (w.rx port).drop k ∧ w'.reads = rest ∧ w'.clock = w.clock ∧ w'.wait = w.wait ∧
      w'.ticks = if k < len then w.ticks + 3 else w.ticks + 1 + looks timeout := by
  have hready : w.wait (w.ticks + 1) = .ok true := by rw [hwait]
  have hlook := firstLook_zero (w := w) (by rw [hclock, lateAt_not_mem h₀])
    (by rw [hclock, lateAt_not_mem h₁])
  by_cases hlt : k < len
  · obtain ⟨h0, rfl, h₂⟩ := hpart hlt
    have hsecond := secondLook_late (w := w) (by rw [hclock, lateAt_not_mem h₀])
      (by rw [hclock, lateAt_not_mem h₁]) (by rw [hclock, lateAt_mem h₂])
    refine ⟨_, read_part hlt hready h0 ?_ ?_ hreads hrx hstore, ?_, rfl, rfl, rfl, ?_⟩
    · rw [hlook]
      exact zero_lt_of_ne h0
    · rw [hsecond]
      exact not_max_lt timeout
    · exact Function.update_self _ _ _
    · rw [if_pos hlt]
  · obtain rfl : k = len := Nat.le_antisymm hk (Nat.not_lt.mp hlt)
    refine ⟨_, read_whole hlen hready (inTime_of_firstLook hlook) hreads (Nat.le_refl _) hrx hstore,
      ?_, rfl, rfl, rfl, ?_⟩
    · exact Function.update_self _ _ _
    · rw [if_neg hlt]

end Nuhal.Link

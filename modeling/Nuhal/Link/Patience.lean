import Nuhal.Clock.Elapsed
import Nuhal.Link.Reader
import Nuhal.Link.Schedule

/-!
# How long the reader waits (`nuhal_all/src/protocol.c:211-260`)

`protocol.h` promises that `timeout` is the least time to wait for a packet and that 0 means to
wait for ever. Both deadlines are sums modulo `2 ^ 32`, and the body's is a number of its own also
for a timeout of 0: `10 * data_length`. So the body is given up although there should be no
timeout; a timeout close to `2 ^ 32` wraps around; and a body of no bytes reads as none at once.

* `TrueTime`, `Waited`: what a reading of the clock says about the time, and time that has passed.
* `uartReadBlockError_timed`: a blocking read that comes short has waited for its deadline.
* `LongEnough`: the timeouts and length bytes for which the sums keep the promise.
* **`read_patient_iff`**: the promise is kept on every schedule exactly then.
-/

namespace Nuhal.Link

open Nuhal.Lib Nuhal.All Nuhal.Clock

variable {n port off len : Nat} {mem : Vector UInt8 n} {timeout deadline : UInt32}
  {timeoutError : Bool} {τ : Nat → Nat} {w w₁ w' : World} {out : ProtocolPacket}
  {stream : List UInt8} {m : Vector UInt8 packetMaxLength}

/-- The `i`-th reading of the clock is the true time `τ i`, in ms, modulo the clock's period. -/
structure TrueTime (τ : Nat → Nat) (w : World) : Prop where
  mono : Monotone τ
  shows : ∀ i, (w.clock i).toNat = τ i % w.period.toNat

/-- From the first reading of the clock in `w` to the last one before `w'` there were `timeout` ms,
and the timeout was not 0. -/
def Waited (τ : Nat → Nat) (timeout : UInt32) (w w' : World) : Prop :=
  timeout ≠ 0 ∧ timeout.toNat ≤ τ (w'.ticks - 1) - τ w.ticks

/-- The call ended in a timeout error. -/
def TimedOut {α : Type} (r : Except Halt α) (w' : World) : Prop :=
  r = .error (.error "Timeout on blocking read.") ∧ w'.log.getLast? = some .expired

theorem not_timedOut {α : Type} {r : Except Halt α}
    (h : r ≠ .error (.error "Timeout on blocking read.")) : ¬ TimedOut r w' := fun h' => h h'.1

/-- `protocol_read_block_error` has waited for the timeout when it goes on with a header that has
not fully arrived, returns false or raises a timeout error. -/
structure Patient (τ : Nat → Nat) (port : Nat) (out : ProtocolPacket) (timeout : UInt32)
    (timeoutError : Bool) (w : World) : Prop where
  header : ∀ k m w₁, uartReadBlock port out._data 0 2 (headerTimeout timeout) .none w =
    (.ok (k, m), w₁) → k < 2 → Waited τ timeout w w₁
  nothing : ∀ packet w', protocolReadBlockError port out timeout timeoutError w =
    (.ok (false, packet), w') → Waited τ timeout w w'
  error : ∀ r w', protocolReadBlockError port out timeout timeoutError w = (r, w') →
    TimedOut r w' → Waited τ timeout w w'

/-! ## The clock along a read -/

/-- The clock is the one of `w` and was read since; the stamp is from its last reading. -/
structure OnClock (τ : Nat → Nat) (w : World) (stamp : TimeElapsed) (w' : World) : Prop where
  clock : w'.clock = w.clock
  period : w'.period = w.period
  later : w.ticks < w'.ticks
  current : stamp.currTime.toNat = τ (w'.ticks - 1) % w.period.toNat
  elapsed : stamp.elapsedTime.toNat ≤ τ (w'.ticks - 1) - τ w.ticks

/-- How a blocking read ends, by the clock. -/
structure Timed (τ : Nat → Nat) (len : Nat) (timeout : UInt32) (w : World)
    (r : Except Halt (Nat × Vector UInt8 n)) (w' : World) : Prop where
  clock : w'.clock = w.clock
  period : w'.period = w.period
  later : w.ticks ≤ w'.ticks
  short : ∀ k mem', r = .ok (k, mem') → k < len → Waited τ timeout w w'
  error : TimedOut r w' → Waited τ timeout w w'

/-- A look at the clock keeps the stamp up to date, and one that finds the deadline passed comes
after the deadline. -/
theorem deadlineOpen_timed {stamp : TimeElapsed} (htime : TrueTime τ w)
    (h : OnClock τ w stamp w₁) : ∃ isOpen stamp' w₂,
      deadlineOpen timeout stamp w₁ = (.ok (isOpen, stamp'), w₂) ∧ OnClock τ w stamp' w₂ ∧
      w₂.reads = w₁.reads ∧ (isOpen = false → Waited τ timeout w w₂) := by
  by_cases h0 : timeout = 0
  · subst h0
    exact ⟨true, stamp, w₁, deadlineOpen_zero _ _, h, rfl, nofun⟩
  · have hbefore : τ w.ticks ≤ τ (w₁.ticks - 1) := htime.mono (Nat.le_sub_one_of_lt h.later)
    have hstep : τ (w₁.ticks - 1) ≤ τ w₁.ticks := htime.mono (Nat.sub_le _ _)
    have hnow : (w₁.clock w₁.ticks).toNat = τ w₁.ticks % w₁.period.toNat := by
      rw [h.clock, h.period]
      exact htime.shows _
    have hcurrent := h.current
    rw [← h.period] at hcurrent
    have hsum := timeElapsed_le hcurrent h.elapsed hbefore hstep hnow
    have hkept : OnClock τ w (timeElapsed w₁.period stamp (w₁.clock w₁.ticks)).2
        { w₁ with ticks := w₁.ticks + 1 } :=
      ⟨h.clock, h.period, Nat.lt_succ_of_lt h.later, by rw [← h.period]; exact hnow, hsum⟩
    by_cases hlt : (timeElapsed w₁.period stamp (w₁.clock w₁.ticks)).1 < timeout
    · exact ⟨_, _, _, deadlineOpen_lt h0 hlt, hkept, rfl, nofun⟩
    · refine ⟨_, _, _, deadlineOpen_ge h0 hlt, ⟨hkept.clock, hkept.period, hkept.later,
        hkept.current, hkept.elapsed⟩, rfl, fun _ => ⟨h0, ?_⟩⟩
      exact Nat.le_trans (UInt32.le_iff_toNat_le.mp (UInt32.not_lt.mp hlt)) hsum

/-- The driver does not touch the clock, and its errors are in the log. -/
theorem uartReadNonblock_timed {r : Except Halt (Nat × Vector UInt8 n)} {w₂ : World}
    (h : uartReadNonblock port mem off len w₁ = (r, w₂)) :
    w₂.clock = w₁.clock ∧ w₂.period = w₁.period ∧ w₂.ticks = w₁.ticks ∧ ¬ TimedOut r w₂ ∧
      (∀ k mem', r = .ok (k, mem') → w₂.reads.length < w₁.reads.length) := by
  cases hreads : w₁.reads with
  | nil =>
    rw [uartReadNonblock_pending hreads] at h
    cases h
    exact ⟨rfl, rfl, rfl, not_timedOut nofun, nofun⟩
  | cons answer rest =>
    cases answer with
    | fail msg =>
      rw [uartReadNonblock_fail hreads] at h
      cases h
      refine ⟨rfl, rfl, rfl, fun h => ?_, nofun⟩
      have hlast := h.2
      rw [List.getLast?_concat] at hlast
      cases hlast
    | bytes count =>
      cases hv : store mem off (w₁.incoming port count len) with
      | none =>
        rw [uartReadNonblock_undefined hreads hv] at h
        cases h
        exact ⟨rfl, rfl, rfl, not_timedOut nofun, nofun⟩
      | some mem' =>
        rw [uartReadNonblock_ok hreads hv] at h
        cases h
        exact ⟨rfl, rfl, rfl, not_timedOut nofun, fun _ _ _ => Nat.lt_succ_self _⟩

/-- One pass of the read loop. -/
theorem readPass_timed {st : Reading n} (htime : TrueTime τ w) (h : OnClock τ w st.stamp w₁) :
    (readPass port off len timeout .none timeoutError st).Ends w₁
      (Run.Pass (fun st w' => OnClock τ w st.stamp w') (fun w' => w'.reads.length)
        (Timed τ len timeout w) w₁.reads.length) := by
  obtain ⟨isOpen, stamp, w₂, hlook, hclock, hreads, hwaited⟩ :=
    deadlineOpen_timed htime h
  cases isOpen with
  | false =>
    refine Run.ends_of_eq (readPass_expired hlook) ?_
    have htimed : ∀ r : Except Halt (Nat × Vector UInt8 n), Timed τ len timeout w r w₂ := fun r =>
      ⟨hclock.clock, hclock.period, Nat.le_of_lt hclock.later, fun _ _ _ _ => hwaited rfl,
        fun _ => hwaited rfl⟩
    cases timeoutError with
    | true => exact htimed _
    | false => exact htimed _
  | true =>
    rcases hpoll : uartReadNonblock port st.mem (off + st.read) (len - st.read) w₂ with ⟨r, w₃⟩
    obtain ⟨hsame, hperiod, hticks, hno, hfewer⟩ := uartReadNonblock_timed hpoll
    refine Run.ends_of_eq (readPass_open timeoutError st hlook hpoll) ?_
    have hclock₃ : w₃.clock = w.clock := hsame.trans hclock.clock
    have hperiod₃ : w₃.period = w.period := hperiod.trans hclock.period
    have hlater : w.ticks < w₃.ticks := hticks ▸ hclock.later
    match r with
    | .error e =>
      refine ⟨hclock₃, hperiod₃, Nat.le_of_lt hlater, nofun, fun h => ?_⟩
      exact absurd ⟨congrArg (Except.error (α := Nat × Vector UInt8 n)) (Except.error.inj h.1), h.2⟩
        hno
    | .ok (k, mem') =>
      unfold polled
      by_cases hfull : st.read + k = len
      · simp only [if_pos hfull]
        refine ⟨hclock₃, hperiod₃, Nat.le_of_lt hlater, fun _ _ h hlt => ?_,
          fun h => absurd h (not_timedOut nofun)⟩
        cases h
        exact absurd hfull (Nat.ne_of_lt hlt)
      · simp only [if_neg hfull]
        have hlength := hfewer k mem' rfl
        rw [hreads] at hlength
        exact ⟨⟨hclock₃, hperiod₃, hlater, hticks ▸ hclock.current, hticks ▸ hclock.elapsed⟩,
          hlength⟩

/-- **A blocking read that comes short has waited for its deadline.** -/
theorem uartReadBlockError_timed (port : Nat) (mem : Vector UInt8 n) (off len : Nat)
    (timeout : UInt32) (timeoutError : Bool) (htime : TrueTime τ w) :
    (uartReadBlockError port mem off len timeout .none timeoutError).Ends w
      (Timed τ len timeout w) := by
  by_cases hlen : len = 0
  · subst hlen
    refine Run.ends_of_eq (uartReadBlockError_zero w) ⟨rfl, rfl, Nat.le_refl _, ?_, ?_⟩
    · exact fun _ _ _ hlt => absurd hlt (Nat.not_lt_zero _)
    · exact fun h => absurd h (not_timedOut nofun)
  · cases hwait : w.wait (w.ticks + 1) with
    | error msg =>
      refine Run.ends_of_eq (uartReadBlockError_wait hlen hwait) ⟨rfl, rfl, Nat.le_succ _, ?_, ?_⟩
      · exact nofun
      · intro h
        have hlast := h.2
        unfold World.logged at hlast
        rw [List.getLast?_concat] at hlast
        cases hlast
    | ok ready =>
      unfold Run.Ends
      rw [uartReadBlockError_start hlen hwait]
      refine Run.iterate_ends (fun _ _ h => readPass_timed htime h) _ _ _ (Nat.lt_succ_self _) ?_
      exact ⟨rfl, rfl, Nat.lt_succ_self _, htime.shows _, Nat.zero_le _⟩

/-! ## The two deadlines -/

/-- The header's deadline is none, or no less than the timeout. -/
def HeaderWaits (timeout : UInt32) : Prop :=
  headerTimeout timeout = 0 ∨ timeout ≤ headerTimeout timeout

/-- A body is asked for, and its deadline is none, or no less than the timeout if there is one. -/
def BodyWaits (timeout dataLength : UInt32) : Prop :=
  dataLength ≠ 0 ∧ (bodyTimeout dataLength timeout = 0 ∨
    timeout ≠ 0 ∧ timeout ≤ bodyTimeout dataLength timeout)

/-- A length byte whose body is waited for: the sum `10 * (length - 2) + timeout` does not wrap
around; for a length byte of 1 the sum is `timeout - 10` and has to. -/
def LengthAllows (timeout : UInt32) (length : UInt8) : Prop :=
  timeout ≠ 0 ∧ (length = 1 ∧ timeout.toNat ≤ 10 ∨
    3 ≤ length.toNat ∧ 10 * (length.toNat - 2) + timeout.toNat ≤ 2 ^ 32)

/-- The header's deadline does not wrap around, and if two bytes come, then neither does that of
the body that the first of them asks for. -/
def LongEnough (timeout : UInt32) (stream : List UInt8) : Prop :=
  timeout.toNat ≤ 2 ^ 32 - 20 ∧
    ∀ length checksum rest, stream = length :: checksum :: rest → LengthAllows timeout length

theorem headerTimeout_toNat (h0 : timeout ≠ 0) :
    (headerTimeout timeout).toNat = (timeout.toNat + 20) % 2 ^ 32 := by
  unfold headerTimeout
  rw [if_neg h0, UInt32.toNat_add]
  rfl

theorem bodyTimeout_toNat (dataLength timeout : UInt32) :
    (bodyTimeout dataLength timeout).toNat = (10 * dataLength.toNat + timeout.toNat) % 2 ^ 32 := by
  unfold bodyTimeout
  rw [UInt32.toNat_add, UInt32.toNat_mul]
  show (10 * dataLength.toNat % 2 ^ 32 + timeout.toNat) % 2 ^ 32 = _
  rw [Nat.mod_add_mod]

theorem eq_zero_iff_toNat {x : UInt32} : x = 0 ↔ x.toNat = 0 := UInt32.toNat_inj.symm

theorem headerWaits_iff : HeaderWaits timeout ↔ timeout.toNat ≤ 2 ^ 32 - 20 := by
  have hlt := timeout.toNat_lt
  unfold HeaderWaits
  by_cases h0 : timeout = 0
  · subst h0
    exact ⟨fun _ => Nat.zero_le _, fun _ => .inl rfl⟩
  · have hsum := headerTimeout_toNat h0
    rw [eq_zero_iff_toNat, UInt32.le_iff_toNat_le, hsum]
    omega

/-- The sum for a body of at most 253 bytes. -/
theorem sum_waits {t k : Nat} (ht : t < 2 ^ 32) (hk : k ≤ 253) :
    k ≠ 0 ∧ ((10 * k + t) % 2 ^ 32 = 0 ∨ t ≠ 0 ∧ t ≤ (10 * k + t) % 2 ^ 32) ↔
      t ≠ 0 ∧ k ≠ 0 ∧ 10 * k + t ≤ 2 ^ 32 := by
  rcases Nat.lt_trichotomy (10 * k + t) (2 ^ 32) with h | h | h
  · rw [Nat.mod_eq_of_lt h]
    omega
  · rw [h, Nat.mod_self]
    omega
  · rw [Nat.mod_eq_sub_mod (Nat.le_of_lt h), Nat.mod_eq_of_lt (by omega)]
    omega

/-- The sum for the body that a length byte of 1 asks for. -/
theorem sum_waits_one {t : Nat} (ht : t < 2 ^ 32) :
    (10 * (2 ^ 32 - 1) + t) % 2 ^ 32 = 0 ∨ t ≠ 0 ∧ t ≤ (10 * (2 ^ 32 - 1) + t) % 2 ^ 32 ↔
      t ≠ 0 ∧ t ≤ 10 := by
  have hless : (10 * (2 ^ 32 - 1) + t) % 2 ^ 32 = (2 ^ 32 - 10 + t) % 2 ^ 32 := by omega
  rw [hless]
  omega

theorem bodyWaits_iff : BodyWaits timeout (bodyLength m) ↔ LengthAllows timeout m[0] := by
  have hlt := timeout.toNat_lt
  unfold BodyWaits LengthAllows
  rw [ne_eq, ne_eq, eq_zero_iff_toNat, eq_zero_iff_toNat, eq_zero_iff_toNat,
    UInt32.le_iff_toNat_le, bodyTimeout_toNat]
  by_cases hone : m[0] = 1
  · have hbyte : ¬ 3 ≤ m[0].toNat := by
      rw [hone]
      decide
    rw [bodyLength_one hone, and_iff_right (show ¬ 2 ^ 32 - 1 = 0 by decide),
      sum_waits_one hlt, and_iff_right hone, or_iff_left fun h => hbyte h.1]
  · have hbyte := m[0].toNat_lt
    rw [bodyLength_ne_one hone, sum_waits hlt (by omega), or_iff_right fun h => hone h.1]
    omega

/-! ## The promise kept -/

/-- A packet reader that returned false, or ended in a timeout error, after the header's read left
`m`: so did the body's read. -/
theorem readBody_gives_up {r : Except Halt (Bool × ProtocolPacket)}
    (h : readBody port m timeout timeoutError w = (r, w'))
    (hr : (∃ packet, r = .ok (false, packet)) ∨ TimedOut r w') :
    ∃ r', uartReadBlockError port m 2 (bodyLength m).toNat (bodyTimeout (bodyLength m) timeout)
      .none timeoutError w = (r', w') ∧ ((∃ m', r' = .ok (0, m')) ∨ TimedOut r' w') := by
  rcases hread : uartReadBlockError port m 2 (bodyLength m).toNat
    (bodyTimeout (bodyLength m) timeout) .none timeoutError w with ⟨r', w₁⟩
  obtain ⟨body, hreads⟩ := (uartReadBlockError_reads port m 2 (bodyLength m).toNat
    (bodyTimeout (bodyLength m) timeout) timeoutError w (by decide)).elim hread
  have hbody := h
  unfold readBody at hbody
  match r', hread, hreads with
  | .error e, hread, _ =>
    rw [Run.bind_of_error hread] at hbody
    cases hbody
    rcases hr with ⟨packet, hr⟩ | hr
    · cases hr
    · exact ⟨_, rfl, .inr ⟨congrArg Except.error (Except.error.inj hr.1), hr.2⟩⟩
  | .ok (k, m'), hread, hreads =>
    rw [Run.bind_of_ok hread] at hbody
    dsimp only at hbody
    by_cases hk : k = 0
    · rw [if_pos hk] at hbody
      cases hbody
      exact ⟨_, rfl, .inl ⟨m', by rw [hk]⟩⟩
    · rw [if_neg hk] at hbody
      exfalso
      obtain rfl := hreads.ends.1
      change verified m' w₁ = (r, w') at hbody
      rcases verified_eq hreads fun hnil => hk (by rw [hnil]; rfl) with
        ⟨-, heq⟩ | ⟨-, -, heq⟩ | ⟨-, -, heq⟩
      all_goals
        obtain rfl := (Prod.mk.inj (hbody.symm.trans heq)).1
        rcases hr with ⟨packet, hr⟩ | ⟨hr, -⟩
        · nomatch hr
        · simp at hr

theorem Waited.mono {start stop : World} (htime : TrueTime τ w)
    (h : Waited τ deadline start stop) (h0 : timeout ≠ 0) (hle : timeout ≤ deadline)
    (hstart : w.ticks ≤ start.ticks) (hstop : stop.ticks ≤ w'.ticks) : Waited τ timeout w w' := by
  have hfirst : τ w.ticks ≤ τ start.ticks := htime.mono hstart
  have hlast : τ (stop.ticks - 1) ≤ τ (w'.ticks - 1) := htime.mono (Nat.sub_le_sub_right hstop 1)
  have hdeadline := h.2
  have hle' := UInt32.le_iff_toNat_le.mp hle
  exact ⟨h0, by omega⟩

/-- A wait for the header's deadline is a wait for the timeout. -/
theorem waited_header (htime : TrueTime τ w) (hheader : HeaderWaits timeout)
    (h : Waited τ (headerTimeout timeout) w w₁) : Waited τ timeout w w₁ := by
  have h0 : timeout ≠ 0 := by
    rintro rfl
    exact h.1 rfl
  exact h.mono htime h0 (hheader.resolve_left h.1) (Nat.le_refl _) (Nat.le_refl _)

/-- And one for the body's deadline, if that keeps the promise. -/
theorem waited_body {dataLength : UInt32} (htime : TrueTime τ w)
    (hbody : BodyWaits timeout dataLength) (hlater : w.ticks ≤ w₁.ticks)
    (h : Waited τ (bodyTimeout dataLength timeout) w₁ w') : Waited τ timeout w w' := by
  obtain ⟨h0, hle⟩ := hbody.2.resolve_left h.1
  exact h.mono htime h0 hle hlater (Nat.le_refl _)

/-- A header that came whole has a length byte that keeps the promise. -/
theorem bodyWaits_of_reads {header : List UInt8} {r : Except Halt _}
    (hlong : LongEnough timeout (w.rx port))
    (hread : HeaderReads port out timeout header w r w₁) (hr : r = .ok (2, m))
    (hwhole : header.length = 2) : BodyWaits timeout (bodyLength m) := by
  subst hr
  obtain ⟨-, hstore, -⟩ := hread.ends
  match header, hwhole with
  | [length, checksum], _ =>
    have hallows := hlong.2 length checksum _ hread.taken.rx
    rw [bodyWaits_iff, lengthByte_header hstore]
    exact hallows

/-- **With a timeout that is long enough the promise is kept.** -/
theorem patient_of_longEnough (htime : TrueTime τ w) (hlong : LongEnough timeout (w.rx port)) :
    Patient τ port out timeout timeoutError w := by
  have hheader := headerWaits_iff.mpr hlong.1
  have hshort : ∀ k m w₁, uartReadBlock port out._data 0 2 (headerTimeout timeout) .none w =
      (.ok (k, m), w₁) → k < 2 → Waited τ timeout w w₁ := by
    intro k m w₁ hread hk
    have htimed := (uartReadBlockError_timed port out._data 0 2 (headerTimeout timeout) false
      htime).elim hread
    exact waited_header htime hheader (htimed.short k m rfl hk)
  have hgives : ∀ r w', protocolReadBlockError port out timeout timeoutError w = (r, w') →
      ((∃ packet, r = .ok (false, packet)) ∨ TimedOut r w') → Waited τ timeout w w' := by
    intro r w' hcall hr
    rcases hread : uartReadBlock port out._data 0 2 (headerTimeout timeout) .none w with ⟨r₁, w₁⟩
    have htimed := (uartReadBlockError_timed port out._data 0 2 (headerTimeout timeout) false
      htime).elim hread
    match r₁, hread, htimed with
    | .error e, hread, htimed =>
      rw [protocolReadBlockError_header_error hread] at hcall
      cases hcall
      rcases hr with ⟨packet, hr⟩ | hr
      · nomatch hr
      · exact waited_header htime hheader
          (htimed.error ⟨congrArg Except.error (Except.error.inj hr.1), hr.2⟩)
    | .ok (k, m), hread, htimed =>
      rw [protocolReadBlockError_of_header hread] at hcall
      obtain ⟨r', hbody, hr'⟩ := readBody_gives_up hcall hr
      have htime₁ : TrueTime τ w₁ := ⟨htime.mono, by
        rw [htimed.clock, htimed.period]
        exact htime.shows⟩
      have htimed' := (uartReadBlockError_timed port m 2 (bodyLength m).toNat
        (bodyTimeout (bodyLength m) timeout) timeoutError htime₁).elim hbody
      by_cases hk : k < 2
      · have hwaited := hshort k m w₁ hread hk
        exact hwaited.mono htime hwaited.1 (UInt32.le_refl _) (Nat.le_refl _) htimed'.later
      · obtain ⟨header, hreads⟩ := (uartReadBlockError_reads port out._data 0 2
          (headerTimeout timeout) false w (Nat.zero_le _)).elim hread
        have hle := hreads.le
        obtain rfl := hreads.ends.1
        have hwhole : header.length = 2 := by omega
        have hwaits := bodyWaits_of_reads hlong hreads (by rw [hwhole]) hwhole
        have hpos : 0 < (bodyLength m).toNat :=
          Nat.pos_of_ne_zero fun h => hwaits.1 (eq_zero_iff_toNat.mpr h)
        refine waited_body htime hwaits htimed.later ?_
        rcases hr' with ⟨m', rfl⟩ | hr'
        · exact htimed'.short 0 m' rfl hpos
        · exact htimed'.error hr'
  exact ⟨hshort, fun packet w' hcall => hgives _ w' hcall (.inl ⟨packet, rfl⟩),
    fun r w' hcall hr => hgives r w' hcall (.inr hr)⟩

/-! ## The promise broken -/

/-- The time along the readings of a clock: 0, and from the reading `late` on `deadline`. -/
def jump (late : Nat) (deadline : UInt32) : Nat → Nat :=
  fun i => if i < late then 0 else deadline.toNat

/-- A world in which it is that time, on a clock that rolls over after `UINT32_MAX`. -/
def hurried (stream : List UInt8) (reads : List Answer) (late : Nat) (deadline : UInt32) : World :=
  { scheduled stream reads [] with
    clock := fun i => if i < late then 0 else deadline
    period := 0xFFFFFFFF }

theorem hurried_trueTime {reads : List Answer} {late : Nat} (h : deadline.toNat < 2 ^ 32 - 1) :
    TrueTime (jump late deadline) (hurried stream reads late deadline) := by
  refine ⟨fun i j hij => ?_, fun i => ?_⟩
  · show (if i < late then 0 else deadline.toNat) ≤ if j < late then 0 else deadline.toNat
    by_cases hi : i < late
    · rw [if_pos hi]
      exact Nat.zero_le _
    · rw [if_neg hi, if_neg (by omega)]
  · show (if i < late then 0 else deadline : UInt32).toNat =
      (if i < late then 0 else deadline.toNat) % (2 ^ 32 - 1)
    by_cases hi : i < late
    · rw [if_pos hi, if_pos hi]
      rfl
    · rw [if_neg hi, if_neg hi, Nat.mod_eq_of_lt h]

/-- Before the jump a read is in time (`inTime_before`). One that starts right before it is not. -/
theorem late_after (h0 : deadline ≠ 0) (h₀ : w.clock w.ticks = 0)
    (h₁ : w.clock (w.ticks + 1) = deadline) : ¬ InTime deadline w := by
  rintro (h | h)
  · exact h0 h
  · unfold firstLook timeElapsed timeElapsedInit at h
    rw [h₀, h₁] at h
    dsimp only at h
    rw [if_pos (UInt32.zero_le), UInt32.sub_zero, UInt32.zero_add] at h
    exact UInt32.lt_irrefl _ h

/-- The header's deadline wraps around: the header is given up early. -/
theorem header_hurried (h : ¬ HeaderWaits timeout) :
    ¬ Patient (jump 1 (headerTimeout timeout)) port out timeout timeoutError
      (hurried stream [] 1 (headerTimeout timeout)) := by
  obtain ⟨h0, hless⟩ := not_or.mp h
  intro hpatient
  have hlate : ¬ InTime (headerTimeout timeout) (hurried stream [] 1 (headerTimeout timeout)) :=
    late_after h0 rfl rfl
  have hwaited := hpatient.header _ _ _ (read_late (by decide) rfl hlate) (by decide)
  exact hless (UInt32.le_iff_toNat_le.mpr hwaited.2)

/-- A header that comes at once. -/
theorem header_prompt (port : Nat) (timeout deadline : UInt32) {length checksum : UInt8}
    (rest : List UInt8) {late : Nat} (hstore : store out._data 0 [length, checksum] = some m)
    (hlate : 2 ≤ late) : ∃ w₁,
      uartReadBlock port out._data 0 2 (headerTimeout timeout) .none
        (hurried (length :: checksum :: rest) [.bytes 2] late deadline) = (.ok (2, m), w₁) ∧
      w₁.ticks = 1 + looks (headerTimeout timeout) ∧
      w₁.clock = (fun i => if i < late then 0 else deadline) ∧ w₁.wait = fun _ => .ok true := by
  refine ⟨_, read_whole (by decide) rfl (inTime_before (if_pos ?_) (if_pos ?_)) rfl (Nat.le_refl _)
    ?_ hstore, Nat.zero_add _ ▸ rfl, rfl, rfl⟩
  · exact Nat.lt_of_lt_of_le Nat.zero_lt_two hlate
  · exact hlate
  · exact Nat.le_add_left _ _

/-- A body that is not asked for, or whose deadline breaks the promise: it is given up early. -/
theorem body_hurried {length checksum : UInt8} {rest : List UInt8}
    (hstore : store out._data 0 [length, checksum] = some m)
    (h : ¬ BodyWaits timeout (bodyLength m)) : ∃ late deadline, deadline.toNat < 2 ^ 32 - 1 ∧
      ¬ Patient (jump late deadline) port out timeout timeoutError
        (hurried (length :: checksum :: rest) [.bytes 2] late deadline) := by
  by_cases hempty : bodyLength m = 0
  · refine ⟨2, 0, by decide, fun hpatient => ?_⟩
    obtain ⟨w₁, hread, -, -, -⟩ := header_prompt port timeout 0 rest hstore (Nat.le_refl 2)
    have hcall : protocolReadBlockError port out timeout timeoutError
        (hurried (length :: checksum :: rest) [.bytes 2] 2 0) =
          (.ok (false, fresh m), w₁.logged (.ask 0)) :=
      (protocolReadBlockError_of_header hread).trans (readBody_empty (by rw [hempty]; rfl))
    have hwaited := hpatient.nothing _ _ hcall
    refine hwaited.1 (eq_zero_iff_toNat.mpr (Nat.le_zero.mp (Nat.le_trans hwaited.2 ?_)))
    exact Nat.le_trans (Nat.sub_le _ _) (by unfold jump; split <;> exact Nat.le_refl _)
  · obtain ⟨h0, hless⟩ := not_or.mp (not_and.mp h hempty)
    have hdeadline : (bodyTimeout (bodyLength m) timeout).toNat < 2 ^ 32 - 1 := by
      have hlt := timeout.toNat_lt
      rcases not_and_or.mp hless with hzero | hbelow
      · have hsum := bodyTimeout_toNat (bodyLength m) timeout
        rw [eq_zero_iff_toNat.mp (not_not.mp hzero)] at hsum
        omega
      · have hbelow' := UInt32.lt_iff_toNat_lt.mp (UInt32.not_le.mp hbelow)
        omega
    refine ⟨2 + looks (headerTimeout timeout), bodyTimeout (bodyLength m) timeout, hdeadline,
      fun hpatient => ?_⟩
    obtain ⟨w₁, hread, hticks, hclock, hwait⟩ := header_prompt port timeout
      (bodyTimeout (bodyLength m) timeout) rest hstore
      (Nat.le_add_right 2 (looks (headerTimeout timeout)))
    have hlate : ¬ InTime (bodyTimeout (bodyLength m) timeout) w₁ := by
      refine late_after h0 ?_ ?_
      · rw [hclock, hticks]
        exact if_pos (by omega)
      · rw [hclock, hticks]
        exact if_neg (by omega)
    have hbody := @read_late packetMaxLength port 2 _ _ timeoutError m w₁ true
      (fun h => hempty (eq_zero_iff_toNat.mpr h)) (by rw [hwait]) hlate
    have hcall : protocolReadBlockError port out timeout timeoutError _ =
        readBody port m timeout timeoutError w₁ := protocolReadBlockError_of_header hread
    have hbroken : ∀ w', w'.ticks = w₁.ticks + 2 → ¬ Waited
        (jump (2 + looks (headerTimeout timeout)) (bodyTimeout (bodyLength m) timeout)) timeout
        (hurried (length :: checksum :: rest) [.bytes 2] (2 + looks (headerTimeout timeout))
          (bodyTimeout (bodyLength m) timeout)) w' := by
      intro w' hw' hwaited
      refine hless ⟨hwaited.1, UInt32.le_iff_toNat_le.mpr (Nat.le_trans hwaited.2 ?_)⟩
      refine Nat.le_trans (Nat.sub_le _ _) ?_
      unfold jump
      split
      · exact Nat.zero_le _
      · exact Nat.le_refl _
    cases timeoutError with
    | true =>
      refine hbroken _ rfl (hpatient.error _ _ (hcall.trans (Run.bind_of_error hbody _)) ⟨rfl, ?_⟩)
      exact List.getLast?_concat
    | false => exact hbroken _ rfl (hpatient.nothing _ _ (hcall.trans (readBody_nothing hbody)))

/-- **When the promised wait is honoured.** -/
theorem read_patient_iff (port : Nat) (out : ProtocolPacket) (timeout : UInt32)
    (timeoutError : Bool) (stream : List UInt8) :
    (∀ (w : World) (τ : Nat → Nat), w.rx port = stream → TrueTime τ w →
      Patient τ port out timeout timeoutError w) ↔ LongEnough timeout stream := by
  constructor
  · intro h
    refine ⟨?_, ?_⟩
    · by_contra hno
      have hheader : ¬ HeaderWaits timeout := fun h => hno (headerWaits_iff.mp h)
      refine header_hurried hheader (h _ _ rfl (hurried_trueTime ?_))
      have hlt := timeout.toNat_lt
      have hbelow := UInt32.lt_iff_toNat_lt.mp (UInt32.not_le.mp (not_or.mp hheader).2)
      omega
    · rintro length checksum rest rfl
      obtain ⟨m, hstore⟩ := exists_store out._data
        (show 0 + [length, checksum].length ≤ packetMaxLength from Nat.le_add_left 2 253)
      by_contra hno
      have hbody : ¬ BodyWaits timeout (bodyLength m) := by
        rw [bodyWaits_iff, lengthByte_header hstore]
        exact hno
      obtain ⟨late, deadline, hdeadline, hbad⟩ := body_hurried hstore hbody
      exact hbad (h _ _ rfl (hurried_trueTime hdeadline))
  · rintro hlong w τ rfl htime
    exact patient_of_longEnough htime hlong

/-- A timeout of 0 is to be none. The header `04 05` has come, the two bytes behind it have not:
after 20 ms the packet is given up. -/
theorem read_impatient :
    let w := hurried [0x04, 0x05] [.bytes 2] 2 20
    ∃ packet w', protocolReadBlockError 0 zeroPacket 0 false w = (.ok (false, packet), w') ∧
      TrueTime (jump 2 20) w ∧ jump 2 20 (w'.ticks - 1) - jump 2 20 w.ticks = 20 ∧
      ¬ Patient (jump 2 20) 0 zeroPacket 0 false w := by
  intro w
  have hresult : (protocolReadBlockError 0 zeroPacket 0 false w).1.toOption.map
      (fun result => result.1) = some false := by decide +kernel
  have hticks : (protocolReadBlockError 0 zeroPacket 0 false w).2.ticks = 3 := by decide +kernel
  rcases hcall : protocolReadBlockError 0 zeroPacket 0 false w with ⟨r, w'⟩
  rw [hcall] at hresult hticks
  match r, hcall, hresult with
  | .ok (false, packet), hcall, _ =>
    change w'.ticks = 3 at hticks
    refine ⟨packet, w', rfl, hurried_trueTime (by decide), ?_, fun hpatient => ?_⟩
    · rw [hticks]
      rfl
    · exact (hpatient.nothing _ _ hcall).1 rfl

end Nuhal.Link

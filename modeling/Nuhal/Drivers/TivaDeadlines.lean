import Nuhal.Drivers.Deadlines
import Nuhal.Tiva.Driver
import Nuhal.Tiva.Time

/-!
# Deadlines on the Tiva (`nuhal_tiva/src/uart_tiva.c:181-229, 273-288`)

The board's time is that of SysTick, in ticks. Each function of TivaWare takes at most `cost` of
them, and looking at SysTick takes some (`OnSysTick`). What it does otherwise is left open: the
receive FIFO may be filled as fast as it is read, and the transmit FIFO may never have room.

* `getChars_inTime`: the loop of `uart_read_nonblock` ends, since the block does.
* `uartWaitForData_inTime`: the poll.
* `tivaDriver_paced`: so this driver has a pace.
* **`tiva_ends`**: a program whose calls have deadlines ends on the Tiva.
-/

namespace Nuhal.Drivers

open Nuhal.Lib Nuhal.Lib.Run Nuhal.All Nuhal.Clock Nuhal.Tiva

variable {n : Nat} {σ α : Type} {lib : UartWare σ} {tick : SysTick} {perMs cost : Nat}
  {clock : σ → Nat}

/-- The board runs on SysTick. -/
structure OnSysTick (lib : UartWare σ) (tick : SysTick) (perMs cost : Nat) (clock : σ → Nat) :
    Prop where
  ticking : Ticking tick perMs
  period : lib.period = timePeriodMs tick
  shows : ∀ s, (lib.timeCurrentMs s).1 = sysTickRead tick (clock (lib.timeCurrentMs s).2)
  goesOn : ∀ s, clock s < clock (lib.timeCurrentMs s).2
  looks : ∀ s, Spends clock cost s (lib.timeCurrentMs s).2
  gets : ∀ base s, Spends clock cost s (lib.uartCharGetNonBlocking base s).2
  puts : ∀ base c s, Spends clock cost s (lib.uartCharPutNonBlocking base c s).2
  errors : ∀ base s, Spends clock cost s (lib.uartRxErrorGet base s).2
  clears : ∀ base s, Spends clock cost s (lib.uartRxErrorClear base s)
  avails : ∀ base s, Spends clock cost s (lib.uartCharsAvail base s).2

/-- The time on the board. -/
def boardTime (clock : σ → Nat) (b : Board σ) : Nat := clock b.hardware

/-! ## The functions of TivaWare -/

theorem charGet_inTime (hlib : OnSysTick lib tick perMs cost clock) (base : UInt32) :
    (charGet lib.toTivaWare base).InTime (boardTime clock) .pending cost :=
  inTime_of_spends (fun _ => nofun) fun b => hlib.gets base b.hardware

theorem charPut_inTime (hlib : OnSysTick lib tick perMs cost clock) (base : UInt32) (c : UInt8) :
    (charPut lib.toTivaWare base c).InTime (boardTime clock) .pending cost :=
  inTime_of_spends (fun _ => nofun) fun b => hlib.puts base c b.hardware

theorem rxErrors_inTime (hlib : OnSysTick lib tick perMs cost clock) (base : UInt32) :
    (rxErrors lib.toTivaWare base).InTime (boardTime clock) .pending cost :=
  inTime_of_spends (fun _ => nofun) fun b => hlib.errors base b.hardware

theorem rxErrorClear_inTime (hlib : OnSysTick lib tick perMs cost clock) (base : UInt32) :
    (rxErrorClear lib.toTivaWare base).InTime (boardTime clock) .pending cost :=
  inTime_of_spends (fun _ h => by cases h) fun b => hlib.clears base b.hardware

theorem charsAvail_inTime (hlib : OnSysTick lib tick perMs cost clock) (base : UInt32) :
    (charsAvail lib base).InTime (boardTime clock) .pending cost :=
  inTime_of_spends (fun _ => nofun) fun b => hlib.avails base b.hardware

theorem currentMs_shows (hlib : OnSysTick lib tick perMs cost clock) (b : Board σ) :
    ∃ b', currentMs lib.toTivaWare b = (.ok (sysTickRead tick (boardTime clock b')), b') ∧
      boardTime clock b < boardTime clock b' ∧ boardTime clock b' ≤ boardTime clock b + cost :=
  ⟨{ b with hardware := (lib.timeCurrentMs b.hardware).2 },
    Prod.ext (congrArg Except.ok (hlib.shows b.hardware)) rfl, hlib.goesOn b.hardware,
    (hlib.looks b.hardware).2⟩

/-! ## Reading and writing -/

theorem putChars_inTime (hlib : OnSysTick lib tick perMs cost clock) (base : UInt32) :
    ∀ (data : List UInt8) (index : Nat), (putChars lib.toTivaWare base data index).InTime
      (boardTime clock) .pending (cost * data.length)
  | [], _ => InTime.pure _
  | c :: data, index => by
    refine ((charPut_inTime hlib base c).bind (l := cost * data.length) fun accepted => ?_).mono
      (Nat.le_of_eq (by rw [List.length_cons, Nat.mul_succ, Nat.add_comm]))
    cases accepted with
    | true => exact putChars_inTime hlib base data (index + 1)
    | false => exact (InTime.pure _).mono (Nat.zero_le _)

theorem storeChar_inTime (mem : Vector UInt8 n) (off index : Nat) (nextbyte : Int32) :
    (storeChar mem off index nextbyte : OnBoard σ _).InTime (boardTime clock) .pending 0 := by
  intro b
  unfold storeChar Ends
  split
  · exact ⟨nofun, Nat.le_refl _, Nat.le_refl _⟩
  · exact ⟨nofun, Nat.le_refl _, Nat.le_refl _⟩

theorem getChar_inTime (hlib : OnSysTick lib tick perMs cost clock) (base : UInt32)
    (off index : Nat) (mem : Vector UInt8 n) :
    (getChar lib base off index mem).InTime (boardTime clock) .pending (3 * cost) := by
  unfold getChar
  refine ((charGet_inTime hlib base).bind (l := 2 * cost) fun nextbyte => ?_).mono (by omega)
  refine ((rxErrors_inTime hlib base).bind (l := cost) fun errors => ?_).mono (by omega)
  by_cases herrors : errors ≠ 0
  · rw [if_pos herrors]
    exact (rxErrorClear_inTime hlib base).bind (l := 0) fun _ => InTime.stop nofun
  · rw [if_neg herrors]
    refine InTime.mono (k := 0) ?_ (Nat.zero_le _)
    by_cases hnone : nextbyte = -1
    · rw [if_pos hnone]
      exact InTime.pure _
    · rw [if_neg hnone]
      exact (storeChar_inTime mem off index nextbyte).bind (l := 0) fun _ => InTime.pure _

/-- A character that was stored lies in the block. -/
theorem getChar_some {base : UInt32} {off index : Nat} {mem mem' : Vector UInt8 n} {b b' : Board σ}
    (h : getChar lib base off index mem b = (.ok (some mem'), b')) : off + index < n := by
  unfold getChar at h
  obtain ⟨nextbyte, b₁, -, h⟩ := bind_eq_ok h
  obtain ⟨errors, b₂, -, h⟩ := bind_eq_ok h
  by_cases herrors : errors ≠ 0
  · rw [if_pos herrors] at h
    obtain ⟨_, _, -, h⟩ := bind_eq_ok h
    cases h
  · rw [if_neg herrors] at h
    by_cases hnone : nextbyte = -1
    · rw [if_pos hnone] at h
      cases h
    · rw [if_neg hnone] at h
      obtain ⟨mem₁, b₃, hstore, -⟩ := bind_eq_ok h
      unfold storeChar at hstore
      split at hstore
      · rename_i hsome
        exact (store_eq_some.mp hsome).1
      · cases hstore

/-- **The loop of `uart_read_nonblock` ends** at the end of the block, however fast the characters
come. -/
theorem getChars_inTime (hlib : OnSysTick lib tick perMs cost clock) (base : UInt32) (off : Nat) :
    ∀ (left index : Nat) (mem : Vector UInt8 n), off + index ≤ n →
      (getChars lib base off left index mem).InTime (boardTime clock) .pending
        (4 * cost * (n + 1 - (off + index)))
  | 0, index, mem, hin => by
    have hone := Nat.mul_le_mul_left (4 * cost) (show 1 ≤ n + 1 - (off + index) by omega)
    exact ((charsAvail_inTime hlib base).bind (l := 0) fun _ => InTime.pure _).mono (by omega)
  | left + 1, index, mem, hin => by
    have hone := Nat.mul_le_mul_left (4 * cost) (show 1 ≤ n + 1 - (off + index) by omega)
    unfold getChars
    refine ((charsAvail_inTime hlib base).bind
      (l := 3 * cost + 4 * cost * (n - (off + index))) fun available => ?_).mono ?_
    · cases available with
      | false => exact (InTime.pure _).mono (Nat.zero_le _)
      | true =>
        intro b
        refine onTime_bind (P := fun (r : Except Halt (Option (Vector UInt8 n))) b' =>
          OnTime (boardTime clock) Halt.pending (boardTime clock b) (boardTime clock b + 3 * cost)
            r b' ∧ ∀ mem', r = .ok (some mem') → off + index < n)
          ⟨getChar_inTime hlib base off index mem b, fun mem' hr => getChar_some (Prod.ext hr rfl)⟩
          (fun got b' h => ?_) fun e b' h => h.1.widen (Nat.le_refl _) (by omega)
        obtain ⟨htime, hin'⟩ := h
        have hafter := htime.after
        have hbefore := htime.before
        cases got with
        | none => exact (InTime.pure _ b').mono fun r b'' hr => hr.widen hafter (by omega)
        | some mem' =>
          have hlt := hin' mem' rfl
          have hrest := getChars_inTime hlib base off left (index + 1) mem' (by omega) b'
          rw [show n + 1 - (off + (index + 1)) = n - (off + index) by omega] at hrest
          exact hrest.mono fun r b'' hr => hr.widen hafter (by omega)
    · rw [show n + 1 - (off + index) = n - (off + index) + 1 by omega, Nat.mul_succ]
      omega

/-! ## The pace -/

/-- A read or a write of up to `block` bytes. -/
def tivaMove (cost block : Nat) : Nat := 4 * cost * (block + 1)

/-- The poll of `uart_wait_for_data` goes on for so long. -/
def tivaPoll (tick : SysTick) (perMs cost timeout : Nat) : Nat :=
  2 * cost + sysTickTicks tick perMs (timeout + 1)

/-- The pace of the Tiva, for blocks of up to `block` bytes and timeouts up to `limit`. -/
def tivaPace (tick : SysTick) (perMs cost block limit : Nat) : Pace where
  read := sysTickRead tick
  period := timePeriodMs tick
  count := sysTickCount tick perMs
  ticks := sysTickTicks tick perMs
  jump := (tivaMove cost block + cost) / perMs + 1
  look := cost
  block
  move := tivaMove cost block
  limit
  wait timeout := cost + (tivaPoll tick perMs cost timeout + 2 * cost)

/-- SysTick is looked at so often that a millisecond is left of each of its periods, and the elapsed
time cannot pass over a timeout. -/
structure OftenEnough (tick : SysTick) (perMs cost block limit : Nat) : Prop where
  gap : tivaMove cost block + cost + perMs ≤ tick.period.toNat
  fits : limit + ((tivaMove cost block + cost) / perMs + 1) < 2 ^ 32

variable {block limit : Nat} {port : UartPort}

theorem uartWaitForData_inTime (hlib : OnSysTick lib tick perMs cost clock)
    (hoften : OftenEnough tick perMs cost block limit) {timeout : UInt32} (hsome : timeout ≠ 0)
    (hlimit : timeout.toNat ≤ limit) {passes : Nat}
    (hpasses : tivaPoll tick perMs cost timeout.toNat + 1 < passes) :
    (Tiva.uartWaitForData lib (some port) timeout passes).InTime (boardTime clock) .pending
      (cost + (tivaPoll tick perMs cost timeout.toNat + 2 * cost)) := by
  have hcounting := hlib.ticking.counting hoften.gap
  have hslack : 0 + 2 * cost ≤ tivaMove cost block + cost := by
    unfold tivaMove
    rw [Nat.mul_succ]
    omega
  have hfits := hoften.fits
  have hinit : (currentMs lib.toTivaWare).InTime (boardTime clock) .pending cost := by
    intro b
    obtain ⟨b₁, hcurrent, hlt, hle⟩ := currentMs_shows hlib b
    exact ends_of_eq hcurrent ⟨nofun, Nat.le_of_lt hlt, hle⟩
  unfold Tiva.uartWaitForData
  refine hinit.bind fun now b => ?_
  refine iterate_onTime (I := fun stamp b' => Watched (sysTickRead tick) (sysTickCount tick perMs)
      (boardTime clock b) (2 * cost) 0 (timeout.toNat + 1) stamp (boardTime clock b'))
    (boardTime clock b + tivaPoll tick perMs cost timeout.toNat)
    (boardTime clock b + (tivaPoll tick perMs cost timeout.toNat + 2 * cost))
    (fun stamp b₁ hw => ?_) (by omega) (.inl rfl)
  have hnow : boardTime clock b₁ ≤ boardTime clock b + tivaPoll tick perMs cost timeout.toNat := by
    have hdeadline := hw.deadline hcounting
    unfold tivaPoll
    omega
  unfold waitPass
  refine Ends.bind (charsAvail_inTime hlib port.base b₁) (fun available b₂ h => ?_)
    fun e b₂ h => ?_
  · have hafter := h.after
    have hbefore := h.before
    cases available with
    | true =>
      show boardTime clock b₁ ≤ boardTime clock b₂ ∧ boardTime clock b₂ ≤
        boardTime clock b + (tivaPoll tick perMs cost timeout.toNat + 2 * cost)
      omega
    | false =>
      obtain ⟨b₃, hcurrent, hlt, hle⟩ := currentMs_shows hlib b₂
      show Ends (currentMs lib.toTivaWare >>= _) b₂ _
      unfold Ends
      rw [bind_of_ok hcurrent]
      dsimp only
      rw [hlib.period]
      by_cases hover : ((timeElapsed (timePeriodMs tick) stamp
          (sysTickRead tick (boardTime clock b₃))).1 > timeout && timeout != 0) = true
      · rw [if_pos hover]
        show boardTime clock b₁ ≤ boardTime clock b₃ ∧ boardTime clock b₃ ≤
          boardTime clock b + (tivaPoll tick perMs cost timeout.toNat + 2 * cost)
        omega
      · rw [if_neg hover]
        have hopen : (timeElapsed (timePeriodMs tick) stamp
            (sysTickRead tick (boardTime clock b₃))).1.toNat < timeout.toNat + 1 := by
          have hnot : ¬ (timeElapsed (timePeriodMs tick) stamp
              (sysTickRead tick (boardTime clock b₃))).1 > timeout := by
            intro hgt
            exact hover (by simp [hgt, hsome])
          exact Nat.lt_succ_of_le (UInt32.le_iff_toNat_le.mp (UInt32.not_lt.mp hnot))
        have hnext := hw.look hcounting hslack (by omega) (show _ ≤ boardTime clock b₃ by omega)
          (by omega) hopen (Nat.le_refl _) (Nat.le_refl _)
        have hdeadline := hnext.deadline hcounting
        refine ⟨hnext, ?_, ?_⟩
        · show boardTime clock b₁ < boardTime clock b₃
          omega
        · show boardTime clock b₃ ≤ _
          unfold tivaPoll
          omega
  · have hafter := h.after
    have hbefore := h.before
    exact ⟨fun he => h.done (congrArg Except.error he), by omega, by omega⟩

/-- **The Tiva's driver has a pace.** -/
theorem tivaDriver_paced (hlib : OnSysTick lib tick perMs cost clock)
    (hoften : OftenEnough tick perMs cost block limit) {passes : Nat}
    (hpasses : tivaPoll tick perMs cost limit + 1 < passes) :
    Paced (tivaDriver lib (some port) passes) (boardTime clock)
      (tivaPace tick perMs cost block limit) where
  counting := hlib.ticking.counting hoften.gap
  fits := hoften.fits
  current b := currentMs_shows hlib b
  period b := Prod.ext (congrArg Except.ok hlib.period) rfl
  waits timeout hallows := by
    have hmono := (hlib.ticking.counting hoften.gap).ticks_mono
      (show timeout.toNat + 1 ≤ limit + 1 from Nat.succ_le_succ hallows.le_limit)
    refine uartWaitForData_inTime hlib hoften hallows.some hallows.le_limit ?_
    unfold tivaPoll at hpasses ⊢
    omega
  wait_mono := by
    intro t t' hle
    have hmono := (hlib.ticking.counting hoften.gap).ticks_mono
      (show t + 1 ≤ t' + 1 from Nat.succ_le_succ hle)
    show cost + (tivaPoll tick perMs cost t + 2 * cost) ≤
      cost + (tivaPoll tick perMs cost t' + 2 * cost)
    unfold tivaPoll
    omega
  reads {n} mem off len hblock := by
    show (Tiva.uartReadNonblock lib (some port) mem off len).InTime _ _ _
    unfold Tiva.uartReadNonblock
    dsimp only
    have hshort : n + 1 - (off + 0) ≤ block + 1 :=
      Nat.le_trans (Nat.sub_le _ _) (Nat.succ_le_succ hblock)
    by_cases hoff : off ≤ n
    · rw [if_pos hoff]
      exact (getChars_inTime hlib port.base off len 0 mem hoff).mono
        (Nat.mul_le_mul_left _ hshort)
    · rw [if_neg hoff]
      exact InTime.mono (k := 0) (InTime.stop nofun) (Nat.zero_le _)
  writes data hblock := by
    have hshort : data.length ≤ block + 1 := Nat.le_succ_of_le hblock
    refine (putChars_inTime hlib port.base data 0).mono ?_
    show _ ≤ 4 * cost * (block + 1)
    exact Nat.mul_le_mul (by omega) hshort
  records e := InTime.pure ()

/-- A program whose calls have deadlines is on time. -/
theorem deadlined_onTime (hlib : OnSysTick lib tick perMs cost clock)
    (hoften : OftenEnough tick perMs cost block limit) {calls passes : Nat} {client : Client α}
    (hclient : Deadlined block limit calls client)
    (hpasses : (tivaPace tick perMs cost block limit).call < passes) (port : UartPort)
    (b : Board σ) :
    (client.onDriver (tivaDriver lib (some port) passes) passes).Ends b
      (OnTime (boardTime clock) .pending (boardTime clock b)
        (boardTime clock b + calls * (tivaPace tick perMs cost block limit).call)) := by
  have hcall : tivaPoll tick perMs cost limit + 1 < passes ∧
      (tivaPace tick perMs cost block limit).loop limit + 1 < passes := by
    have hticks : ∀ k, 2 ≤ sysTickTicks tick perMs k := fun k =>
      Nat.le_trans (Nat.le_add_left 2 _) (Nat.le_mul_of_pos_left _ hlib.ticking.pos)
    have hpoll := hticks (limit + 1)
    have hloop := hticks limit
    have hpasses' : cost + (cost + (tivaPoll tick perMs cost limit + 2 * cost)) +
        ((tivaPace tick perMs cost block limit).loop limit + cost + tivaMove cost block) < passes :=
      hpasses
    have hsum : (tivaPace tick perMs cost block limit).loop limit =
        cost + sysTickTicks tick perMs limit + tivaMove cost block := rfl
    unfold tivaPoll at hpasses' ⊢
    omega
  have hpaced : Paced (tivaDriver lib (some port) passes) (boardTime clock)
      (tivaPace tick perMs cost block limit) := tivaDriver_paced hlib hoften hcall.1
  exact client_inTime hpaced hclient hcall.2 b

/-- **No deadline is missed on the Tiva.** Whatever TivaWare and the hardware do otherwise, a
program whose calls have deadlines ends, after so many ticks for each of its calls. An access
outside the block that a read names is an end. -/
theorem tiva_ends (hlib : OnSysTick lib tick perMs cost clock)
    (hoften : OftenEnough tick perMs cost block limit) {calls passes : Nat} {client : Client α}
    (hclient : Deadlined block limit calls client)
    (hpasses : (tivaPace tick perMs cost block limit).call < passes) (port : UartPort)
    (b : Board σ) :
    ∃ r b', client.onDriver (tivaDriver lib (some port) passes) passes b = (r, b') ∧
      r ≠ .error .pending ∧
      clock b'.hardware ≤
        clock b.hardware + calls * (tivaPace tick perMs cost block limit).call := by
  have h := deadlined_onTime hlib hoften hclient hpasses port b
  exact ⟨_, _, rfl, h.done, h.before⟩

/-! ## A silent board -/

/-- A board on which nothing ever comes and nothing is ever taken, and a tick passes at each
look. -/
def silent (tick : SysTick) : UartWare Nat where
  uartCharGetNonBlocking _ t := (-1, t)
  uartCharPutNonBlocking _ _ t := (false, t)
  uartRxErrorGet _ t := (0, t)
  uartRxErrorClear _ t := t
  timeCurrentMs t := (sysTickRead tick (t + 1), t + 1)
  period := timePeriodMs tick
  uartCharsAvail _ t := (false, t)

theorem silent_onSysTick (h : Ticking tick perMs) : OnSysTick (silent tick) tick perMs 1 id where
  ticking := h
  period := rfl
  shows _ := rfl
  goesOn t := Nat.lt_succ_self t
  looks t := ⟨Nat.le_succ t, Nat.le_refl _⟩
  gets _ t := ⟨Nat.le_refl t, Nat.le_succ t⟩
  puts _ _ t := ⟨Nat.le_refl t, Nat.le_succ t⟩
  errors _ t := ⟨Nat.le_refl t, Nat.le_succ t⟩
  clears _ t := ⟨Nat.le_refl t, Nat.le_succ t⟩
  avails _ t := ⟨Nat.le_refl t, Nat.le_succ t⟩

/-- Ten ticks a millisecond, a period of 10 ms, and a read of four bytes with a timeout of 5 ms. -/
theorem tiva_ends_silent :
    ∃ r b', (Client.read (Vector.replicate 4 0) 0 4 5 .none false .done).onDriver
        (tivaDriver (silent ⟨100, 10000⟩) (some ⟨0x4000⟩) 400) 400 ⟨0, []⟩ = (r, b') ∧
      r ≠ .error .pending ∧
      id b'.hardware ≤ id 0 + 1 * (tivaPace ⟨100, 10000⟩ 10 1 4 5).call :=
  tiva_ends (silent_onSysTick ⟨by decide, rfl, by decide, by decide⟩)
    ⟨by decide, by decide⟩ (.read (by decide) (fun _ => by decide) fun got => .done got)
    (by decide) ⟨0x4000⟩ ⟨0, []⟩

end Nuhal.Drivers

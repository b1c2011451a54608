import Nuhal.Drivers.Deadlines
import Nuhal.Linux.Driver

/-!
# Deadlines on Linux (`nuhal_linux/src/uart_host.c:281-307, 432-461`, `time_host.c`)

The time is that of the system, in nanoseconds. A system call takes at most `cost` of them, and a
`poll` its timeout as well (`OnLinux`). Each signal makes `uart_wait_for_data` start again with all
of its timeout, so a wait takes that long for each of them; there are at most `signals` in a row.

* `hostWait_inTime`: the attempts of `uart_wait_for_data`.
* `hostDriver_paced`: so this driver has a pace.
* **`host_ends`**: a program whose calls have deadlines ends on Linux.
-/

namespace Nuhal.Drivers

open Nuhal.Lib Nuhal.Lib.Run Nuhal.All Nuhal.Clock Nuhal.Linux

variable {n : Nat} {σ α : Type} {calls : PortCalls σ} {cost signals : Nat} {clock left : σ → Nat}

/-- A millisecond. -/
abbrev nsPerMs : Nat := 1000000

/-- The system's clock, which is not set meanwhile and shows the milliseconds modulo its period
(`timeCurrent_toNat`), and how many signals may still come in a row. -/
structure OnLinux (calls : PortCalls σ) (cost signals : Nat) (clock left : σ → Nat) : Prop where
  shows : ∀ s, Linux.timeCurrentMs (calls.clockGettime s).1 =
    exactRead uint32Max nsPerMs (clock (calls.clockGettime s).2)
  goesOn : ∀ s, clock s < clock (calls.clockGettime s).2
  looks : ∀ s, Spends clock cost s (calls.clockGettime s).2
  reads : ∀ len s, Spends clock cost s (calls.read len s).2
  writes : ∀ data s, Spends clock cost s (calls.write data s).2
  polls : ∀ timeout s, 0 < timeout →
    Spends clock (nsPerMs * timeout.toNatClampNeg + cost) s (calls.poll timeout s).2
  few : ∀ s, left s ≤ signals
  interrupts : ∀ timeout s, (calls.poll timeout s).1 = .error eintr →
    left (calls.poll timeout s).2 < left s

/-- The time of the system. -/
def systemTime (clock : σ → Nat) (t : Traffic σ) : Nat := clock t.system

/-! ## The system calls -/

theorem sysRead_inTime (hcalls : OnLinux calls cost signals clock left) (len : Nat) :
    (sysRead calls len).InTime (systemTime clock) .pending cost := by
  have hread : ∀ t, (sysRead calls len t).1 ≠ .error .pending ∧
      (sysRead calls len t).2.system = (calls.read len t.system).2 := by
    intro t
    unfold sysRead
    split
    · rename_i h
      exact ⟨nofun, by rw [h]⟩
    · rename_i h
      exact ⟨nofun, by rw [h]⟩
  refine inTime_of_spends (fun t => (hread t).1) fun t => ?_
  have hspends := hcalls.reads len t.system
  rw [← (hread t).2] at hspends
  exact hspends

theorem sysWrite_inTime (hcalls : OnLinux calls cost signals clock left) (data : List UInt8) :
    (sysWrite calls data).InTime (systemTime clock) .pending cost := by
  have hwrite : ∀ t, (sysWrite calls data t).1 ≠ .error .pending ∧
      (sysWrite calls data t).2.system = (calls.write data t.system).2 := by
    intro t
    unfold sysWrite
    split
    · rename_i h
      exact ⟨nofun, by rw [h]⟩
    · rename_i h
      exact ⟨nofun, by rw [h]⟩
  refine inTime_of_spends (fun t => (hwrite t).1) fun t => ?_
  have hspends := hcalls.writes data t.system
  rw [← (hwrite t).2] at hspends
  exact hspends

theorem storeRead_inTime (mem : Vector UInt8 n) (off : Nat) (bytes : List UInt8) :
    (storeRead mem off bytes : OnTraffic σ _).InTime (systemTime clock) .pending 0 := by
  intro t
  unfold storeRead Ends
  split
  · exact ⟨nofun, Nat.le_refl _, Nat.le_refl _⟩
  · exact ⟨nofun, Nat.le_refl _, Nat.le_refl _⟩

theorem hostRead_inTime (hcalls : OnLinux calls cost signals clock left) (mem : Vector UInt8 n)
    (off len : Nat) :
    (Linux.uartReadNonblock calls mem off len).InTime (systemTime clock) .pending cost := by
  unfold Linux.uartReadNonblock
  by_cases hoff : off ≤ n
  · rw [if_pos hoff]
    refine (sysRead_inTime hcalls len).bind (l := 0) fun read => ?_
    cases read with
    | ok bytes => exact storeRead_inTime mem off bytes
    | error errno =>
      dsimp only
      by_cases hagain : errno = eagain
      · rw [if_pos hagain]
        exact InTime.pure _
      · rw [if_neg hagain]
        exact InTime.stop nofun
  · rw [if_neg hoff]
    exact InTime.mono (k := 0) (InTime.stop nofun) (Nat.zero_le _)

theorem hostWrite_inTime (hcalls : OnLinux calls cost signals clock left) (data : List UInt8) :
    (portWriteNonblock calls data).InTime (systemTime clock) .pending cost := by
  unfold portWriteNonblock
  refine (sysWrite_inTime hcalls data).bind (l := 0) fun val => ?_
  split
  · exact InTime.pure _
  · exact InTime.stop nofun

/-! ## Waiting -/

/-- One attempt. -/
def hostAttempt (cost timeout : Nat) : Nat := nsPerMs * timeout + cost

/-- A timeout that `poll` takes. -/
theorem pollTimeout_of_le {timeout : UInt32} (hsome : timeout ≠ 0) (hle : ¬ timeout > intMax) :
    0 < pollTimeout timeout ∧ (pollTimeout timeout).toNatClampNeg = timeout.toNat := by
  have hpos : 0 < timeout.toNat := Nat.pos_of_ne_zero fun h => hsome (UInt32.toNat_inj.mp h)
  have hlt : timeout.toNat < 2 ^ 31 :=
    Nat.lt_succ_of_le (UInt32.le_iff_toNat_le.mp (UInt32.not_lt.mp hle))
  have hsigned : timeout.toInt32 = Int32.ofNat timeout.toNat := by
    rw [← UInt32.toInt32_ofNat', UInt32.ofNat_toNat]
  unfold pollTimeout
  rw [if_neg hsome, hsigned, Int32.toNatClampNeg_ofNat_of_lt hlt, Int32.lt_iff_toInt_lt,
    Int32.toInt_ofNat_of_lt hlt]
  exact ⟨Int.natCast_pos.mpr hpos, rfl⟩

/-- **The attempts of `uart_wait_for_data`** are as many as there are signals in a row, and one. -/
theorem hostWait_inTime (hcalls : OnLinux calls cost signals clock left) {timeout : UInt32}
    (hsome : timeout ≠ 0) {passes : Nat} (hpasses : signals < passes) :
    (Linux.uartWaitForData calls timeout passes).InTime (systemTime clock) .pending
      ((signals + 1) * hostAttempt cost timeout.toNat) := by
  unfold Linux.uartWaitForData
  by_cases hmax : timeout > intMax
  · rw [if_pos hmax]
    exact fun t => ⟨nofun, Nat.le_refl _, Nat.le_add_right _ _⟩
  · rw [if_neg hmax]
    obtain ⟨hpos, htimeout⟩ := pollTimeout_of_le hsome hmax
    intro t
    have hfew := hcalls.few t.system
    -- each signal that is left may take one more attempt
    refine iterate_ends (I := fun _ t' => systemTime clock t ≤ systemTime clock t' ∧
        systemTime clock t' + (left t'.system + 1) * hostAttempt cost timeout.toNat ≤
          systemTime clock t + (signals + 1) * hostAttempt cost timeout.toNat)
      (μ := fun t' => left t'.system) (fun _ t' hI => ?_) passes () t (by omega)
      ⟨Nat.le_refl _, Nat.add_le_add_left (Nat.mul_le_mul_right _ (by omega)) _⟩
    obtain ⟨hafter, hbudget⟩ := hI
    obtain ⟨hlow, hhigh⟩ := hcalls.polls (pollTimeout timeout) t'.system hpos
    have hinterrupts := hcalls.interrupts (pollTimeout timeout) t'.system
    rcases hpoll : calls.poll (pollTimeout timeout) t'.system with ⟨r, s⟩
    rw [hpoll] at hlow hhigh hinterrupts
    rw [htimeout] at hhigh
    obtain ⟨t₁, hsys, rfl⟩ : ∃ t₁, sysPoll calls (pollTimeout timeout) t' = (.ok r, t₁) ∧
        t₁.system = s := ⟨{ t' with system := s }, by simp only [sysPoll, hpoll], rfl⟩
    have hnow : systemTime clock t' ≤ systemTime clock t₁ ∧
        systemTime clock t₁ ≤ systemTime clock t' + hostAttempt cost timeout.toNat := ⟨hlow, hhigh⟩
    rw [Nat.succ_mul] at hbudget
    have hends : systemTime clock t ≤ systemTime clock t₁ ∧ systemTime clock t₁ ≤
        systemTime clock t + (signals + 1) * hostAttempt cost timeout.toNat := by omega
    unfold pollPass Ends
    rw [bind_of_ok hsys]
    cases r with
    | ok res => exact ⟨nofun, hends.1, hends.2⟩
    | error errno =>
      dsimp only
      by_cases heintr : errno = eintr
      · rw [if_neg (not_not.mpr heintr)]
        have hless : left t₁.system < left t'.system :=
          hinterrupts (congrArg Except.error heintr)
        have hmul := Nat.mul_le_mul_right (hostAttempt cost timeout.toNat)
          (show left t₁.system + 1 ≤ left t'.system from hless)
        have hleft : systemTime clock t₁ +
            (left t₁.system + 1) * hostAttempt cost timeout.toNat ≤
              systemTime clock t + (signals + 1) * hostAttempt cost timeout.toNat := by omega
        exact ⟨⟨hends.1, hleft⟩, hless⟩
      · rw [if_pos heintr]
        exact ⟨nofun, hends.1, hends.2⟩

/-! ## The pace -/

/-- The pace of Linux, for blocks of up to `block` bytes and timeouts up to `limit`. -/
def hostPace (cost signals block limit : Nat) : Pace where
  read := exactRead uint32Max nsPerMs
  period := uint32Max
  count := (· / nsPerMs)
  ticks n := nsPerMs * (n + 1)
  jump := (cost + cost) / nsPerMs + 1
  look := cost
  block
  move := cost
  limit
  wait timeout := (signals + 1) * hostAttempt cost timeout

/-- **The driver of Linux has a pace.** -/
theorem hostDriver_paced (hcalls : OnLinux calls cost signals clock left) {limit : Nat}
    (hfits : limit + ((cost + cost) / nsPerMs + 1) < 2 ^ 32 - 1) {passes : Nat}
    (hpasses : signals < passes) (block : Nat) :
    Paced (hostDriver calls passes) (systemTime clock) (hostPace cost signals block limit) where
  counting := exactCounting (by decide)
    (Nat.lt_of_le_of_lt (Nat.le_add_left _ limit) hfits)
  fits := Nat.lt_of_lt_of_le hfits (Nat.sub_le _ _)
  current t := ⟨{ t with system := (calls.clockGettime t.system).2 },
    Prod.ext (congrArg Except.ok (hcalls.shows t.system)) rfl, hcalls.goesOn t.system,
    (hcalls.looks t.system).2⟩
  period _ := rfl
  waits timeout hallows := hostWait_inTime hcalls hallows.some hpasses
  wait_mono _ _ hle := Nat.mul_le_mul_left _
    (Nat.add_le_add_right (Nat.mul_le_mul_left _ hle) _)
  reads mem off len _ := hostRead_inTime hcalls mem off len
  writes data _ := hostWrite_inTime hcalls data
  records _ := InTime.pure ()

/-- **No deadline is missed on Linux.** Whatever the system does otherwise, a program whose calls
have deadlines ends, after so many nanoseconds for each of its calls; where `signals` signals in a
row may interrupt a `poll`, a wait takes so much longer. An access outside the block that a read
names is an end. -/
theorem host_ends (hcalls : OnLinux calls cost signals clock left) {block limit : Nat}
    (hfits : limit + ((cost + cost) / nsPerMs + 1) < 2 ^ 32 - 1) {count passes : Nat}
    {client : Client α} (hclient : Deadlined block limit count client)
    (hpasses : (hostPace cost signals block limit).call < passes) (t : Traffic σ) :
    ∃ r t', client.onDriver (hostDriver calls passes) passes t = (r, t') ∧
      r ≠ .error .pending ∧
      clock t'.system ≤ clock t.system + count * (hostPace cost signals block limit).call := by
  have hcall : signals < passes ∧ (hostPace cost signals block limit).loop limit + 1 < passes := by
    have hcost : 1 ≤ cost := by
      have hlt := hcalls.goesOn t.system
      have hle := (hcalls.looks t.system).2
      omega
    have hattempts : signals + 1 ≤ (signals + 1) * hostAttempt cost limit :=
      Nat.le_mul_of_pos_right _ (Nat.lt_of_lt_of_le hcost (Nat.le_add_left _ _))
    have hpasses' : cost + (signals + 1) * hostAttempt cost limit +
        ((hostPace cost signals block limit).loop limit + cost + cost) < passes := hpasses
    omega
  have h := client_inTime (hostDriver_paced hcalls hfits hcall.1 block) hclient hcall.2 t
  exact ⟨_, _, rfl, h.done, h.before⟩

/-! ## A quiet system -/

/-- The time of day `t` nanoseconds after the start, on a clock that starts again with every
period. -/
def timespecAt (t : Nat) : Timespec :=
  ⟨UInt64.ofNat (t / nsPerMs % uint32Max.toNat / 1000),
    UInt64.ofNat (t / nsPerMs % uint32Max.toNat % 1000 * nsPerMs)⟩

theorem timeCurrentMs_timespecAt (t : Nat) :
    Linux.timeCurrentMs (timespecAt t) = exactRead uint32Max nsPerMs t := by
  have hbelow : t / nsPerMs % uint32Max.toNat < 4294967295 := Nat.mod_lt _ (by decide)
  have hday : timeOfDay 1000 1000000 (timespecAt t) = t / nsPerMs % uint32Max.toNat := by
    unfold timeOfDay timespecAt
    generalize t / nsPerMs % uint32Max.toNat = ms at hbelow
    have hsize : UInt64.size = 2 ^ 64 := rfl
    rw [UInt64.toNat_ofNat_of_lt' (by omega),
      UInt64.toNat_ofNat_of_lt' (show ms % 1000 * 1000000 < UInt64.size by omega)]
    show ms / 1000 * 1000 + ms % 1000 * 1000000 / 1000000 = ms
    omega
  apply UInt32.toNat_inj.mp
  rw [toNat_exactRead (by decide)]
  show (Linux.timeCurrent 1000 1000000 (timespecAt t)).toNat = _
  rw [timeCurrent_toNat (by rw [hday]; omega), hday, Nat.mod_mod]

/-- A system on which nothing ever comes and nothing is ever taken, and no signal. -/
def quiet : PortCalls Nat where
  read _ t := (.error eagain, t)
  write _ t := (.error eagain, t)
  poll timeout t := (.ok (0, 0), t + nsPerMs * timeout.toNatClampNeg)
  clockGettime t := (timespecAt (t + 1), t + 1)

theorem quiet_onLinux : OnLinux quiet 1 0 id fun _ => 0 where
  shows t := timeCurrentMs_timespecAt (t + 1)
  goesOn t := Nat.lt_succ_self t
  looks t := ⟨Nat.le_succ t, Nat.le_refl _⟩
  reads _ t := ⟨Nat.le_refl t, Nat.le_succ t⟩
  writes _ t := ⟨Nat.le_refl t, Nat.le_succ t⟩
  polls _ t _ := ⟨Nat.le_add_right t _, Nat.le_succ _⟩
  few _ := Nat.le_refl 0
  interrupts _ _ h := by cases h

/-- A read of four bytes with a timeout of 5 ms. -/
theorem host_ends_quiet :
    ∃ r t', (Client.read (Vector.replicate 4 0) 0 4 5 .none false .done).onDriver
        (hostDriver quiet 100000000) 100000000 ⟨0, [], []⟩ = (r, t') ∧ r ≠ .error .pending ∧
      id t'.system ≤ id 0 + 1 * (hostPace 1 0 4 5).call :=
  host_ends quiet_onLinux (by decide)
    (.read (by decide) (fun _ => by decide) fun got => .done got) (by decide) ⟨0, [], []⟩

end Nuhal.Drivers

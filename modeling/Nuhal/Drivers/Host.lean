import Nuhal.Drivers.Tiva
import Nuhal.Linux.Driver

/-!
# Linux under the common code (`nuhal_linux/src/uart_host.c:281-307, 432-475`)

`hostDriver` is a sound driver, whatever the system does and however often it interrupts a `poll`,
as long as `read` hands over no more than it was asked for and `write` takes no more than it was
offered (`Transfers`). So every result about the common code on a `World` is one about Linux. What
has been taken and sent are then the bytes that `read` handed over and those that `write` took.

* `uartReadNonblock_ends`, `portWriteNonblock_ends`, `uartWaitForData_quiet`: the functions.
* `hostDriver_sound`, and **`host_client`** for every program on a port.
-/

namespace Nuhal.Drivers

open Nuhal.Lib Nuhal.All Nuhal.Linux

variable {n : Nat} {σ α : Type} {calls : PortCalls σ}

/-- What is documented of `read` and `write`. -/
structure Transfers (calls : PortCalls σ) : Prop where
  read : ∀ len s bytes s', calls.read len s = (.ok bytes, s') → bytes.length ≤ len
  write : ∀ data s val s', calls.write data s = (.ok val, s') → val ≤ data.length

/-- What went over the port between two states. -/
structure Went (got put : List UInt8) (t t' : Traffic σ) : Prop where
  got : t'.got = t.got ++ got
  put : t'.put = t.put ++ put

theorem Went.nothing {t t' : Traffic σ} (hgot : t'.got = t.got) (hput : t'.put = t.put) :
    Went [] [] t t' :=
  ⟨hgot.trans (List.append_nil _).symm, hput.trans (List.append_nil _).symm⟩

/-! ## Reading and writing -/

theorem sysRead_cases (hcalls : Transfers calls) (len : Nat) (t : Traffic σ) :
    (∃ bytes t', sysRead calls len t = (.ok (.ok bytes), t') ∧ bytes.length ≤ len ∧
        Went bytes [] t t') ∨
      ∃ errno t', sysRead calls len t = (.ok (.error errno), t') ∧ Went [] [] t t' := by
  rcases hread : calls.read len t.system with ⟨errno | bytes, s⟩
  · refine .inr ⟨errno, { t with system := s }, ?_, Went.nothing rfl rfl⟩
    simp only [sysRead, hread]
  · refine .inl ⟨bytes, { t with system := s, got := t.got ++ bytes }, ?_,
      hcalls.read len _ _ _ hread, rfl, (List.append_nil _).symm⟩
    simp only [sysRead, hread]

/-- How `uart_read_nonblock` ends. -/
def ReadsOnce (mem : Vector UInt8 n) (off len : Nat) (t : Traffic σ) :
    Except Halt (Nat × Vector UInt8 n) → Traffic σ → Prop
  | .ok (k, mem'), t' => ∃ got, got.length = k ∧ k ≤ len ∧ store mem off got = some mem' ∧
      Went got [] t t'
  | .error (.error _), t' => Went [] [] t t'
  | .error .undefined, t' => (∃ k ≤ len, n < off + k) ∧ ∃ got, Went got [] t t'
  | .error .pending, _ => False

theorem uartReadNonblock_ends (hcalls : Transfers calls) (mem : Vector UInt8 n) (off len : Nat)
    (t : Traffic σ) :
    (Linux.uartReadNonblock calls mem off len).Ends t (ReadsOnce mem off len t) := by
  unfold Run.Ends Linux.uartReadNonblock
  by_cases hoff : off ≤ n
  · rw [if_pos hoff]
    rcases sysRead_cases hcalls len t with ⟨bytes, t', hread, hle, hwent⟩ |
      ⟨errno, t', hread, hwent⟩
    · rw [Run.bind_of_ok hread]
      simp only [storeRead]
      cases hstore : store mem off bytes with
      | some mem' => exact ⟨bytes, rfl, hle, hstore, hwent⟩
      | none => exact ⟨⟨bytes.length, hle, store_eq_none.mp hstore⟩, bytes, hwent⟩
    · rw [Run.bind_of_ok hread]
      dsimp only
      by_cases hagain : errno = eagain
      · rw [if_pos hagain]
        exact ⟨[], rfl, Nat.zero_le _, store_nil hoff, hwent⟩
      · rw [if_neg hagain]
        exact hwent
  · rw [if_neg hoff]
    exact ⟨⟨0, Nat.zero_le _, Nat.lt_of_not_le hoff⟩, [], Went.nothing rfl rfl⟩

/-- How `uart_write_nonblock` ends. -/
def WritesOnce (data : List UInt8) (t : Traffic σ) : Except Halt Nat → Traffic σ → Prop
  | .ok k, t' => k ≤ data.length ∧ Went [] (data.take k) t t'
  | .error (.error _), t' => Went [] [] t t'
  | .error _, _ => False

theorem portWriteNonblock_ends (hcalls : Transfers calls) (data : List UInt8) (t : Traffic σ) :
    (portWriteNonblock calls data).Ends t (WritesOnce data t) := by
  unfold Run.Ends portWriteNonblock
  rcases hwrite : calls.write data t.system with ⟨errno | val, s⟩
  · have hsys : sysWrite calls data t = (.ok (.error errno), { t with system := s }) := by
      simp only [sysWrite, hwrite]
    rw [Run.bind_of_ok hsys]
    exact Went.nothing rfl rfl
  · have hsys : sysWrite calls data t =
        (.ok (.ok val), { t with system := s, put := t.put ++ data.take val }) := by
      simp only [sysWrite, hwrite]
    rw [Run.bind_of_ok hsys]
    exact ⟨hcalls.write data _ _ _ hwrite, (List.append_nil _).symm, rfl⟩

/-! ## Waiting -/

/-- An attempt to wait: nothing goes over the port. -/
theorem pollPass_quiet (calls : PortCalls σ) (timeout : UInt32) (t : Traffic σ) :
    ∃ t', Went [] [] t t' ∧ ((∃ next, pollPass calls timeout t = (.ok next, t')) ∨
      ∃ msg, pollPass calls timeout t = (.error (.error msg), t')) := by
  unfold pollPass
  rw [Run.bind_apply]
  simp only [sysPoll]
  refine ⟨{ t with system := (calls.poll (pollTimeout timeout) t.system).2 },
    Went.nothing rfl rfl, ?_⟩
  rcases (calls.poll (pollTimeout timeout) t.system).1 with errno | ⟨res, revents⟩
  · dsimp only
    split
    · exact .inr ⟨_, rfl⟩
    · exact .inl ⟨_, rfl⟩
  · exact .inl ⟨_, rfl⟩

theorem uartWaitForData_quiet (calls : PortCalls σ) (timeout : UInt32) (passes : Nat)
    (t : Traffic σ) : (Linux.uartWaitForData calls timeout passes).Ends t fun r t' =>
      Went [] [] t t' ∧ r ≠ .error .undefined := by
  have hloop : ∀ passes t, (Run.iterate .pending (fun _ => pollPass calls timeout) passes ()).Ends t
      fun r t' => Went [] [] t t' ∧ r ≠ .error .undefined := by
    intro passes
    induction passes with
    | zero =>
      intro t
      refine ⟨Went.nothing rfl rfl, ?_⟩
      rintro ⟨⟩
    | succ passes ih =>
      intro t
      obtain ⟨t₁, hwent, ⟨next, hpass⟩ | ⟨msg, hpass⟩⟩ := pollPass_quiet calls timeout t
      · unfold Run.Ends
        cases next with
        | inl again =>
          rw [Run.iterate_of_inl hpass]
          obtain ⟨hrest, hend⟩ := ih t₁
          exact ⟨⟨hrest.got.trans (congrArg (· ++ []) (hwent.got.trans (List.append_nil _))),
            hrest.put.trans (congrArg (· ++ []) (hwent.put.trans (List.append_nil _)))⟩, hend⟩
        | inr ready =>
          rw [Run.iterate_of_inr hpass]
          refine ⟨hwent, ?_⟩
          rintro ⟨⟩
      · unfold Run.Ends Run.iterate
        rw [Run.bind_of_error hpass]
        refine ⟨hwent, ?_⟩
        rintro ⟨⟩
  unfold Run.Ends Linux.uartWaitForData
  by_cases hbig : timeout > intMax
  · simp only [if_pos hbig]
    refine ⟨Went.nothing rfl rfl, ?_⟩
    rintro ⟨⟩
  · simp only [if_neg hbig]
    exact hloop passes t

/-! ## The driver -/

/-- What is seen of the port after a call. -/
theorem Went.after {got put : List UInt8} {t₀ t t' : Traffic σ} {seen : Seen}
    (h : Went got put t t') (ht : Accounted Traffic.got Traffic.put t₀ [] t seen)
    (log : List Event) :
    Accounted Traffic.got Traffic.put t₀ [] t'
      { seen with taken := seen.taken ++ got, sent := seen.sent ++ put, log := log } := by
  refine ⟨?_, ?_⟩
  · rw [h.got, ht.taken]
    simp only [List.append_nil, List.append_assoc]
  · rw [h.put, ht.sent, List.append_assoc]

/-- And after a read that failed. -/
theorem Went.losing {got : List UInt8} {t₀ t t' : Traffic σ} {seen : Seen} (h : Went got [] t t')
    (ht : Accounted Traffic.got Traffic.put t₀ [] t seen) :
    Accounted Traffic.got Traffic.put t₀ got t' seen := by
  refine ⟨?_, ?_⟩
  · rw [h.got, ht.taken, List.append_nil]
  · rw [h.put, ht.sent, List.append_nil]

theorem Went.same {t₀ t t' : Traffic σ} {seen : Seen} (h : Went [] [] t t')
    (ht : Accounted Traffic.got Traffic.put t₀ [] t seen) :
    Accounted Traffic.got Traffic.put t₀ [] t' seen :=
  h.losing ht

/-- **The driver of Linux is sound**, and accounts for every byte. -/
theorem hostDriver_sound (hcalls : Transfers calls) (passes : Nat) (t₀ : Traffic σ) :
    Accountable (hostDriver calls passes) uint32Max Traffic.got Traffic.put t₀ where
  weaken t seen h := ⟨[], h⟩
  clock t seen h := ⟨_, _, rfl, h.taken, h.sent⟩
  period t := rfl
  wait timeout t seen h := by
    have hquiet := uartWaitForData_quiet calls timeout passes t
    rcases hrun : Linux.uartWaitForData calls timeout passes t with ⟨r, t'⟩
    rw [show (hostDriver calls passes).uartWaitForData timeout t = (r, t') from hrun]
    obtain ⟨hwent, hdefined⟩ := hquiet.elim hrun
    match r with
    | .ok ready => exact hwent.same h
    | .error (.error msg) => exact ⟨[], hwent.same h⟩
    | .error .undefined => exact absurd rfl hdefined
    | .error .pending => trivial
  read {n} mem off len t seen h := by
    have hends := uartReadNonblock_ends hcalls mem off len t
    rcases hrun : Linux.uartReadNonblock calls mem off len t with ⟨r, t'⟩
    rw [show (hostDriver calls passes).uartReadNonblock mem off len t = (r, t') from hrun]
    match r, hends.elim hrun with
    | .ok (k, mem'), ⟨got, hk, hle, hstore, hwent⟩ =>
      have hafter := hwent.after h (seen.log ++ [.store off k])
      rw [List.append_nil] at hafter
      exact ⟨got, hk, hle, hstore, hafter⟩
    | .error (.error msg), hwent => exact ⟨[], hwent.same h⟩
    | .error .undefined, ⟨hout, got, hwent⟩ => exact ⟨hout, got, hwent.losing h⟩
  write data t seen h := by
    have hends := portWriteNonblock_ends hcalls data t
    rcases hrun : portWriteNonblock calls data t with ⟨r, t'⟩
    rw [show (hostDriver calls passes).uartWriteNonblock data t = (r, t') from hrun]
    match r, hends.elim hrun with
    | .ok k, ⟨hle, hwent⟩ =>
      have hafter := hwent.after h seen.log
      rw [List.append_nil] at hafter
      exact ⟨hle, hafter⟩
    | .error (.error msg), hwent => exact ⟨[], hwent.same h⟩
  record e t seen h := ⟨t, rfl, h.taken, h.sent⟩

/-- **Every program on a port of Linux runs as on a world**, whatever the system does, if it does
not wait for ever. What was taken and sent are the bytes that `read` handed over and those that
`write` took. -/
theorem host_client (hcalls : Transfers calls) (port : Nat) (client : Client α) (passes : Nat)
    (t t' : Traffic σ) (result : Except Halt α)
    (hrun : client.onDriver (hostDriver calls passes) passes t = (result, t'))
    (hdone : result ≠ .error .pending) :
    AsOnWorld port uint32Max Traffic.got Traffic.put client t result t' :=
  client_asOnWorld port (hostDriver_sound hcalls passes t) hrun hdone

/-- A system with the bytes of a list in its input buffer, and room for three bytes at a time in its
output buffer. -/
def buffered : PortCalls (List UInt8) where
  read len s := if s.isEmpty then (.error eagain, s) else (.ok (s.take len), s.drop len)
  write data s := (.ok (min data.length 3), s)
  poll _ s := (.ok (1, pollin), s)
  clockGettime s := (⟨0, 0⟩, s)

theorem buffered_transfers : Transfers buffered where
  read len s bytes s' h := by
    unfold buffered at h
    dsimp only at h
    split at h
    · cases h
    · cases h
      rw [List.length_take]
      exact Nat.min_le_left _ _
  write data s val s' h := by
    cases h
    exact Nat.min_le_left _ _

theorem host_client_echo :
    let run := echo.onDriver (hostDriver buffered 8) 8 ⟨[1, 2, 3], [], []⟩
    run.1 = .ok 2 ∧
      AsOnWorld 0 uint32Max Traffic.got Traffic.put echo ⟨[1, 2, 3], [], []⟩ run.1 run.2 :=
  ⟨by decide +kernel, host_client buffered_transfers 0 echo 8 _ _ _ rfl (by decide +kernel)⟩

theorem client_foretold_echo :
    let run := echo.onDriver (hostDriver buffered 8) 8 ⟨[1, 2, 3], [], []⟩
    ∃ seen w w', (echo.onDriver (traced (hostDriver buffered 8)) 8
        (⟨[1, 2, 3], [], []⟩, .none)).2.2 = seen ∧
      echo.onPlatform 0 w = (run.1, w') ∧ Explains 0 uint32Max seen w w' ∧ run.1 = .ok 2 := by
  intro run
  have hstart :=
    Accounted.start Traffic.got Traffic.put (⟨[1, 2, 3], [], []⟩ : Traffic (List UInt8))
  obtain ⟨seen, w, w', htraced, hworld, hexplains, -, -⟩ :=
    client_foretold 0 (hostDriver_sound buffered_transfers 8 _) echo 8 hstart
      (rfl : _ = (run.1, run.2)) (by decide +kernel) []
  exact ⟨seen, w, w', by rw [htraced], hworld, hexplains, by decide +kernel⟩

end Nuhal.Drivers

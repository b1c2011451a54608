import Nuhal.Tiva.Pin

/-!
# The array of assigned pins (`nuhal_tiva/src/pin_tiva.c:81-110`)

`assigned_pins` holds one word for each port, and one bit of it for each pin.

* `Marks`: the invariant, which bits are set.
* `marks_start`, `marks_assign`: it holds at the start, and marking a pin keeps it.
* `pinAssign_of_free`, `pinAssign_of_taken`: **a pin is marked just if it was not**.
-/

namespace Nuhal.Pins

open Nuhal.Lib Nuhal.All Nuhal.Tiva

variable {σ : Type}

/-- A pin: its port and its number. -/
abbrev Place := UInt8 × UInt8

/-- The bits that are set are those of the pins in `taken`. -/
def Marks (taken : List Place) (assigned : Vector UInt32 tivaNumPorts) : Prop :=
  ∀ (port number : UInt8) (word mask : UInt32), assigned[port.toNat]? = some word →
    portPins[number.toNat]? = some mask → (word &&& mask = 0 ↔ (port, number) ∉ taken)

/-- The state before the first call of `pin_setup`. -/
def start (hardware : σ) : PinBoard σ :=
  { hardware, assignedPins := Vector.replicate tivaNumPorts 0, log := [] }

/-! ## The masks -/

theorem and_portPins : ∀ i j : Fin 8, portPins[i] &&& portPins[j] = 0 ↔ i ≠ j := by
  decide

/-- The masks of two numbers have no bit in common. -/
theorem mask_and_mask {number number' : UInt8} {mask mask' : UInt32}
    (hmask : portPins[number.toNat]? = some mask)
    (hmask' : portPins[number'.toNat]? = some mask') :
    mask &&& mask' = 0 ↔ number ≠ number' := by
  obtain ⟨hlt, rfl⟩ := Vector.getElem?_eq_some_iff.mp hmask
  obtain ⟨hlt', rfl⟩ := Vector.getElem?_eq_some_iff.mp hmask'
  have hfin := and_portPins ⟨number.toNat, hlt⟩ ⟨number'.toNat, hlt'⟩
  rw [ne_eq, ← UInt8.toNat_inj]
  simpa using hfin

theorem or_and_eq_zero (word mask mask' : UInt32) :
    (word ||| mask) &&& mask' = 0 ↔ word &&& mask' = 0 ∧ mask &&& mask' = 0 := by
  have hdistrib : (word ||| mask) &&& mask' = (word &&& mask') ||| (mask &&& mask') := by
    apply UInt32.toBitVec_inj.mp
    exact BitVec.and_or_distrib_right
  rw [hdistrib, UInt32.or_eq_zero_iff]

/-! ## The invariant -/

theorem marks_start : Marks [] (Vector.replicate tivaNumPorts 0) := by
  intro port number word mask hword _
  obtain ⟨hlt, rfl⟩ := Vector.getElem?_eq_some_iff.mp hword
  simp

theorem marks_assign {taken : List Place} {assigned : Vector UInt32 tivaNumPorts}
    (h : Marks taken assigned) {port number : UInt8} {word mask : UInt32}
    (hword : assigned[port.toNat]? = some word) (hmask : portPins[number.toNat]? = some mask) :
    Marks (taken ++ [(port, number)])
      (assigned.setIfInBounds port.toNat (word ||| mask)) := by
  intro port' number' word' mask' hword' hmask'
  by_cases hport : port = port'
  · subst hport
    obtain ⟨hlt, -⟩ := Vector.getElem?_eq_some_iff.mp hword
    rw [Vector.getElem?_setIfInBounds_self_of_lt hlt] at hword'
    cases hword'
    rw [or_and_eq_zero, h port number' word mask' hword hmask', mask_and_mask hmask hmask']
    simp [eq_comm]
  · have hne : port.toNat ≠ port'.toNat := fun heq => hport (UInt8.toNat_inj.mp heq)
    rw [Vector.getElem?_setIfInBounds_ne hne] at hword'
    rw [h port' number' word' mask' hword' hmask']
    simp [Ne.symm hport]

/-! ## The test and the mark -/

theorem element_of_some {k : Nat} {array : Vector UInt32 k} {i : UInt8} {x : UInt32}
    (h : array[i.toNat]? = some x) (s : PinBoard σ) : element array i s = (.ok x, s) := by
  unfold element
  rw [h]
  rfl

variable {taken : List Place} {port number : UInt8} {mask : UInt32} {s : PinBoard σ}

theorem pinAssign_of_free (h : Marks taken s.assignedPins) (hport : port.toNat < tivaNumPorts)
    (hmask : portPins[number.toNat]? = some mask) (hfree : (port, number) ∉ taken) :
    ∃ assigned, pinAssign port mask s = (.ok (), { s with assignedPins := assigned }) ∧
      Marks (taken ++ [(port, number)]) assigned := by
  have hword : s.assignedPins[port.toNat]? = some s.assignedPins[port.toNat] :=
    Vector.getElem?_eq_getElem hport
  have hzero := (h port number _ mask hword hmask).mpr hfree
  refine ⟨_, ?_, marks_assign h hword hmask⟩
  unfold pinAssign
  rw [Run.bind_get, Run.bind_of_ok (element_of_some hword s), if_pos hzero]
  rfl

theorem pinAssign_of_taken (h : Marks taken s.assignedPins) (hport : port.toNat < tivaNumPorts)
    (hmask : portPins[number.toNat]? = some mask) (htaken : (port, number) ∈ taken) :
    pinAssign port mask s = (.error (.error "Pin already assigned."), s) := by
  have hword : s.assignedPins[port.toNat]? = some s.assignedPins[port.toNat] :=
    Vector.getElem?_eq_getElem hport
  have hset : ¬ _ &&& mask = 0 := fun hzero => (h port number _ mask hword hmask).mp hzero htaken
  unfold pinAssign
  rw [Run.bind_get, Run.bind_of_ok (element_of_some hword s), if_neg hset]
  rfl

end Nuhal.Pins

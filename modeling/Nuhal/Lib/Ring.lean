import Nuhal.Lib.Memory

/-!
# Rings of slots

A block of `cap * size` cells is a ring of `cap` slots of `size` cells: the element with the running
number `j` lies in slot `j % cap`. Elements whose numbers are less than `cap` apart lie in different
slots (`mod_ne`), and writing into one slot leaves the others alone (`slot_store`).
-/

namespace Nuhal.Lib

variable {α : Type} {n : Nat}

/-- Numbers less than `cap` apart have different slots. -/
theorem mod_ne {cap j k : Nat} (hlt : j < k) (hnear : k < j + cap) : j % cap ≠ k % cap := by
  intro h
  have hzero : (k - j) % cap = 0 := Nat.sub_mod_eq_zero_of_mod_eq h.symm
  rw [Nat.mod_eq_of_lt (by omega)] at hzero
  omega

/-- The cells of slot `i`. -/
def slot (v : Vector α n) (size i : Nat) : List α := window v (i * size) size

/-- A slot below `cap` lies inside the block. -/
theorem slot_end (size : Nat) {cap i : Nat} (hi : i < cap) : i * size + size ≤ cap * size := by
  rw [← Nat.succ_mul]
  exact Nat.mul_le_mul_right size hi

/-- Writing inside one slot leaves the others alone. -/
theorem slot_store {v v' : Vector α n} {size i k off : Nat} {xs : List α}
    (h : store v (i * size + off) xs = some v') (hoff : off + xs.length ≤ size) (hne : k ≠ i) :
    slot v' size k = slot v size k := by
  unfold slot
  rcases Nat.lt_or_gt_of_ne hne with hlt | hgt
  · have hend := slot_end size hlt
    exact window_store_before h (by omega)
  · have hend := slot_end size hgt
    exact window_store_after h (by omega)

/-- The first `k` cells of a slot, after the next one was written. -/
theorem window_store_next {v v' : Vector α n} {off k : Nat} {x : α}
    (h : store v (off + k) [x] = some v') : window v' off (k + 1) = window v off k ++ [x] := by
  rw [window_append, window_store_before h (Nat.le_refl _)]
  exact congrArg _ (window_store h)

end Nuhal.Lib

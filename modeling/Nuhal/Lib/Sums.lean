import Mathlib.Algebra.BigOperators.Group.List.Basic

/-!
# Sums that see every element

Where both sides of a sum can be cancelled, replacing one element by another one changes the sum
(`sum_set_ne`).
-/

namespace Nuhal.Lib

variable {α : Type} [AddCancelMonoid α] {l : List α} {i : Nat} {x y : α}

theorem sum_set_ne (hy : l[i]? = some y) (hne : x ≠ y) : (l.set i x).sum ≠ l.sum := by
  obtain ⟨hlt, rfl⟩ := List.getElem?_eq_some_iff.mp hy
  intro hsum
  have hsplit : l = l.take i ++ l[i] :: l.drop (i + 1) := by
    rw [← List.drop_eq_getElem_cons hlt, List.take_append_drop]
  have hcut : (l.set i x).sum = (l.take i).sum + (x + (l.drop (i + 1)).sum) := by
    rw [List.set_eq_take_append_cons_drop, if_pos hlt, List.sum_append, List.sum_cons]
  have hcut' : l.sum = (l.take i).sum + (l[i] + (l.drop (i + 1)).sum) := by
    rw [← List.sum_cons, ← List.sum_append, ← hsplit]
  rw [hcut, hcut'] at hsum
  exact hne (add_right_cancel (add_left_cancel hsum))

end Nuhal.Lib

import Mathlib.Algebra.Order.Ring.Defs
import Mathlib.Algebra.Order.Group.MinMax
import Mathlib.Tactic.Linarith
import Mathlib.Tactic.Ring

/-!
# Clamped numbers and clamped sums

`clamp lo hi x` is `x` brought between `lo` and `hi`. A sum that is clamped after every summand
forgets its history: summands that all pull down by `eps` bring it down by `eps` each, from `hi` at
the most, until it reaches `lo`.

* `clamp_mono`, `le_clamp`, `clamp_le`: the order. `clamp_le_clamp_iff` says when two numbers keep
  it, which they may also do because a bound brings them together.
* `clamp_add_le`, `le_clamp_add`: **one summand further from the bound**.
-/

namespace Nuhal.Lib

/-! ## Clamped numbers -/

section Order

variable {α : Type} [LinearOrder α] {lo hi x y : α}

/-- `x`, brought between `lo` and `hi`. -/
def clamp (lo hi x : α) : α := max lo (min hi x)

theorem le_clamp : lo ≤ clamp lo hi x := le_max_left lo _

theorem clamp_le (h : lo ≤ hi) : clamp lo hi x ≤ hi := max_le h (min_le_left hi x)

theorem clamp_mono (h : x ≤ y) : clamp lo hi x ≤ clamp lo hi y :=
  max_le_max le_rfl (min_le_min le_rfl h)

/-- Two clamped numbers are in order if the numbers are, or if a bound brings them together. -/
theorem clamp_le_clamp_iff :
    clamp lo hi x ≤ clamp lo hi y ↔ x ≤ y ∨ x ≤ lo ∨ hi ≤ y ∨ hi ≤ lo := by
  unfold clamp
  rw [max_le_iff, and_iff_right (le_max_left _ _), le_max_iff, min_le_iff, le_min_iff, min_le_iff,
    min_le_iff, and_iff_right (Or.inl le_rfl)]
  tauto

theorem clamp_le_max : clamp lo hi x ≤ max lo x := max_le_max le_rfl (min_le_right hi x)

theorem min_le_clamp : min hi x ≤ clamp lo hi x := le_max_right lo _

/-- The way C code clamps: above first, then below. -/
theorem clamp_eq_ite (h : lo ≤ hi) :
    clamp lo hi x = if hi < x then hi else if x < lo then lo else x := by
  unfold clamp
  split_ifs with habove hbelow
  · rw [min_eq_left (le_of_lt habove), max_eq_right h]
  · rw [min_eq_right (le_of_not_gt habove), max_eq_left (le_of_lt hbelow)]
  · rw [min_eq_right (le_of_not_gt habove), max_eq_right (le_of_not_gt hbelow)]

end Order

/-! ## Clamped sums -/

section Sum

variable {α : Type} [CommRing α] [LinearOrder α] [IsStrictOrderedRing α]
  {lo hi a d eps : α} {n : Nat}

/-- **One summand down.** -/
theorem clamp_add_le (heps : 0 < eps) (ha : a ≤ max lo (hi - n * eps)) (hd : d ≤ -eps) :
    clamp lo hi (a + d) ≤ max lo (hi - (n + 1 : Nat) * eps) := by
  have hnext : hi - (n + 1 : Nat) * eps = hi - n * eps - eps := by
    push_cast
    ring
  have hsum : a + d ≤ max lo (hi - (n + 1 : Nat) * eps) := by
    rcases le_max_iff.mp ha with hlow | hhigh
    · exact le_max_of_le_left (by linarith)
    · exact le_max_of_le_right (by linarith)
  exact clamp_le_max.trans (max_le (le_max_left _ _) hsum)

/-- **One summand up.** -/
theorem le_clamp_add (heps : 0 < eps) (ha : min hi (lo + n * eps) ≤ a) (hd : eps ≤ d) :
    min hi (lo + (n + 1 : Nat) * eps) ≤ clamp lo hi (a + d) := by
  have hnext : lo + (n + 1 : Nat) * eps = lo + n * eps + eps := by
    push_cast
    ring
  have hsum : min hi (lo + (n + 1 : Nat) * eps) ≤ a + d := by
    rcases min_le_iff.mp ha with hhigh | hlow
    · exact min_le_of_left_le (by linarith)
    · exact min_le_of_right_le (by linarith)
  exact (le_min (min_le_left _ _) hsum).trans min_le_clamp

end Sum

end Nuhal.Lib

import Mathlib.Data.List.Basic

/-!
# Fixed-size memory blocks

A block is a `Vector`, so its size is part of its type. `store` writes a run of consecutive cells
and is defined only when all of them lie inside the block; `window` is the run of `k` cells from
an offset on. The lemmas say what a store leaves in a window (`window_store`), that it leaves the
rest alone (`take_store`, `drop_store`), and that two stores side by side are one store of the
concatenation (`store_store`).
-/

namespace Nuhal.Lib

variable {α : Type} {n : Nat}

/-- Write `xs` into the cells `off, off + 1, …`, if the block has them all. -/
def store (v : Vector α n) (off : Nat) (xs : List α) : Option (Vector α n) :=
  if h : off + xs.length ≤ n then
    some ⟨(v.toList.take off ++ xs ++ v.toList.drop (off + xs.length)).toArray, by
      simp only [List.size_toArray, List.length_append, List.length_take, List.length_drop,
        Vector.length_toList]
      omega⟩
  else none

/-- The cells `off, …, off + k - 1`. -/
def window (v : Vector α n) (off k : Nat) : List α := (v.toList.drop off).take k

theorem store_eq_some {v v' : Vector α n} {off : Nat} {xs : List α} :
    store v off xs = some v' ↔ off + xs.length ≤ n ∧
      v'.toList = v.toList.take off ++ xs ++ v.toList.drop (off + xs.length) := by
  unfold store
  split
  · rename_i h
    constructor
    · rintro ⟨⟩
      exact ⟨h, rfl⟩
    · rintro ⟨-, he⟩
      exact congrArg some (Vector.toList_inj.mp he.symm)
  · rename_i h
    constructor
    · intro he
      cases he
    · rintro ⟨hle, -⟩
      exact absurd hle h

theorem store_eq_none {v : Vector α n} {off : Nat} {xs : List α} :
    store v off xs = none ↔ n < off + xs.length := by
  unfold store
  split
  · rename_i h
    exact ⟨fun he => (Option.some_ne_none _ he).elim, fun hlt => absurd h (by omega)⟩
  · rename_i h
    exact ⟨fun _ => by omega, fun _ => rfl⟩

theorem exists_store {off : Nat} {xs : List α} (v : Vector α n) (h : off + xs.length ≤ n) :
    ∃ v', store v off xs = some v' := by
  cases he : store v off xs with
  | none => exact absurd (store_eq_none.mp he) (by omega)
  | some v' => exact ⟨v', rfl⟩

theorem store_le {v v' : Vector α n} {off : Nat} {xs : List α} (h : store v off xs = some v') :
    off + xs.length ≤ n := (store_eq_some.mp h).1

theorem store_nil {v : Vector α n} {off : Nat} (h : off ≤ n) : store v off [] = some v := by
  rw [store_eq_some]
  exact ⟨by simpa using h, by simp⟩

/-- A store leaves the cells before it alone. -/
theorem take_store {v v' : Vector α n} {off k : Nat} {xs : List α}
    (h : store v off xs = some v') (hk : k ≤ off) : v'.toList.take k = v.toList.take k := by
  obtain ⟨hle, he⟩ := store_eq_some.mp h
  have hlen : (v.toList.take off).length = off := by
    rw [List.length_take, Vector.length_toList]
    omega
  rw [he, List.append_assoc, List.take_append_of_le_length (by omega), List.take_take,
    Nat.min_eq_left hk]

/-- A store leaves the cells after it alone. -/
theorem drop_store {v v' : Vector α n} {off k : Nat} {xs : List α}
    (h : store v off xs = some v') (hk : off + xs.length ≤ k) :
    v'.toList.drop k = v.toList.drop k := by
  obtain ⟨hle, he⟩ := store_eq_some.mp h
  have hlen : (v.toList.take off ++ xs).length = off + xs.length := by
    rw [List.length_append, List.length_take, Vector.length_toList]
    omega
  rw [he, List.drop_append, hlen, List.drop_drop, List.drop_eq_nil_of_le (by omega),
    List.nil_append]
  congr 1
  omega

/-- The stored cells read back. -/
theorem window_store {v v' : Vector α n} {off : Nat} {xs : List α}
    (h : store v off xs = some v') : window v' off xs.length = xs := by
  obtain ⟨hle, he⟩ := store_eq_some.mp h
  have hlen : (v.toList.take off).length = off := by
    rw [List.length_take, Vector.length_toList]
    omega
  unfold window
  rw [he, List.append_assoc, List.drop_left' hlen, List.take_left' rfl]

theorem length_window {v : Vector α n} {off k : Nat} (h : off + k ≤ n) :
    (window v off k).length = k := by
  unfold window
  rw [List.length_take, List.length_drop, Vector.length_toList]
  omega

/-- Writing a run of cells over itself changes nothing. -/
theorem store_window {v : Vector α n} {off k : Nat} (h : off + k ≤ n) :
    store v off (window v off k) = some v := by
  refine store_eq_some.mpr ⟨by rw [length_window h]; exact h, ?_⟩
  rw [length_window h]
  unfold window
  rw [← List.drop_drop, List.append_assoc, List.take_append_drop, List.take_append_drop]

theorem window_append (v : Vector α n) (off j k : Nat) :
    window v off (j + k) = window v off j ++ window v (off + j) k := by
  unfold window
  rw [List.take_add, List.drop_drop]

/-- A window that a store does not reach is unchanged. -/
theorem window_store_before {v v' : Vector α n} {off a k : Nat} {xs : List α}
    (h : store v off xs = some v') (hk : a + k ≤ off) : window v' a k = window v a k := by
  have ht := congrArg (List.drop a) (take_store h hk)
  rw [List.drop_take, List.drop_take, Nat.add_sub_cancel_left] at ht
  exact ht

theorem window_store_after {v v' : Vector α n} {off a k : Nat} {xs : List α}
    (h : store v off xs = some v') (hk : off + xs.length ≤ a) :
    window v' a k = window v a k := by
  unfold window
  rw [drop_store h hk]

/-- Two stores side by side are one store. -/
theorem store_store {v v₁ : Vector α n} {off : Nat} {xs ys : List α}
    (h : store v off xs = some v₁) :
    store v₁ (off + xs.length) ys = store v off (xs ++ ys) := by
  obtain ⟨hle, he⟩ := store_eq_some.mp h
  by_cases hn : off + xs.length + ys.length ≤ n
  · obtain ⟨v₂, h₂⟩ := exists_store v₁ hn
    rw [h₂]
    obtain ⟨-, he₂⟩ := store_eq_some.mp h₂
    refine (store_eq_some.mpr ⟨by rw [List.length_append]; omega, ?_⟩).symm
    have hpre : v₁.toList.take (off + xs.length) = v.toList.take off ++ xs := by
      rw [he, List.take_left']
      rw [List.length_append, List.length_take, Vector.length_toList]
      omega
    rw [he₂, hpre, drop_store h (by omega), List.length_append]
    simp only [List.append_assoc, Nat.add_assoc]
  · rw [store_eq_none.mpr (by omega), store_eq_none.mpr (by rw [List.length_append]; omega)]

/-- The same two stores in the other order. -/
theorem store_store_rev {v v₁ : Vector α n} {off : Nat} {xs ys : List α}
    (h : store v (off + xs.length) ys = some v₁) :
    store v₁ off xs = store v off (xs ++ ys) := by
  obtain ⟨hle, he⟩ := store_eq_some.mp h
  obtain ⟨v₂, h₂⟩ := exists_store v₁ (show off + xs.length ≤ n by omega)
  obtain ⟨-, he₂⟩ := store_eq_some.mp h₂
  rw [h₂]
  refine (store_eq_some.mpr ⟨by rw [List.length_append]; omega, ?_⟩).symm
  have hlen : (v.toList.take (off + xs.length)).length = off + xs.length := by
    rw [List.length_take, Vector.length_toList]
    omega
  have htail : v₁.toList.drop (off + xs.length) =
      ys ++ v.toList.drop (off + xs.length + ys.length) := by
    rw [he, List.append_assoc, List.drop_left' hlen]
  rw [he₂, take_store h (by omega), htail, List.length_append]
  simp only [List.append_assoc, Nat.add_assoc]

end Nuhal.Lib

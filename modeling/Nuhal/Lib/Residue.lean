import Mathlib.Data.Int.ModEq

/-!
# Centred residues

The integers from `-⌈N/2⌉` up to `⌊N/2⌋` hold each residue modulo `N` once, and so do those from 0
up to `N`.

* `eq_of_modEq_of_near`: congruent integers less than the modulus apart are the same.
* `Centred.eq_of_modEq`: so a centred one is known by its residue.
* `exists_residue`: each integer is congruent to a natural number below the modulus.
-/

namespace Nuhal.Lib

variable {N : Nat} {a b v w : Int}

/-- `-⌈N/2⌉ ≤ v < ⌊N/2⌋`. -/
def Centred (N : Nat) (v : Int) : Prop :=
  -(((N + 1) / 2 : Nat) : Int) ≤ v ∧ v < ((N / 2 : Nat) : Int)

theorem eq_of_modEq_of_near (h : a ≡ b [ZMOD N]) (hlow : -(N : Int) < b - a)
    (hhigh : b - a < N) : a = b := by
  have hzero := Int.eq_zero_of_abs_lt_dvd h.dvd (abs_lt.mpr ⟨hlow, hhigh⟩)
  omega

theorem Centred.eq_of_modEq (hv : Centred N v) (hw : Centred N w) (h : v ≡ w [ZMOD N]) :
    v = w := by
  obtain ⟨hvlow, hvhigh⟩ := hv
  obtain ⟨hwlow, hwhigh⟩ := hw
  exact eq_of_modEq_of_near h (by omega) (by omega)

theorem modEq_of_eq_add (h : a = b + N) : a ≡ b [ZMOD N] := by
  rw [h]
  exact Int.add_modulus_modEq_iff.mpr rfl

theorem exists_residue (hN : 0 < N) (a : Int) : ∃ r : Nat, r < N ∧ (r : Int) ≡ a [ZMOD N] := by
  have hpos : (0 : Int) < N := by exact_mod_cast hN
  have hnonneg := Int.emod_nonneg a (Int.ne_of_gt hpos)
  have hlt := Int.emod_lt_of_pos a hpos
  refine ⟨(a % N).toNat, by omega, ?_⟩
  rw [Int.toNat_of_nonneg hnonneg]
  exact Int.mod_modEq a N

end Nuhal.Lib

import Mathlib.LinearAlgebra.CrossProduct
import Mathlib.LinearAlgebra.Matrix.Adjugate
import Mathlib.LinearAlgebra.Matrix.DotProduct
import Mathlib.LinearAlgebra.Matrix.NonsingularInverse
import Mathlib.Tactic.LinearCombination
import Nuhal.Linear.Products

/-!
# Cross products and frames (`nuhal_all/src/matrix.c:259-271`)

A cross product may be taken before its vectors are turned into another frame, or after it: that is
the same for rotations. `crosses_iff` says for which matrices it is, in an ordered field: for the
rotations, the matrices with orthonormal rows and determinant 1, and for zero.

* `matrix3x1Cross_eq`: what the code computes.
* `cross_mulVec`: the cross product of two products.
* **`crosses_iff`**: the matrices that go with it.
-/

namespace Nuhal.Linear

open Nuhal.All Matrix

variable {F : Type} [Field F]

theorem matrix3x1Cross_eq (w v out : Matrix3x1 F) :
    matrix3x1Cross (some w) (some v) (some out) = .ok { data := crossProduct w.data v.data } := by
  refine congrArg (fun d => Except.ok (Matrix3x1.mk d)) ?_
  rw [cross_apply]
  ext i
  fin_cases i <;> simp <;> ring

/-- The cross product of two products is one with the matrix of cofactors. -/
theorem cross_mulVec (A : Matrix (Fin 3) (Fin 3) F) (w v : Fin 3 → F) :
    crossProduct (A *ᵥ w) (A *ᵥ v) = (adjugate A)ᵀ *ᵥ crossProduct w v := by
  rw [cross_apply, cross_apply, adjugate_fin_three]
  ext i
  fin_cases i <;> simp [mulVec, dotProduct, Fin.sum_univ_three] <;> ring

/-- Every vector is a sum of cross products, so they tell matrices apart. -/
theorem eq_of_cross {A B : Matrix (Fin 3) (Fin 3) F}
    (h : ∀ w v : Fin 3 → F, A *ᵥ crossProduct w v = B *ᵥ crossProduct w v) : A = B := by
  have hunit : ∀ j, ∃ w v : Fin 3 → F, crossProduct w v = Pi.single j 1 := by
    intro j
    refine ⟨Pi.single (j + 1) 1, Pi.single (j + 2) 1, ?_⟩
    rw [cross_apply]
    fin_cases j <;> ext i <;> fin_cases i <;> simp
  ext i j
  obtain ⟨w, v, hwv⟩ := hunit j
  have hij := congrFun (h w v) i
  rw [hwv, mulVec_single_one, mulVec_single_one] at hij
  exact hij

/-! ## Rotations -/

/-- `(A w) × (A v)` and `A (w × v)` are computed to be the same. -/
def Crosses (A : Matrix3x3 F) (w v : Matrix3x1 F) : Prop :=
  ∃ w' v' cross out, matrix3x3MultiplyVector (some A) (some w) (some w) = .ok w' ∧
    matrix3x3MultiplyVector (some A) (some v) (some v) = .ok v' ∧
    matrix3x1Cross (some w) (some v) (some w) = .ok cross ∧
    matrix3x1Cross (some w') (some v') (some w) = .ok out ∧
    matrix3x3MultiplyVector (some A) (some cross) (some w) = .ok out

theorem crosses_iff_mulVec (A : Matrix3x3 F) (w v : Matrix3x1 F) :
    Crosses A w v ↔ (adjugate (value A))ᵀ *ᵥ crossProduct w.data v.data =
      value A *ᵥ crossProduct w.data v.data := by
  rw [← cross_mulVec]
  constructor
  · rintro ⟨w', v', cross, out, hw, hv, hcross, hout, hout'⟩
    rw [matrix3x3MultiplyVector_eq] at hw hv hout'
    rw [matrix3x1Cross_eq] at hcross hout
    cases hw
    cases hv
    cases hcross
    cases hout
    exact (congrArg Matrix3x1.data (Except.ok.inj hout')).symm
  · intro h
    refine ⟨_, _, _, _, matrix3x3MultiplyVector_eq A w w, matrix3x3MultiplyVector_eq A v v,
      matrix3x1Cross_eq w v w, matrix3x1Cross_eq _ _ w, ?_⟩
    rw [matrix3x3MultiplyVector_eq]
    exact congrArg (fun d => Except.ok (Matrix3x1.mk d)) h.symm

/-- Orthonormal columns, and no reflection. -/
structure IsRotation (M : Matrix (Fin 3) (Fin 3) F) : Prop where
  orthonormal : Mᵀ * M = 1
  det : M.det = 1

theorem IsRotation.adjugate_transpose {M : Matrix (Fin 3) (Fin 3) F} (h : IsRotation M) :
    (adjugate M)ᵀ = M := by
  have hright : M * Mᵀ = 1 := mul_eq_one_comm.mp h.orthonormal
  have hadjugate : adjugate M = Mᵀ :=
    calc adjugate M = adjugate M * (M * Mᵀ) := by rw [hright, mul_one]
      _ = adjugate M * M * Mᵀ := (mul_assoc _ _ _).symm
      _ = Mᵀ := by rw [adjugate_mul, h.det, one_smul, one_mul]
  rw [hadjugate, transpose_transpose]

variable [LinearOrder F] [IsStrictOrderedRing F]

/-- A matrix whose columns have length 0. -/
theorem eq_zero_of_transpose_mul_self {M : Matrix (Fin 3) (Fin 3) F} (h : Mᵀ * M = 0) : M = 0 := by
  ext i j
  have hcolumn : (fun k => M k j) ⬝ᵥ (fun k => M k j) = 0 := congrFun (congrFun h j) j
  exact congrFun (dotProduct_self_eq_zero.mp hcolumn) i

/-- **The matrices that go with the cross product** are the rotations and zero. -/
theorem crosses_iff (A : Matrix3x3 F) :
    (∀ w v, Crosses A w v) ↔ IsRotation (value A) ∨ value A = 0 := by
  constructor
  · intro h
    have hcofactors : (adjugate (value A))ᵀ = value A := eq_of_cross fun w v =>
      (crosses_iff_mulVec A ⟨w⟩ ⟨v⟩).mp (h ⟨w⟩ ⟨v⟩)
    have htranspose : adjugate (value A) = (value A)ᵀ := by
      rw [← hcofactors, transpose_transpose, hcofactors]
    have hdet : (value A).det = (value A).det ^ 2 :=
      calc (value A).det = (adjugate (value A)).det := by rw [htranspose, det_transpose]
        _ = (value A).det ^ 2 := det_adjugate _
    have hproduct : (value A)ᵀ * value A = (value A).det • 1 := by
      rw [← htranspose, adjugate_mul]
    have hcases : (value A).det = 0 ∨ (value A).det = 1 := by
      have hfactors : (value A).det * ((value A).det - 1) = 0 := by linear_combination -hdet
      exact (mul_eq_zero.mp hfactors).imp_right sub_eq_zero.mp
    rcases hcases with hzero | hone
    · rw [hzero, zero_smul] at hproduct
      exact .inr (eq_zero_of_transpose_mul_self hproduct)
    · rw [hone, one_smul] at hproduct
      exact .inl ⟨hproduct, hone⟩
  · rintro (hrotation | hzero) w v
    · rw [crosses_iff_mulVec, hrotation.adjugate_transpose]
    · rw [crosses_iff_mulVec, ← cross_mulVec, hzero, zero_mulVec, zero_mulVec, zero_mulVec,
        LinearMap.map_zero]

/-- A quarter turn about the third axis. -/
def quarterTurn : Matrix3x3 ℚ where
  data := ![![0, -1, 0], ![1, 0, 0], ![0, 0, 1]]
  transpose := true

theorem crosses_quarterTurn : Crosses quarterTurn ⟨![1, 2, 3]⟩ ⟨![4, 5, 6]⟩ := by
  refine (crosses_iff quarterTurn).mpr (.inl ⟨?_, ?_⟩) _ _
  · ext i j
    fin_cases i <;> fin_cases j <;>
      simp [value, quarterTurn, mul_apply, Fin.sum_univ_three]
  · simp [value, quarterTurn, det_fin_three]

end Nuhal.Linear

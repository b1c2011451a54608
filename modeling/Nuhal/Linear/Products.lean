import Mathlib.Data.Matrix.Mul
import Mathlib.LinearAlgebra.Matrix.Notation
import Nuhal.All.Matrix

/-!
# What the products compute (`nuhal_all/src/matrix.c:115-293`)

A matrix of the source stands for the matrix `value`: its data, transposed if the flag is set.

* `matrix3x3MultiplyVector_eq`, `matrix4x3_3x1MultiplyVector_eq`,
  `matrix4x3T_4x1MultiplyVector_eq`: these three multiply by the value.
* `matrix6x6MultiplyVector_eq`, `matrix3x3MultiplyMatrix_eq`: these two multiply by the data.
* `matrix3x3Transpose_eq`, `matrix3x3ReturnTranspose_eq`: what the two ways of transposing leave.
-/

namespace Nuhal.Linear

open Nuhal.All Matrix

variable {F : Type}

/-- `data`, read as `transpose` says. -/
def flagged {n : Nat} (transpose : Bool) (data : Matrix (Fin n) (Fin n) F) :
    Matrix (Fin n) (Fin n) F :=
  if transpose then dataᵀ else data

/-- The matrix that a `matrix_3x3` stands for. -/
def value (A : Matrix3x3 F) : Matrix (Fin 3) (Fin 3) F := flagged A.transpose (of A.data)

@[simp] theorem flagged_true {n : Nat} (data : Matrix (Fin n) (Fin n) F) :
    flagged true data = dataᵀ := rfl

@[simp] theorem flagged_false {n : Nat} (data : Matrix (Fin n) (Fin n) F) :
    flagged false data = data := rfl

variable [Field F]

theorem matrix3x3MultiplyVector_eq (A : Matrix3x3 F) (x v : Matrix3x1 F) :
    matrix3x3MultiplyVector (some A) (some x) (some v) = .ok { data := value A *ᵥ x.data } := by
  obtain ⟨data, transpose⟩ := A
  cases transpose with
  | true =>
    refine congrArg (fun d => Except.ok (Matrix3x1.mk d)) (funext fun i => ?_)
    fin_cases i <;> simp [value, mulVec, dotProduct, Fin.sum_univ_three]
  | false =>
    refine congrArg (fun d => Except.ok (Matrix3x1.mk d)) (funext fun i => ?_)
    fin_cases i <;> simp [value, mulVec, dotProduct, Fin.sum_univ_three]

theorem matrix4x3_3x1MultiplyVector_eq (data : Fin 4 → Fin 3 → F) (x : Matrix3x1 F)
    (v : Matrix4x1 F) :
    matrix4x3_3x1MultiplyVector (some { data, transpose := false }) (some x) (some v) =
      .ok { data := of data *ᵥ x.data } := by
  refine congrArg (fun d => Except.ok (Matrix4x1.mk d)) (funext fun i => ?_)
  fin_cases i <;> simp [mulVec, dotProduct, Fin.sum_univ_three]

theorem matrix4x3T_4x1MultiplyVector_eq (data : Fin 4 → Fin 3 → F) (x : Matrix4x1 F)
    (v : Matrix3x1 F) :
    matrix4x3T_4x1MultiplyVector (some { data, transpose := true }) (some x) (some v) =
      .ok { data := (of data)ᵀ *ᵥ x.data } := by
  refine congrArg (fun d => Except.ok (Matrix3x1.mk d)) (funext fun i => ?_)
  fin_cases i <;> simp [mulVec, dotProduct, Fin.sum_univ_four]

/-- The flag makes no difference. -/
theorem matrix6x6MultiplyVector_eq (A : Matrix6x6 F) (x v : Matrix6x1 F) :
    matrix6x6MultiplyVector (some A) (some x) (some v) =
      .ok { data := of A.data *ᵥ x.data } := by
  refine congrArg (fun d => Except.ok (Matrix6x1.mk d)) (funext fun i => ?_)
  fin_cases i <;> simp [mulVec, dotProduct, Fin.sum_univ_six]

/-- The flags of the factors make no difference, and that of the output stays. -/
theorem matrix3x3MultiplyMatrix_eq (A x v : Matrix3x3 F) :
    matrix3x3MultiplyMatrix (some A) (some x) (some v) =
      .ok { v with data := of A.data * of x.data } := by
  refine congrArg (fun d => Except.ok (Matrix3x3.mk d v.transpose))
    (funext fun i => funext fun j => ?_)
  fin_cases i <;> fin_cases j <;> simp [Matrix.mul_apply, Fin.sum_univ_three]

/-! ## Transposing -/

omit [Field F] in
theorem matrix3x3Transpose_eq (mat : Matrix3x3 F) :
    matrix3x3Transpose (some mat) = .ok { mat with transpose := !mat.transpose } := rfl

omit [Field F] in
/-- The data is transposed, whatever the flag of `mat`, and the flag of the output stays. -/
theorem matrix3x3ReturnTranspose_eq (mat matTr : Matrix3x3 F) :
    matrix3x3ReturnTranspose (some mat) (some matTr) =
      .ok { matTr with data := (of mat.data)ᵀ } := by
  refine congrArg (fun d => Except.ok (Matrix3x3.mk d matTr.transpose))
    (funext fun i => funext fun j => ?_)
  fin_cases i <;> fin_cases j <;> rfl

end Nuhal.Linear

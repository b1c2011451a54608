import Mathlib.Algebra.Ring.Defs
import Mathlib.Data.Fin.VecNotation
import Nuhal.All.Error

/-!
# Matrices (`nuhal_all/src/matrix.c`)

A matrix is its data and a flag: if `transpose` is set, the data is to be read as transposed
(`matrix.h:15-22`). The numbers are those of any ring, so the rounding of the floats is left out.
A pointer is an `Option`, and what is returned is the new content of the output; no output is the
same object as an input.

The `init` functions (`matrix.c:4-113`), which only store their arguments, are left out.
-/

namespace Nuhal.All

variable {F : Type}

/-- `struct matrix_3x3`. -/
structure Matrix3x3 (F : Type) where
  data : Fin 3 → Fin 3 → F
  transpose : Bool

/-- `struct matrix_3x1`. -/
structure Matrix3x1 (F : Type) where
  data : Fin 3 → F

/-- `struct matrix_4x1`. -/
structure Matrix4x1 (F : Type) where
  data : Fin 4 → F

/-- `struct matrix_6x1`. -/
structure Matrix6x1 (F : Type) where
  data : Fin 6 → F

/-- `struct matrix_4x3`. -/
structure Matrix4x3 (F : Type) where
  data : Fin 4 → Fin 3 → F
  transpose : Bool

/-- `struct matrix_6x6`. -/
structure Matrix6x6 (F : Type) where
  data : Fin 6 → Fin 6 → F
  transpose : Bool

def matrix3x3Transpose (mat : Option (Matrix3x3 F)) : Except Halt (Matrix3x3 F) :=
  match mat with
  | some mat => .ok { mat with transpose := !mat.transpose }
  | none => .error (.error "NULL ptr")

/-- The flag of `*mat` is not looked at, and that of `*mat_tr` stays. -/
def matrix3x3ReturnTranspose (mat matTr : Option (Matrix3x3 F)) : Except Halt (Matrix3x3 F) :=
  match mat, matTr with
  | some mat, some matTr =>
    .ok { matTr with
      data := ![![mat.data 0 0, mat.data 1 0, mat.data 2 0],
                ![mat.data 0 1, mat.data 1 1, mat.data 2 1],
                ![mat.data 0 2, mat.data 1 2, mat.data 2 2]] }
  | _, _ => .error (.error "NULL ptr")

/-! ## Multiplication -/

section Multiply

variable [Add F] [Mul F]

def matrix3x3MultiplyVector (A : Option (Matrix3x3 F)) (x v : Option (Matrix3x1 F)) :
    Except Halt (Matrix3x1 F) :=
  match A, x, v with
  | some A, some x, some _ =>
    if A.transpose then
      .ok { data :=
        ![A.data 0 0 * x.data 0 + A.data 1 0 * x.data 1 + A.data 2 0 * x.data 2,
          A.data 0 1 * x.data 0 + A.data 1 1 * x.data 1 + A.data 2 1 * x.data 2,
          A.data 0 2 * x.data 0 + A.data 1 2 * x.data 1 + A.data 2 2 * x.data 2] }
    else
      .ok { data :=
        ![A.data 0 0 * x.data 0 + A.data 0 1 * x.data 1 + A.data 0 2 * x.data 2,
          A.data 1 0 * x.data 0 + A.data 1 1 * x.data 1 + A.data 1 2 * x.data 2,
          A.data 2 0 * x.data 0 + A.data 2 1 * x.data 1 + A.data 2 2 * x.data 2] }
  | _, _, _ => .error (.error "NULL ptr")

def matrix4x3_3x1MultiplyVector (A : Option (Matrix4x3 F)) (x : Option (Matrix3x1 F))
    (v : Option (Matrix4x1 F)) : Except Halt (Matrix4x1 F) :=
  match A, x, v with
  | some A, some x, some _ =>
    if A.transpose then
      .error (.error "Invalid shape")
    else
      .ok { data :=
        ![A.data 0 0 * x.data 0 + A.data 0 1 * x.data 1 + A.data 0 2 * x.data 2,
          A.data 1 0 * x.data 0 + A.data 1 1 * x.data 1 + A.data 1 2 * x.data 2,
          A.data 2 0 * x.data 0 + A.data 2 1 * x.data 1 + A.data 2 2 * x.data 2,
          A.data 3 0 * x.data 0 + A.data 3 1 * x.data 1 + A.data 3 2 * x.data 2] }
  | _, _, _ => .error (.error "NULL ptr")

def matrix4x3T_4x1MultiplyVector (A : Option (Matrix4x3 F)) (x : Option (Matrix4x1 F))
    (v : Option (Matrix3x1 F)) : Except Halt (Matrix3x1 F) :=
  match A, x, v with
  | some A, some x, some _ =>
    if !A.transpose then
      .error (.error "Invalid shape")
    else
      .ok { data :=
        ![A.data 0 0 * x.data 0 + A.data 1 0 * x.data 1 + A.data 2 0 * x.data 2 +
            A.data 3 0 * x.data 3,
          A.data 0 1 * x.data 0 + A.data 1 1 * x.data 1 + A.data 2 1 * x.data 2 +
            A.data 3 1 * x.data 3,
          A.data 0 2 * x.data 0 + A.data 1 2 * x.data 1 + A.data 2 2 * x.data 2 +
            A.data 3 2 * x.data 3] }
  | _, _, _ => .error (.error "NULL ptr")

/-- The flag of `*A` is not looked at. -/
def matrix6x6MultiplyVector (A : Option (Matrix6x6 F)) (x v : Option (Matrix6x1 F)) :
    Except Halt (Matrix6x1 F) :=
  match A, x, v with
  | some A, some x, some _ =>
    .ok { data :=
      ![A.data 0 0 * x.data 0 + A.data 0 1 * x.data 1 + A.data 0 2 * x.data 2 +
          A.data 0 3 * x.data 3 + A.data 0 4 * x.data 4 + A.data 0 5 * x.data 5,
        A.data 1 0 * x.data 0 + A.data 1 1 * x.data 1 + A.data 1 2 * x.data 2 +
          A.data 1 3 * x.data 3 + A.data 1 4 * x.data 4 + A.data 1 5 * x.data 5,
        A.data 2 0 * x.data 0 + A.data 2 1 * x.data 1 + A.data 2 2 * x.data 2 +
          A.data 2 3 * x.data 3 + A.data 2 4 * x.data 4 + A.data 2 5 * x.data 5,
        A.data 3 0 * x.data 0 + A.data 3 1 * x.data 1 + A.data 3 2 * x.data 2 +
          A.data 3 3 * x.data 3 + A.data 3 4 * x.data 4 + A.data 3 5 * x.data 5,
        A.data 4 0 * x.data 0 + A.data 4 1 * x.data 1 + A.data 4 2 * x.data 2 +
          A.data 4 3 * x.data 3 + A.data 4 4 * x.data 4 + A.data 4 5 * x.data 5,
        A.data 5 0 * x.data 0 + A.data 5 1 * x.data 1 + A.data 5 2 * x.data 2 +
          A.data 5 3 * x.data 3 + A.data 5 4 * x.data 4 + A.data 5 5 * x.data 5] }
  | _, _, _ => .error (.error "NULL ptr")

/-- The flags of `*A` and `*x` are not looked at, and that of `*v` stays. -/
def matrix3x3MultiplyMatrix (A x v : Option (Matrix3x3 F)) : Except Halt (Matrix3x3 F) :=
  match A, x, v with
  | some A, some x, some v =>
    .ok { v with
      data := ![![A.data 0 0 * x.data 0 0 + A.data 0 1 * x.data 1 0 + A.data 0 2 * x.data 2 0,
                  A.data 0 0 * x.data 0 1 + A.data 0 1 * x.data 1 1 + A.data 0 2 * x.data 2 1,
                  A.data 0 0 * x.data 0 2 + A.data 0 1 * x.data 1 2 + A.data 0 2 * x.data 2 2],
                ![A.data 1 0 * x.data 0 0 + A.data 1 1 * x.data 1 0 + A.data 1 2 * x.data 2 0,
                  A.data 1 0 * x.data 0 1 + A.data 1 1 * x.data 1 1 + A.data 1 2 * x.data 2 1,
                  A.data 1 0 * x.data 0 2 + A.data 1 1 * x.data 1 2 + A.data 1 2 * x.data 2 2],
                ![A.data 2 0 * x.data 0 0 + A.data 2 1 * x.data 1 0 + A.data 2 2 * x.data 2 0,
                  A.data 2 0 * x.data 0 1 + A.data 2 1 * x.data 1 1 + A.data 2 2 * x.data 2 1,
                  A.data 2 0 * x.data 0 2 + A.data 2 1 * x.data 1 2 + A.data 2 2 * x.data 2 2]] }
  | _, _, _ => .error (.error "NULL ptr")

end Multiply

def matrix3x1Cross [Sub F] [Mul F] (w v out : Option (Matrix3x1 F)) :
    Except Halt (Matrix3x1 F) :=
  match w, v, out with
  | some w, some v, some _ =>
    .ok { data :=
      ![w.data 1 * v.data 2 - v.data 1 * w.data 2,
        v.data 0 * w.data 2 - w.data 0 * v.data 2,
        w.data 0 * v.data 1 - v.data 0 * w.data 1] }
  | _, _, _ => .error (.error "NULL ptr")

end Nuhal.All

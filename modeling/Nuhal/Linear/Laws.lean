import Mathlib.Algebra.Field.Rat
import Mathlib.LinearAlgebra.Matrix.Symmetric
import Nuhal.Linear.Products

/-!
# The laws of the matrix functions (`nuhal_all/src/matrix.c:115-293`)

Three laws of matrices, and when the functions keep them. A flag is respected where a matrix is
multiplied by a vector of three or four elements, and overlooked elsewhere.

* `composes_iff`: **a product is a composition if no flag is set**, and for no other flags in
  general.
* `transposes_agree_iff`: **the copied transpose is the flagged one if the destination's flag is
  already that of the matrix**, or the data is symmetric.
* `adjoint_iff`: **transposing is taking the adjoint**, for a 6x6 matrix if its data is symmetric.
-/

namespace Nuhal.Linear

open Nuhal.All Matrix

variable {F : Type}

/-! ## The flag -/

/-- A matrix that is not its own transpose. -/
def shift [Zero F] [One F] : Matrix (Fin 3) (Fin 3) F := !![0, 1, 0; 0, 0, 0; 0, 0, 0]

theorem transpose_shift [Zero F] [One F] :
    (shift : Matrix (Fin 3) (Fin 3) F)ᵀ = !![0, 0, 0; 1, 0, 0; 0, 0, 0] := by
  funext i j
  fin_cases i <;> fin_cases j <;> rfl

variable [Field F]

theorem shift_ne_transpose : (shift : Matrix (Fin 3) (Fin 3) F) ≠ shiftᵀ := by
  intro h
  have hentry := congrFun (congrFun h 0) 1
  simp [shift] at hentry

/-- `shift` and its transpose do not commute. -/
theorem shift_mul_transpose :
    (shift : Matrix (Fin 3) (Fin 3) F) * shiftᵀ ≠ shiftᵀ * shift := by
  rw [transpose_shift]
  intro h
  have hentry := congrFun (congrFun h 0) 0
  simp [shift, Matrix.mul_apply, Fin.sum_univ_three] at hentry

/-- The flag of `shift` shows. -/
theorem flagged_shift_inj {s t : Bool}
    (h : flagged s (shift : Matrix (Fin 3) (Fin 3) F) = flagged t shift) : s = t := by
  cases s <;> cases t
  · rfl
  · exact absurd h shift_ne_transpose
  · exact absurd h.symm shift_ne_transpose
  · rfl

omit [Field F] in
theorem flagged_not_eq_iff (s t : Bool) (data : Matrix (Fin 3) (Fin 3) F) :
    flagged (!s) data = flagged t dataᵀ ↔ s = t ∨ data.IsSymm := by
  unfold Matrix.IsSymm
  cases s <;> cases t <;> simp [eq_comm]

/-- A law that is an equation of products with `x` for each vector `x` is one equation between the
matrices. -/
theorem forall_iff_of_mulVec {P : Matrix3x1 F → Matrix3x1 F → Prop} {M N : Matrix (Fin 3) (Fin 3) F}
    (hP : ∀ x v, P x v ↔ M *ᵥ x.data = N *ᵥ x.data) : (∀ x v, P x v) ↔ M = N := by
  rw [ext_iff_mulVec]
  constructor
  · intro h x
    exact (hP { data := x } { data := x }).mp (h _ _)
  · intro h x v
    exact (hP x v).mpr (h x.data)

/-! ## Composition -/

/-- Multiplying `x` by the product that is left in `out` is multiplying it by `B` and then by `A`;
`v` is the prior content of the outputs. -/
def Composes (A B out : Matrix3x3 F) (x v : Matrix3x1 F) : Prop :=
  ∃ AB Bx y, matrix3x3MultiplyMatrix (some A) (some B) (some out) = .ok AB ∧
    matrix3x3MultiplyVector (some B) (some x) (some v) = .ok Bx ∧
    matrix3x3MultiplyVector (some AB) (some x) (some v) = .ok y ∧
    matrix3x3MultiplyVector (some A) (some Bx) (some v) = .ok y

theorem composes_iff_mulVec (A B out : Matrix3x3 F) (x v : Matrix3x1 F) :
    Composes A B out x v ↔
      flagged out.transpose (of A.data * of B.data) *ᵥ x.data = (value A * value B) *ᵥ x.data := by
  unfold Composes
  rw [← mulVec_mulVec]
  constructor
  · rintro ⟨AB, Bx, y, hAB, hBx, hy, hy'⟩
    rw [matrix3x3MultiplyMatrix_eq] at hAB
    rw [matrix3x3MultiplyVector_eq] at hBx
    cases hAB
    cases hBx
    rw [matrix3x3MultiplyVector_eq] at hy hy'
    cases hy
    exact (congrArg Matrix3x1.data (Except.ok.inj hy')).symm
  · intro h
    refine ⟨_, _, _, matrix3x3MultiplyMatrix_eq A B out, matrix3x3MultiplyVector_eq B x v,
      matrix3x3MultiplyVector_eq _ x v, ?_⟩
    rw [matrix3x3MultiplyVector_eq]
    exact congrArg (fun d => Except.ok (Matrix3x1.mk d)) h.symm

/-- For given matrices the law is one equation between them. -/
theorem composes_forall_iff (A B out : Matrix3x3 F) :
    (∀ x v, Composes A B out x v) ↔
      flagged out.transpose (of A.data * of B.data) = value A * value B :=
  forall_iff_of_mulVec (composes_iff_mulVec A B out)

/-- **A product is a composition if no flag is set.** For given matrices it is one just if the
product of the data, read by the flag of the output, is the product of the matrices; it is one for
all data just if none of the three flags is set. -/
theorem composes_iff :
    (∀ A B out : Matrix3x3 F, (∀ x v, Composes A B out x v) ↔
      flagged out.transpose (of A.data * of B.data) = value A * value B) ∧
    ∀ a b o : Bool, (∀ (A B out : Fin 3 → Fin 3 → F) (x v : Matrix3x1 F),
        Composes { data := A, transpose := a } { data := B, transpose := b }
          { data := out, transpose := o } x v) ↔
      a = false ∧ b = false ∧ o = false := by
  refine ⟨composes_forall_iff, fun a b o => ?_⟩
  constructor
  · intro h
    have hdata : ∀ A B : Matrix (Fin 3) (Fin 3) F,
        flagged o (A * B) = flagged a A * flagged b B := fun A B =>
      (composes_forall_iff { data := A, transpose := a } { data := B, transpose := b }
        { data := A, transpose := o }).mp (h A B A)
    -- the unit matrix as one factor shows that the output has the flag of the other
    have hone : ∀ t, flagged t (1 : Matrix (Fin 3) (Fin 3) F) = 1 := by
      intro t
      cases t <;> simp
    have hoa : o = a := by
      have := hdata shift 1
      rw [hone, mul_one, mul_one] at this
      exact flagged_shift_inj this
    have hob : o = b := by
      have := hdata 1 shift
      rw [hone, one_mul, one_mul] at this
      exact flagged_shift_inj this
    subst hoa hob
    cases o with
    | false => exact ⟨rfl, rfl, rfl⟩
    | true =>
      -- with all flags set the order of the factors is reversed
      have hswap := hdata shift shiftᵀ
      rw [flagged_true, flagged_true, flagged_true, transpose_mul, transpose_transpose] at hswap
      exact absurd hswap shift_mul_transpose
  · rintro ⟨rfl, rfl, rfl⟩ A B out x v
    exact (composes_iff_mulVec _ _ _ x v).mpr rfl

/-- **A flag that is overlooked.** The transpose of `shift`, by its flag, times the unit matrix. -/
theorem flagged_factor_not_composed :
    ¬ Composes ({ data := shift, transpose := true } : Matrix3x3 ℚ)
      { data := (1 : Matrix (Fin 3) (Fin 3) ℚ), transpose := false }
      { data := 0, transpose := false } { data := ![1, 0, 0] } { data := 0 } := by
  intro h
  have hdata : (shift * 1 : Matrix (Fin 3) (Fin 3) ℚ) *ᵥ ![1, 0, 0] =
      (shiftᵀ * 1) *ᵥ ![1, 0, 0] := (composes_iff_mulVec _ _ _ _ _).mp h
  rw [mul_one, mul_one, transpose_shift] at hdata
  have hentry := congrFun hdata 1
  simp [shift, mulVec, dotProduct, Fin.sum_univ_three] at hentry

/-! ## The two ways of transposing -/

/-- The transpose of `m` that is copied to `dest` and `m` transposed in place take `x` to the same
vector. -/
def TransposesAgree (m dest : Matrix3x3 F) (x v : Matrix3x1 F) : Prop :=
  ∃ copy m' y, matrix3x3ReturnTranspose (some m) (some dest) = .ok copy ∧
    matrix3x3Transpose (some m) = .ok m' ∧
    matrix3x3MultiplyVector (some copy) (some x) (some v) = .ok y ∧
    matrix3x3MultiplyVector (some m') (some x) (some v) = .ok y

theorem transposesAgree_iff_mulVec (m dest : Matrix3x3 F) (x v : Matrix3x1 F) :
    TransposesAgree m dest x v ↔
      flagged (!m.transpose) (of m.data) *ᵥ x.data =
        flagged dest.transpose (of m.data)ᵀ *ᵥ x.data := by
  unfold TransposesAgree
  constructor
  · rintro ⟨copy, m', y, hcopy, hm', hy, hy'⟩
    rw [matrix3x3ReturnTranspose_eq] at hcopy
    rw [matrix3x3Transpose_eq] at hm'
    cases hcopy
    cases hm'
    rw [matrix3x3MultiplyVector_eq] at hy hy'
    cases hy
    exact congrArg Matrix3x1.data (Except.ok.inj hy')
  · intro h
    refine ⟨_, _, _, matrix3x3ReturnTranspose_eq m dest, matrix3x3Transpose_eq m,
      matrix3x3MultiplyVector_eq _ x v, ?_⟩
    rw [matrix3x3MultiplyVector_eq]
    exact congrArg (fun d => Except.ok (Matrix3x1.mk d)) h

/-- **The two ways of transposing agree if the destination has the flag of the matrix**, or if the
data is symmetric. -/
theorem transposes_agree_iff (m dest : Matrix3x3 F) :
    (∀ x v, TransposesAgree m dest x v) ↔
      m.transpose = dest.transpose ∨ (of m.data).IsSymm := by
  rw [← flagged_not_eq_iff]
  exact forall_iff_of_mulVec (transposesAgree_iff_mulVec m dest)

/-- **A destination whose flag is set.** What was copied in transposed order is read as transposed
once more. -/
theorem transposes_disagree :
    ¬ TransposesAgree ({ data := shift, transpose := false } : Matrix3x3 ℚ)
      { data := 0, transpose := true } { data := ![1, 0, 0] } { data := 0 } := by
  intro h
  have hdata : (shiftᵀ : Matrix (Fin 3) (Fin 3) ℚ) *ᵥ ![1, 0, 0] = shiftᵀᵀ *ᵥ ![1, 0, 0] :=
    (transposesAgree_iff_mulVec _ _ _ _).mp h
  rw [transpose_transpose, transpose_shift] at hdata
  have hentry := congrFun hdata 1
  simp [shift, mulVec, dotProduct, Fin.sum_univ_three] at hentry

/-! ## The adjoint -/

/-- `A x` times `y` is `x` times `A' y`, where `A'` is `A` with its flag set. -/
def Adjoint3x3 (A : Fin 3 → Fin 3 → F) (x y v : Matrix3x1 F) : Prop :=
  ∃ Ax Ay,
    matrix3x3MultiplyVector (some { data := A, transpose := false }) (some x) (some v) = .ok Ax ∧
    matrix3x3MultiplyVector (some { data := A, transpose := true }) (some y) (some v) = .ok Ay ∧
    Ax.data ⬝ᵥ y.data = x.data ⬝ᵥ Ay.data

@[inherit_doc Adjoint3x3]
def Adjoint4x3 (A : Fin 4 → Fin 3 → F) (x v : Matrix3x1 F) (y w : Matrix4x1 F) : Prop :=
  ∃ Ax Ay,
    matrix4x3_3x1MultiplyVector (some { data := A, transpose := false }) (some x) (some w) =
      .ok Ax ∧
    matrix4x3T_4x1MultiplyVector (some { data := A, transpose := true }) (some y) (some v) =
      .ok Ay ∧
    Ax.data ⬝ᵥ y.data = x.data ⬝ᵥ Ay.data

@[inherit_doc Adjoint3x3]
def Adjoint6x6 (A : Fin 6 → Fin 6 → F) (x y v : Matrix6x1 F) : Prop :=
  ∃ Ax Ay,
    matrix6x6MultiplyVector (some { data := A, transpose := false }) (some x) (some v) = .ok Ax ∧
    matrix6x6MultiplyVector (some { data := A, transpose := true }) (some y) (some v) = .ok Ay ∧
    Ax.data ⬝ᵥ y.data = x.data ⬝ᵥ Ay.data

/-- The law itself, for matrices of any shape. -/
theorem mulVec_dotProduct_eq {m n : Nat} (A : Matrix (Fin m) (Fin n) F) (x : Fin n → F)
    (y : Fin m → F) : A *ᵥ x ⬝ᵥ y = x ⬝ᵥ Aᵀ *ᵥ y := by
  rw [dotProduct_mulVec, vecMul_transpose]

theorem adjoint3x3 (A : Fin 3 → Fin 3 → F) (x y v : Matrix3x1 F) : Adjoint3x3 A x y v :=
  ⟨_, _, matrix3x3MultiplyVector_eq _ x v, matrix3x3MultiplyVector_eq _ y v,
    mulVec_dotProduct_eq (of A) x.data y.data⟩

theorem adjoint4x3 (A : Fin 4 → Fin 3 → F) (x v : Matrix3x1 F) (y w : Matrix4x1 F) :
    Adjoint4x3 A x v y w :=
  ⟨_, _, matrix4x3_3x1MultiplyVector_eq A x w, matrix4x3T_4x1MultiplyVector_eq A y v,
    mulVec_dotProduct_eq (of A) x.data y.data⟩

theorem adjoint6x6_iff_dotProduct (A : Fin 6 → Fin 6 → F) (x y v : Matrix6x1 F) :
    Adjoint6x6 A x y v ↔ of A *ᵥ x.data ⬝ᵥ y.data = x.data ⬝ᵥ of A *ᵥ y.data := by
  unfold Adjoint6x6
  constructor
  · rintro ⟨Ax, Ay, hx, hy, h⟩
    rw [matrix6x6MultiplyVector_eq] at hx hy
    cases hx
    cases hy
    exact h
  · intro h
    exact ⟨_, _, matrix6x6MultiplyVector_eq _ x v, matrix6x6MultiplyVector_eq _ y v, h⟩

/-- With the flag overlooked, the law holds for the matrices that are their own adjoint. -/
theorem adjoint6x6_iff (A : Fin 6 → Fin 6 → F) :
    (∀ x y v, Adjoint6x6 A x y v) ↔ (of A).IsSymm := by
  constructor
  · intro h
    funext i j
    have hij := (adjoint6x6_iff_dotProduct A { data := Pi.single i 1 } { data := Pi.single j 1 }
      { data := 0 }).mp (h _ _ _)
    rw [dotProduct_single_one, single_one_dotProduct, mulVec_single_one, mulVec_single_one] at hij
    exact hij
  · intro hsymm x y v
    refine (adjoint6x6_iff_dotProduct A x y v).mpr ?_
    rw [mulVec_dotProduct_eq, hsymm.eq]

/-- **Transposing by the flag is taking the adjoint**, for a 6x6 matrix just if its data is
symmetric. -/
theorem adjoint_iff (A₃ : Fin 3 → Fin 3 → F) (A₄ : Fin 4 → Fin 3 → F) (A₆ : Fin 6 → Fin 6 → F) :
    ((∀ x y v, Adjoint3x3 A₃ x y v) ∧ (∀ x v y w, Adjoint4x3 A₄ x v y w) ∧
      ∀ x y v, Adjoint6x6 A₆ x y v) ↔ (of A₆).IsSymm := by
  rw [adjoint6x6_iff]
  constructor
  · rintro ⟨-, -, hsymm⟩
    exact hsymm
  · intro hsymm
    exact ⟨adjoint3x3 A₃, adjoint4x3 A₄, hsymm⟩

/-- **A 6x6 matrix whose flag is overlooked**: the one entry off the diagonal stays where it is. -/
theorem adjoint6x6_fails :
    ¬ Adjoint6x6 (fun i j => if i = 0 ∧ j = 1 then (1 : ℚ) else 0) { data := Pi.single 1 1 }
      { data := Pi.single 0 1 } { data := 0 } := by
  intro h
  have hij := (adjoint6x6_iff_dotProduct _ _ _ _).mp h
  rw [dotProduct_single_one, single_one_dotProduct, mulVec_single_one, mulVec_single_one] at hij
  simp at hij

end Nuhal.Linear

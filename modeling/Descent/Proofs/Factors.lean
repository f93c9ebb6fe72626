import Descent.Proofs.Elimination

/-!
The factors as matrices. Their product is the matrix with its rows interchanged, but for the pivots
that were replaced; without those the diagonal has the determinant, so that a nonsingular matrix
has none.
-/

namespace Descent

open Scalar Finset

namespace Elimination

variable {F : Type} [Field F] [LinearOrder F] [Exact F] [IsStrictOrderedRing F] {n : ℕ}

section Matrices

variable {matrix : Grid F n n} {replaced : Fin n → Prop} [DecidablePred replaced]
variable {state : Elimination F n}

/-- Marks the pivots that were replaced. -/
def marks (F : Type) [Field F] (replaced : Fin n → Prop) [DecidablePred replaced] :
    Matrix (Fin n) (Fin n) F :=
  Matrix.diagonal fun j => if replaced j then 1 else 0

omit [IsStrictOrderedRing F] in
theorem lower_mul_upper_eq (done : Factored matrix replaced n state) :
    state.factors.lower * state.factors.upper =
      (rowOrder state.pivots n).permMatrix F * matrix.toMatrix + (tiny : F) • marks F replaced := by
  ext i j
  rw [Grid.lower_mul_upper, done.product i j j.2, PEquiv.toMatrix_toPEquiv_mul]
  by_cases diagonal : i = j
  · subst diagonal
    simp [marks]
  · simp [marks, diagonal]

omit [IsStrictOrderedRing F] in
theorem lower_mul_marks (done : Factored matrix replaced n state) :
    state.factors.lower * marks F replaced = marks F replaced := by
  ext i j
  rw [marks, Matrix.mul_diagonal]
  by_cases mark : replaced j
  · rcases lt_trichotomy i j with above | same | below
    · simp [Grid.lower, above.ne, above.not_gt]
    · simp [Grid.lower, same]
    · simp [Grid.lower, below, below.ne', (done.replaced j j.2 mark).2 i below]
  · by_cases diagonal : i = j <;> simp [mark, diagonal]

omit [IsStrictOrderedRing F] in
theorem sign_mul_det (done : Factored matrix replaced n state) :
    ((Equiv.Perm.sign (rowOrder state.pivots n) : ℤ) : F) * matrix.toMatrix.det =
      ∏ j, (state.factors.entry j j - if replaced j then tiny else 0) := by
  have product : (rowOrder state.pivots n).permMatrix F * matrix.toMatrix =
      state.factors.lower * (state.factors.upper - (tiny : F) • marks F replaced) := by
    rw [mul_sub, Matrix.mul_smul, lower_mul_marks done, lower_mul_upper_eq done,
      add_sub_cancel_right]
  have lower : state.factors.lower.det = 1 := by
    rw [Matrix.det_of_isLowerTriangular _ state.factors.isLowerTriangular_lower]
    simp [Grid.lower]
  have upper : (state.factors.upper - (tiny : F) • marks F replaced).det =
      ∏ j, (state.factors.entry j j - if replaced j then tiny else 0) := by
    rw [Matrix.det_of_isUpperTriangular]
    · simp [Grid.upper, marks]
    · intro i j below
      have after : j < i := below
      simp [Grid.upper, marks, after.not_ge, after.ne']
  rw [← Matrix.det_permutation, ← Matrix.det_mul, product, Matrix.det_mul, lower, upper, one_mul]

omit [IsStrictOrderedRing F] in
theorem not_replaced (done : Factored matrix replaced n state)
    (nonsingular : matrix.toMatrix.det ≠ 0) (j : Fin n) : ¬ replaced j := by
  intro mark
  have sign := left_ne_zero_of_mul_eq_one (sign_mul_sign (F := F) (rowOrder state.pivots n))
  have nonzero := mul_ne_zero sign nonsingular
  rw [sign_mul_det done, Finset.prod_ne_zero_iff] at nonzero
  apply nonzero j (mem_univ j)
  rw [if_pos mark, (done.replaced j j.2 mark).1, sub_self]

omit [IsStrictOrderedRing F] in
theorem determinant_eq (done : Factored matrix replaced n state)
    (nonsingular : matrix.toMatrix.det ≠ 0) :
    Factorization.determinant
      { factors := state.factors, pivots := state.pivots, parity := state.parity } =
      matrix.toMatrix.det := by
  have diagonal : ∏ j, state.factors.entry j j =
      ((Equiv.Perm.sign (rowOrder state.pivots n) : ℤ) : F) * matrix.toMatrix.det := by
    rw [sign_mul_det done]
    apply Finset.prod_congr rfl
    intro j _
    rw [if_neg (not_replaced done nonsingular j), sub_zero]
  rw [Factorization.determinant, foldl_mul, done.parity, diagonal, ← mul_assoc, sign_mul_sign,
    one_mul]

end Matrices

/-- Rows that are not all zeros are factored, whatever the storage held. -/
theorem decompose_factored (work : Workspace F n) (nonzero : ∀ i, ∃ j, work.matrix.entry i j ≠ 0) :
    ∃ weights, Elimination.weights work.matrix work.scale = .ok weights ∧
      Factored work.matrix (Replaced work.matrix weights) n (run work.matrix weights) ∧
      work.decompose = (.ok (run work.matrix weights).parity,
        { matrix := (run work.matrix weights).factors
          scale := (run work.matrix weights).scale
          permutation := (run work.matrix weights).pivots.map Fin.val }) ∧
      Factorization.ofMatrix work.matrix = .ok
        { factors := (run work.matrix weights).factors
          pivots := (run work.matrix weights).pivots
          parity := (run work.matrix weights).parity } := by
  obtain ⟨weights, found, weighed⟩ := weights_ok work.scale nonzero
  obtain ⟨fresh, foundFresh, weighedFresh⟩ := weights_ok (Kernel.zeros n) nonzero
  have same : fresh = weights := by
    apply Vector.ext
    intro i inside
    exact Option.some.inj
      ((weighedFresh ⟨i, inside⟩ inside).symm.trans (weighed ⟨i, inside⟩ inside))
  subst same
  refine ⟨fresh, found, run_factored _ (weights_pos nonzero weighed), ?_, ?_⟩
  · rw [Workspace.decompose, found]
  · rw [Factorization.ofMatrix, foundFresh]

end Elimination

namespace Factorization

variable {F : Type} [Field F] [LinearOrder F] [Exact F] {n : ℕ}

open Elimination

/-- The triangles give the interchanged rows of the matrix, but for the pivots that came out as
zero and were replaced. -/
structure Decomposes (lu : Factorization F n) (matrix : Grid F n n) (replaced : Fin n → Prop)
    [DecidablePred replaced] : Prop where
  onward : ∀ j : Fin n, j ≤ lu.pivots.get j
  product : lu.factors.lower * lu.factors.upper =
    (rowOrder lu.pivots n).permMatrix F * matrix.toMatrix + (tiny : F) • marks F replaced
  lower : lu.factors.lower.IsLowerTriangular
  unit : ∀ j, lu.factors.lower j j = 1
  upper : lu.factors.upper.IsUpperTriangular
  pivot : ∀ j, lu.factors.upper j j ≠ 0
  mended : ∀ j, replaced j → lu.factors.upper j j = tiny ∧ ∀ i, j < i → lu.factors.lower i j = 0
  parity : lu.parity = ((Equiv.Perm.sign (rowOrder lu.pivots n) : ℤ) : F)
  nonsingular : matrix.toMatrix.det ≠ 0 →
    (∀ j, ¬ replaced j) ∧ lu.determinant = matrix.toMatrix.det

theorem decomposes_of_factored {matrix : Grid F n n} {replaced : Fin n → Prop}
    [DecidablePred replaced] {state : Elimination F n} (done : Factored matrix replaced n state) :
    Decomposes { factors := state.factors, pivots := state.pivots, parity := state.parity }
      matrix replaced where
  onward j := done.onward j j.2
  product := lower_mul_upper_eq done
  lower := state.factors.isLowerTriangular_lower
  unit j := by simp [Grid.lower]
  upper := state.factors.isUpperTriangular_upper
  pivot j := by simpa [Grid.upper] using done.pivot j j.2
  mended j mark := by
    have fill := done.replaced j j.2 mark
    constructor
    · simpa [Grid.upper] using fill.1
    · intro i below
      simpa [Grid.lower, below] using fill.2 i below
  parity := done.parity
  nonsingular nonzero := ⟨not_replaced done nonzero, determinant_eq done nonzero⟩

/-- A matrix without a row of zeros is decomposed, in its own storage or in new storage. -/
theorem decompose_decomposes [IsStrictOrderedRing F] (work : Workspace F n)
    (nonzero : ∀ i, ∃ j, work.matrix.entry i j ≠ 0) :
    ∃ weights scale lu, Elimination.weights work.matrix work.scale = .ok weights ∧
      work.decompose = (.ok lu.parity,
        { matrix := lu.factors, scale, permutation := lu.pivots.map Fin.val }) ∧
      ofMatrix work.matrix = .ok lu ∧ lu.Decomposes work.matrix (Replaced work.matrix weights) := by
  obtain ⟨weights, found, done, decomposed, factored⟩ := decompose_factored work nonzero
  exact ⟨weights, _, _, found, decomposed, factored, decomposes_of_factored done⟩

/-- Two equal rows: they are interchanged, and the second pivot is replaced. -/
def equalRows : Workspace ℚ 2 where
  matrix := Vector.replicate 2 (Vector.replicate 2 1)
  scale := Vector.replicate 2 0
  permutation := Vector.replicate 2 0

theorem decompose_decomposes_equalRows :
    (∀ i, ∃ j, equalRows.matrix.entry i j ≠ 0) ∧ equalRows.decompose.1 = .ok (-1) ∧
      Replaced equalRows.matrix (Vector.replicate 2 1) 1 ∧
      ∃ weights scale lu, Elimination.weights equalRows.matrix equalRows.scale = .ok weights ∧
        equalRows.decompose = (.ok lu.parity,
          { matrix := lu.factors, scale, permutation := lu.pivots.map Fin.val }) ∧
        ofMatrix equalRows.matrix = .ok lu ∧
        lu.Decomposes equalRows.matrix (Replaced equalRows.matrix weights) := by
  have nonzero : ∀ i, ∃ j, equalRows.matrix.entry i j ≠ 0 := by decide +kernel
  exact ⟨nonzero, by decide +kernel, by decide +kernel, decompose_decomposes equalRows nonzero⟩

end Factorization

end Descent

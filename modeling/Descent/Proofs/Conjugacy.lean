import Mathlib.LinearAlgebra.Dimension.Constructions
import Mathlib.LinearAlgebra.FiniteDimensional.Basic
import Mathlib.LinearAlgebra.Matrix.DotProduct
import Mathlib.LinearAlgebra.Matrix.Symmetric
import Mathlib.LinearAlgebra.Matrix.ToLin
import Mathlib.LinearAlgebra.SesquilinearForm.Basic
import Mathlib.Tactic.LinearCombination

/-!
Conjugate directions. Directions are conjugate if the Hessian takes them to vectors orthogonal to
one another. What a minimization relies on is that the two newest directions decide: a gradient
that is orthogonal to the last direction is orthogonal to all earlier ones, and to all earlier
gradients, so that there are no more gradients than variables.
-/

namespace Descent

open Matrix

variable {F : Type} [Field F] {n : ℕ}

/-- A gradient and the direction that was taken there. -/
structure Leg (F : Type) (n : ℕ) where
  gradient : Fin n → F
  direction : Fin n → F

/-- What a gradient and the direction at it have to do with the legs before them. The last two
fields say what the vectors span without naming coefficients. -/
structure Conjugating (hessian : Matrix (Fin n) (Fin n) F) (past : List (Leg F n))
    (gradient direction : Fin n → F) : Prop where
  orthogonal : ∀ leg ∈ past, gradient ⬝ᵥ leg.gradient = 0
  level : ∀ leg ∈ past, gradient ⬝ᵥ leg.direction = 0
  conjugate : ∀ leg ∈ past, direction ⬝ᵥ hessian *ᵥ leg.direction = 0
  /-- The gradients are combinations of the directions. -/
  spanned : ∀ v : Fin n → F, v ⬝ᵥ direction = 0 → (∀ leg ∈ past, v ⬝ᵥ leg.direction = 0) →
    v ⬝ᵥ gradient = 0 ∧ ∀ leg ∈ past, v ⬝ᵥ leg.gradient = 0
  /-- The Hessian takes a past direction to a combination of gradients. -/
  changed : ∀ v : Fin n → F, v ⬝ᵥ gradient = 0 → (∀ leg ∈ past, v ⬝ᵥ leg.gradient = 0) →
    ∀ leg ∈ past, v ⬝ᵥ hessian *ᵥ leg.direction = 0

theorem dotProduct_symmetric {hessian : Matrix (Fin n) (Fin n) F} (symmetric : hessian.IsSymm)
    (u v : Fin n → F) : u ⬝ᵥ hessian *ᵥ v = v ⬝ᵥ hessian *ᵥ u := by
  rw [dotProduct_mulVec, ← mulVec_transpose, symmetric.eq, dotProduct_comm]

namespace Conjugating

variable {hessian : Matrix (Fin n) (Fin n) F} {past : List (Leg F n)}
variable {gradient direction : Fin n → F}

theorem anew (gradient : Fin n → F) : Conjugating hessian [] gradient (-gradient) where
  orthogonal _ member := nomatch member
  level _ member := nomatch member
  conjugate _ member := nomatch member
  spanned v along _ := by
    rw [dotProduct_neg, neg_eq_zero] at along
    exact ⟨along, fun _ member => nomatch member⟩
  changed _ _ _ _ member := nomatch member

/-- The gradient at the minimum of the line, and a direction conjugate to that of the line. -/
theorem onward (symmetric : hessian.IsSymm)
    (conjugating : Conjugating hessian past gradient direction) {step beta : F} (moved : step ≠ 0)
    (level : (gradient + step • hessian *ᵥ direction) ⬝ᵥ direction = 0)
    (weight : beta * (direction ⬝ᵥ hessian *ᵥ direction) =
      (gradient + step • hessian *ᵥ direction) ⬝ᵥ hessian *ᵥ direction) :
    Conjugating hessian (⟨gradient, direction⟩ :: past)
      (gradient + step • hessian *ᵥ direction)
      (beta • direction - (gradient + step • hessian *ᵥ direction)) := by
  -- the new gradient is orthogonal to all directions, the last one included
  have levels : ∀ leg ∈ past, (gradient + step • hessian *ᵥ direction) ⬝ᵥ leg.direction = 0 := by
    intro leg member
    rw [add_dotProduct, smul_dotProduct, conjugating.level leg member,
      dotProduct_comm (hessian *ᵥ direction), dotProduct_symmetric symmetric,
      conjugating.conjugate leg member, smul_zero, add_zero]
  obtain ⟨last, earlier⟩ := conjugating.spanned _ level levels
  -- a vector orthogonal to the gradients is orthogonal to their differences
  have changed : ∀ v : Fin n → F, v ⬝ᵥ (gradient + step • hessian *ᵥ direction) = 0 →
      v ⬝ᵥ gradient = 0 → v ⬝ᵥ hessian *ᵥ direction = 0 := by
    intro v next before
    rw [dotProduct_add, before, zero_add, dotProduct_smul, smul_eq_mul] at next
    exact (mul_eq_zero.mp next).resolve_left moved
  refine ⟨?orthogonal, ?level, ?conjugate, ?spanned, ?changed⟩
  case orthogonal => exact List.forall_mem_cons.mpr ⟨last, earlier⟩
  case level => exact List.forall_mem_cons.mpr ⟨level, levels⟩
  case conjugate =>
    rw [List.forall_mem_cons]
    constructor
    · rw [sub_dotProduct, smul_dotProduct, smul_eq_mul, weight, sub_self]
    · intro leg member
      rw [sub_dotProduct, smul_dotProduct, conjugating.conjugate leg member, smul_zero,
        conjugating.changed _ last earlier leg member, sub_zero]
  case spanned =>
    intro v along others
    obtain ⟨newest, older⟩ := List.forall_mem_cons.mp others
    obtain ⟨before, oldest⟩ := conjugating.spanned v newest older
    rw [dotProduct_sub, dotProduct_smul, newest, smul_zero, zero_sub, neg_eq_zero] at along
    exact ⟨along, List.forall_mem_cons.mpr ⟨before, oldest⟩⟩
  case changed =>
    intro v next others
    obtain ⟨before, older⟩ := List.forall_mem_cons.mp others
    exact List.forall_mem_cons.mpr
      ⟨changed v next before, conjugating.changed v before older⟩

section Line

variable {step : F} (curved : direction ⬝ᵥ hessian *ᵥ direction ≠ 0)
variable (steep : gradient ⬝ᵥ direction = -(gradient ⬝ᵥ gradient))
variable (minimum : step =
  gradient ⬝ᵥ gradient / (direction ⬝ᵥ hessian *ᵥ direction))

include curved steep minimum in
theorem level_of_minimum :
    (gradient + step • hessian *ᵥ direction) ⬝ᵥ direction = 0 := by
  rw [add_dotProduct, smul_dotProduct, smul_eq_mul, dotProduct_comm (hessian *ᵥ direction), steep,
    minimum, div_mul_cancel₀ _ curved, neg_add_cancel]

include curved steep minimum in
theorem step_mul_weight (symmetric : hessian.IsSymm)
    (conjugating : Conjugating hessian past gradient direction) (moved : step ≠ 0) :
    step * ((gradient + step • hessian *ᵥ direction) ⬝ᵥ hessian *ᵥ direction) =
      (gradient + step • hessian *ᵥ direction) ⬝ᵥ (gradient + step • hessian *ᵥ direction) := by
  have level := level_of_minimum curved steep minimum
  have next := conjugating.onward symmetric moved level (div_mul_cancel₀ _ curved)
  have apart := next.orthogonal _ List.mem_cons_self
  conv_rhs => rw [dotProduct_add, apart, zero_add, dotProduct_smul, smul_eq_mul]

end Line

end Conjugating

theorem dotProduct_self_pos [LinearOrder F] [IsStrictOrderedRing F] {v : Fin n → F}
    (nonzero : v ≠ 0) : 0 < v ⬝ᵥ v := by
  have nonneg : 0 ≤ v ⬝ᵥ v := Finset.sum_nonneg fun i _ => mul_self_nonneg (v i)
  exact lt_of_le_of_ne nonneg (Ne.symm (dotProduct_self_eq_zero.not.mpr nonzero))

theorem length_le_of_orthogonal [LinearOrder F] [IsStrictOrderedRing F]
    {vectors : List (Fin n → F)} (orthogonal : vectors.Pairwise fun u v => u ⬝ᵥ v = 0)
    (nonzero : ∀ v ∈ vectors, v ≠ 0) : vectors.length ≤ n := by
  have independent : LinearIndependent F fun i : Fin vectors.length => vectors[i] := by
    apply LinearMap.linearIndependent_of_isOrthoᵢ (B := dotProductBilin F F)
    · intro i j apart
      rcases lt_or_gt_of_ne apart with before | after
      · exact List.pairwise_iff_getElem.mp orthogonal i j i.2 j.2 before
      · have swapped := List.pairwise_iff_getElem.mp orthogonal j i j.2 i.2 after
        exact (dotProduct_comm _ _).trans swapped
    · intro i isotropic
      exact nonzero _ (List.getElem_mem i.2) (dotProduct_self_eq_zero.mp isotropic)
  simpa using independent.fintype_card_le_finrank

end Descent

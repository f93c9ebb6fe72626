import Mathlib.Algebra.BigOperators.Fin
import Mathlib.Data.Matrix.Mul
import Mathlib.LinearAlgebra.Matrix.Symmetric
import Mathlib.Tactic.FieldSimp
import Mathlib.Tactic.LinearCombination
import Mathlib.Tactic.Positivity
import Descent.Proofs.Conjugacy
import Descent.Proofs.Numbers
import Descent.State

/-!
Quadratic functions over exact numbers. On a line such a function is a parabola, which a cubic
through two of its samples reproduces: the fit is its minimum, the value predicted there is the
value, and the gradient interpolated between the samples is the gradient.
-/

namespace Descent

open Matrix Scalar

/-! The kernels, written with the operations of vectors. -/

section Kernels

variable {F : Type} {n : ℕ}

theorem entries_injective : Function.Injective (Vector.get : Vector F n → Fin n → F) :=
  fun _ _ same => Vector.ext fun i inside => congrFun same ⟨i, inside⟩

variable [Field F] [LinearOrder F] [Exact F]

theorem Kernel.sum_eq (v : Vector F n) : Kernel.sum v = ∑ i, v.get i := by
  have entries : v.toList = List.ofFn v.get := by
    apply List.ext_getElem
    · simp
    · intro i _ _
      simp [Vector.get]
  rw [Kernel.sum, ← Vector.foldl_toList, entries, ← List.sum_ofFn]
  exact (List.sum_eq_foldl).symm

theorem Kernel.dot_eq (a b : Vector F n) : Kernel.dot a b = a.get ⬝ᵥ b.get := by
  rw [Kernel.dot, Kernel.sum_eq]
  apply Finset.sum_congr rfl
  intro i _
  exact Vector.getElem_zipWith i.2

theorem Kernel.normSquared_eq (v : Vector F n) : Kernel.normSquared v = v.get ⬝ᵥ v.get := by
  rw [Kernel.normSquared, Kernel.sum_eq]
  apply Finset.sum_congr rfl
  intro i _
  exact Vector.getElem_map _ i.2

theorem Update.apply_get (update : Update (Vector F n) F) (v : Vector F n) :
    (update.apply v).get = fun i => update.entry i (v.get i) :=
  funext fun i => Vector.getElem_ofFn i.2

variable (u v : Vector F n) (r s : F)

@[simp]
theorem serial_dot : (Kernels.serial F n).dot u v = u.get ⬝ᵥ v.get := Kernel.dot_eq u v

@[simp]
theorem serial_normSquared : (Kernels.serial F n).normSquared v = v.get ⬝ᵥ v.get :=
  Kernel.normSquared_eq v

@[simp]
theorem serial_scale : ((Kernels.serial F n).update (.scale r) v).get = r • v.get :=
  (Update.apply_get _ v).trans (funext fun i => mul_comm (v.get i) r)

@[simp]
theorem serial_addScaled :
    ((Kernels.serial F n).update (.addScaled u r) v).get = v.get + r • u.get :=
  Update.apply_get _ v

@[simp]
theorem serial_addTwoScaled (w : Vector F n) :
    ((Kernels.serial F n).update (.addTwoScaled u r v s) w).get =
      w.get + r • u.get + s • v.get :=
  Update.apply_get _ w

@[simp]
theorem zeros_get : (Kernel.zeros n : Vector F n).get = 0 :=
  funext fun i => Vector.getElem_replicate i.2

end Kernels

/-- Half a positive definite form, less a linear one, plus a constant. -/
structure Quadratic (F : Type) [Field F] [LinearOrder F] (n : ℕ) where
  hessian : Matrix (Fin n) (Fin n) F
  linear : Fin n → F
  constant : F
  symmetric : hessian.IsSymm
  positive : ∀ v, v ≠ 0 → 0 < v ⬝ᵥ hessian *ᵥ v

namespace Quadratic

variable {F : Type} [Field F] [LinearOrder F] {n : ℕ} (q : Quadratic F n)

def value (x : Fin n → F) : F :=
  x ⬝ᵥ q.hessian *ᵥ x / (2 : ℕ) - q.linear ⬝ᵥ x + q.constant

def gradient (x : Fin n → F) : Fin n → F := q.hessian *ᵥ x - q.linear

variable (x direction : Fin n → F) (step : F)

theorem gradient_line :
    q.gradient (x + step • direction) = q.gradient x + step • q.hessian *ᵥ direction := by
  rw [gradient, gradient, mulVec_add, mulVec_smul]
  abel

theorem value_line [IsStrictOrderedRing F] :
    q.value (x + step • direction) = q.value x + step * (q.gradient x ⬝ᵥ direction) +
      step * step * (direction ⬝ᵥ q.hessian *ᵥ direction) / (2 : ℕ) := by
  have mixed : direction ⬝ᵥ q.hessian *ᵥ x = x ⬝ᵥ q.hessian *ᵥ direction :=
    dotProduct_symmetric q.symmetric direction x
  simp only [value, gradient, mulVec_add, mulVec_smul, dotProduct_add, add_dotProduct,
    dotProduct_smul, smul_dotProduct, sub_dotProduct, smul_eq_mul, mixed,
    dotProduct_comm (q.hessian *ᵥ x) direction]
  ring

theorem slope_line :
    q.gradient (x + step • direction) ⬝ᵥ direction = q.gradient x ⬝ᵥ direction +
      step * (direction ⬝ᵥ q.hessian *ᵥ direction) := by
  rw [gradient_line, add_dotProduct, smul_dotProduct, smul_eq_mul,
    dotProduct_comm (q.hessian *ᵥ direction)]

def ofWeights [IsStrictOrderedRing F] (weights linear : Fin n → F) (constant : F)
    (positive : ∀ i, 0 < weights i) : Quadratic F n where
  hessian := diagonal weights
  linear
  constant
  symmetric := isSymm_diagonal weights
  positive := by
    intro v nonzero
    obtain ⟨i, component⟩ := Function.ne_iff.mp nonzero
    have squares : v ⬝ᵥ diagonal weights *ᵥ v = ∑ i, weights i * (v i * v i) := by
      apply Finset.sum_congr rfl
      intro i _
      rw [mulVec_diagonal, mul_left_comm]
    rw [squares]
    apply Finset.sum_pos'
    · intro i _
      exact mul_nonneg (positive i).le (mul_self_nonneg _)
    · exact ⟨i, Finset.mem_univ i, mul_pos (positive i) (mul_self_pos.mpr component)⟩

end Quadratic

/-! Two samples of a parabola. -/

section Parabola

variable {F : Type} [Field F]

/-- The sample at a step along a parabola with a value, a slope and a curvature at zero. -/
def Sample.ofParabola (value slope curvature step : F) : Sample F where
  step
  value := value + step * slope + step * step * curvature / (2 : ℕ)
  slope := slope + step * curvature

variable [LinearOrder F] [IsStrictOrderedRing F] [Exact F]
variable {value slope curvature step : F}

theorem hermiteValue_parabola (moved : step ≠ 0) (target : F) :
    (Sample.ofParabola value slope curvature 0).hermiteValue
        (Sample.ofParabola value slope curvature step) target =
      value + target * slope + target * target * curvature / (2 : ℕ) := by
  simp only [Sample.hermiteValue, Sample.ofParabola, two, three, Nat.cast_ofNat]
  field_simp
  ring

theorem cubicMinimizer_parabola [Rooted F] (curved : 0 < curvature) (moved : step ≠ 0) :
    (Sample.ofParabola value slope curvature 0).cubicMinimizer
        (Sample.ofParabola value slope curvature step) = some (-slope / curvature) := by
  obtain ⟨half, halved⟩ : ∃ half, half = step * curvature / 2 := ⟨_, rfl⟩
  have width : (step : F) - 0 = step := sub_zero step
  have first : slope + 0 * curvature + (slope + step * curvature) -
      three * (value + 0 * slope + 0 * 0 * curvature / (2 : ℕ) -
        (value + step * slope + step * step * curvature / (2 : ℕ))) / (0 - step) =
        -slope - half := by
    simp only [three, Nat.cast_ofNat, halved]
    field_simp
    ring
  have discriminant : (-slope - half) * (-slope - half) -
      (slope + 0 * curvature) * (slope + step * curvature) = half * half := by
    rw [halved]
    ring
  have signed : (if step < 0 then -|half| else |half|) = half := by
    split
    · next below =>
      have product : step * curvature < 0 := mul_neg_of_neg_of_pos below curved
      have negative : half < 0 := by linarith
      rw [abs_of_neg negative, neg_neg]
    · next above =>
      have product : 0 ≤ step * curvature := mul_nonneg (not_lt.mp above) curved.le
      have nonneg : 0 ≤ half := by linarith
      exact abs_of_nonneg nonneg
  have denominator : slope + step * curvature - (slope + 0 * curvature) + half + half =
      2 * step * curvature := by
    rw [halved]
    ring
  have nonzero : (2 * step * curvature : F) ≠ 0 :=
    mul_ne_zero (mul_ne_zero two_ne_zero moved) curved.ne'
  simp only [Sample.cubicMinimizer, Sample.ofParabola, width, first, discriminant,
    Rooted.sqrt_mul_self, signed, denominator]
  rw [if_neg (Exact.isZero_iff.not.mpr moved), if_pos (mul_self_nonneg half),
    if_neg (Exact.isZero_iff.not.mpr nonzero), halved]
  have target : step - step * (slope + step * curvature + step * curvature / 2 -
      (-slope - step * curvature / 2)) / (2 * step * curvature) = -slope / curvature := by
    field_simp
    ring
  rw [target]
  rfl

theorem fitMinimizer_parabola [Rooted F] (curved : 0 < curvature) {fitted : F}
    (found : (Sample.ofParabola value slope curvature 0).fitMinimizer
      (Sample.ofParabola value slope curvature step) = some fitted) :
    step ≠ 0 ∧ fitted = -slope / curvature := by
  have moved : step ≠ 0 := by
    rintro rfl
    simp [Sample.fitMinimizer, Sample.cubicMinimizer, Sample.secantMinimizer, Sample.ofParabola,
      isZero] at found
  rw [Sample.fitMinimizer, cubicMinimizer_parabola curved moved] at found
  exact ⟨moved, (Option.some.inj found).symm⟩

end Parabola

end Descent

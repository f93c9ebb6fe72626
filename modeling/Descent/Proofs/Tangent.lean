import Mathlib.Algebra.Order.BigOperators.Group.List
import Mathlib.Algebra.Order.Group.Abs
import Mathlib.Data.Matrix.Mul
import Mathlib.Tactic.Linarith
import Mathlib.Tactic.Positivity
import Descent.Proofs.Multiplier

/-!
The penalized objective next to its tangent, over exact numbers and pure functions. A penalty is
the square of a distance that is cut off at zero. It lies above its tangents and below the
parabolas on them, no matter on which side of its beginning the two points lie. Under linear
constraints all penalties together are caught between a linear function and a quadratic one, which
have the same gradient where they touch. An affine objective changes nothing in this.
-/

namespace Descent

open Matrix Scalar

/-! One penalty. -/

section Squares

variable {F : Type} [Field F] [LinearOrder F] [IsStrictOrderedRing F]

/-- The square `after * after` lies above the tangent at `before` and below the parabola on it. -/
structure Between (before after moved : F) : Prop where
  above : 2 * before * moved ≤ after ^ 2 - before ^ 2
  below : after ^ 2 - before ^ 2 ≤ 2 * before * moved + moved ^ 2

theorem between_add (value moved : F) : Between value (value + moved) moved := by
  have square : (value + moved) ^ 2 - value ^ 2 = 2 * value * moved + moved ^ 2 := by ring
  exact ⟨square ▸ le_add_of_nonneg_right (sq_nonneg moved), square.le⟩

omit [IsStrictOrderedRing F] in
theorem Between.neg {before after moved : F} (between : Between before after moved) :
    Between (-before) (-after) (-moved) := by
  obtain ⟨above, below⟩ := between
  constructor <;> simpa only [neg_sq, mul_neg, neg_mul, neg_neg]

theorem between_max (value moved : F) :
    Between (max value 0) (max (value + moved) 0) moved := by
  obtain ⟨before, start⟩ : ∃ before, before = max value 0 := ⟨_, rfl⟩
  obtain ⟨after, goal⟩ : ∃ after, after = max (value + moved) 0 := ⟨_, rfl⟩
  rw [← start, ← goal]
  have reached : value + moved ≤ after := goal ▸ le_max_left _ _
  constructor
  · -- Where there was a penalty, the new distance is not below the one without the cut.
    have uncut : 0 ≤ before * (after - (before + moved)) := by
      rcases le_total value 0 with idle | active
      · rw [start, max_eq_right idle, zero_mul]
      · rw [start, max_eq_left active]
        exact mul_nonneg active (sub_nonneg.mpr reached)
    have square : after ^ 2 - before ^ 2 = 2 * before * moved + (after - before) ^ 2 +
        2 * (before * (after - (before + moved))) := by ring
    linarith [sq_nonneg (after - before)]
  · have shrunk : after ^ 2 ≤ (before + moved) ^ 2 := by
      rcases le_total (value + moved) 0 with idle | active
      · rw [goal, max_eq_right idle, zero_pow two_ne_zero]
        exact sq_nonneg _
      · rw [goal, max_eq_left active]
        have uncut : value ≤ before := start ▸ le_max_left _ _
        exact pow_le_pow_left₀ active (add_le_add_left uncut moved) 2
    have square : (before + moved) ^ 2 = before ^ 2 + 2 * before * moved + moved ^ 2 := by ring
    linarith

end Squares

namespace Comparison

variable {F : Type} [Field F] [LinearOrder F] [Exact F]

def distance (comparison : Comparison) (offset value : F) : F :=
  (comparison.shifted? value offset).getD 0

variable (offset value moved : F)

theorem distance_equal : equal.distance offset value = value - offset := rfl

variable [IsStrictOrderedRing F]

theorem distance_lessThan : lessThan.distance offset value = max (value - offset) 0 := by
  by_cases active : offset < value
  · have positive : 0 ≤ value - offset := (sub_pos.mpr active).le
    simp [distance, shifted?, isActive, active, positive]
  · have negative : value - offset ≤ 0 := sub_nonpos.mpr (not_lt.mp active)
    simp [distance, shifted?, isActive, active, negative]

theorem distance_greaterThan : greaterThan.distance offset value = -max (offset - value) 0 := by
  by_cases active : value < offset
  · have positive : 0 ≤ offset - value := (sub_pos.mpr active).le
    simp [distance, shifted?, isActive, active, positive]
  · have negative : offset - value ≤ 0 := sub_nonpos.mpr (not_lt.mp active)
    simp [distance, shifted?, isActive, active, negative]

theorem distance_between (comparison : Comparison) : Between (comparison.distance offset value)
    (comparison.distance offset (value + moved)) moved := by
  cases comparison with
  | equal =>
    rw [distance_equal, distance_equal, add_sub_right_comm]
    exact between_add _ _
  | greaterThan =>
    -- the other side, seen in a mirror
    have mirrored := (between_max (offset - value) (-moved)).neg
    rw [neg_neg, ← sub_eq_add_neg, sub_sub] at mirrored
    rwa [distance_greaterThan, distance_greaterThan]
  | lessThan =>
    rw [distance_lessThan, distance_lessThan, add_sub_right_comm]
    exact between_max _ _

end Comparison

/-! Weighted sums. -/

section Sums

variable {F : Type} [Field F] {n : ℕ}

theorem listed_dotProduct (parts : List (Fin n × F)) (v : Fin n → F) :
    listed parts ⬝ᵥ v = (parts.map fun part => part.2 * v part.1).sum := by
  induction parts with
  | nil => exact zero_dotProduct v
  | cons part rest ih =>
    have first : listed (part :: rest) = Pi.single part.1 part.2 + listed rest := by
      funext i
      rw [Pi.add_apply, Pi.single_apply, listed, listed, List.map_cons, List.sum_cons]
      simp only [eq_comm]
    rw [first, add_dotProduct, single_dotProduct, ih, List.map_cons, List.sum_cons]

theorem sum_map_dotProduct {C : Type} (members : List C) (scale : C → F) (part : C → Fin n → F)
    (v : Fin n → F) : (fun i => (members.map fun c => scale c * part c i).sum) ⬝ᵥ v =
      (members.map fun c => scale c * (part c ⬝ᵥ v)).sum := by
  induction members with
  | nil => exact zero_dotProduct v
  | cons c rest ih =>
    rw [List.map_cons, List.sum_cons, ← ih, ← smul_eq_mul, ← smul_dotProduct, ← add_dotProduct]
    rfl

theorem add_get (x h : Vector F n) : (x + h).get = x.get + h.get :=
  funext fun i => Vector.getElem_add x h i i.2

theorem dotProduct_set (slope : Fin n → F) (x : Vector F n) (i : Fin n) (moved : F) :
    slope ⬝ᵥ (x.set i (x.get i + moved) i.isLt).get = slope ⬝ᵥ x.get + slope i * moved := by
  have apart : (x.set i (x.get i + moved) i.isLt).get = x.get + Pi.single i moved := by
    funext j
    rw [get_set, Pi.add_apply, Pi.single_apply]
    by_cases same : j = i
    · rw [if_pos same, if_pos same, same]
    · rw [if_neg same, if_neg same, add_zero]
  rw [apart, dotProduct_add, dotProduct_single]

namespace Linear

def along (function : Linear (Fin n) F) (h : Vector F n) : F :=
  (function.terms.map fun term => term.2 * h.get term.1).sum

theorem gradientAt_dotProduct [LinearOrder F] [Exact F] (function : Linear (Fin n) F)
    (h : Vector F n) : function.gradientAt ⬝ᵥ h.get = function.along h :=
  listed_dotProduct function.terms h.get

theorem along_add (function : Linear (Fin n) F) (x h : Vector F n) :
    function.along (x + h) = function.along x + function.along h := by
  rw [along, along, along, ← List.sum_map_add]
  simp only [add_get, Pi.add_apply, mul_add]

variable [LinearOrder F]

theorem value_eq_along [Exact F] (function : Linear (Fin n) F) (x : Vector F n) :
    function.value x = function.along x - function.rhs := by
  have added (terms : List (Fin n × F)) (start : F) :
      terms.foldl (fun sum term => sum + term.2 * x.get term.1) start =
        start + (terms.map fun term => term.2 * x.get term.1).sum := by
    induction terms generalizing start with
    | nil => exact (add_zero start).symm
    | cons term rest ih => rw [List.foldl_cons, ih, List.map_cons, List.sum_cons, add_assoc]
  rw [value, added, along, neg_add_eq_sub]

theorem value_add [Exact F] (function : Linear (Fin n) F) (x h : Vector F n) :
    function.value (x + h) = function.value x + function.along h := by
  rw [value_eq_along, value_eq_along, along_add, add_sub_right_comm]

def weight (function : Linear (Fin n) F) : F := (function.terms.map fun term => |term.2|).sum

theorem abs_along_le [IsStrictOrderedRing F] (function : Linear (Fin n) F) {h : Vector F n} {r : F}
    (near : ∀ i, |h.get i| ≤ r) : |function.along h| ≤ function.weight * r := by
  rw [along, weight, ← List.sum_map_mul_right]
  induction function.terms with
  | nil => exact abs_zero.le
  | cons term rest ih =>
    have first : |term.2 * h.get term.1| ≤ |term.2| * r := by
      rw [abs_mul]
      exact mul_le_mul_of_nonneg_left (near term.1) (abs_nonneg term.2)
    rw [List.map_cons, List.sum_cons, List.map_cons, List.sum_cons]
    exact (abs_add_le _ _).trans (add_le_add first ih)

end Linear

end Sums

/-! Affine objectives. -/

section Affine

variable {F : Type} [Field F] [LinearOrder F] [Exact F] {n : ℕ}

/-- A constant and a slope for each variable. Those that are not zero belong to listed variables,
each of them listed once. Partial derivatives that the function writes are the slopes; it need not
write them. -/
structure Nonlinear.Affine (function : Nonlinear (Fin n) Id F n) (constant : F)
    (slope : Fin n → F) : Prop where
  distinct : function.indices.toList.Nodup
  unlisted : ∀ i ∉ function.indices.toList, slope i = 0
  value : ∀ x, (function.value x).run = constant + slope ⬝ᵥ x.get
  exact : ∀ x kept partials, (function.gradient x kept).run = some partials →
    partials = function.indices.map slope

namespace Nonlinear.Affine

variable {function : Nonlinear (Fin n) Id F n} {constant : F} {slope : Fin n → F}

theorem value_add (affine : function.Affine constant slope) (x h : Vector F n) :
    (function.value (x + h)).run = (function.value x).run + slope ⬝ᵥ h.get := by
  rw [affine.value, affine.value, add_get, dotProduct_add, add_assoc]

variable [IsStrictOrderedRing F]

theorem quotient_eq (affine : function.Affine constant slope) (x : Vector F n) (i : Fin n)
    (step : Positive F) : quotient (fun y => (function.value y).run) x i step.1 = slope i := by
  have apart : 2 * step.1 ≠ 0 := mul_ne_zero two_ne_zero step.2.ne'
  have moved : constant + (slope ⬝ᵥ x.get + slope i * step.1) -
      (constant + (slope ⬝ᵥ x.get + slope i * -step.1)) = slope i * (2 * step.1) := by ring
  rw [quotient, affine.value, affine.value, sub_eq_add_neg (x.get i), dotProduct_set,
    dotProduct_set, moved, mul_div_cancel_right₀ _ apart]

theorem partialsAt_eq (affine : function.Affine constant slope) (steps : Vector (Positive F) n)
    (x : Vector F n) : function.partialsAt steps x = function.indices.map slope := by
  rw [partialsAt]
  cases written : (function.gradient x function.partials).run with
  | some partials => exact affine.exact x function.partials partials written
  | none => simp only [affine.quotient_eq]

theorem gradientAt_dotProduct (affine : function.Affine constant slope)
    (steps : Vector (Positive F) n) (x : Vector F n) (v : Fin n → F) :
    function.gradientAt steps x ⬝ᵥ v = slope ⬝ᵥ v := by
  have paired : (function.indices.zip (function.partialsAt steps x)).toList =
      function.indices.toList.map fun i => (i, slope i) := by
    rw [affine.partialsAt_eq, Vector.toList_zip, Vector.toList_map, List.map_prod_left_eq_zip]
  rw [gradientAt, paired, listed_dotProduct, List.map_map, Function.comp_def,
    ← List.sum_toFinset (fun i => slope i * v i) affine.distinct]
  -- a variable that is not listed has no slope, and adds nothing
  apply Finset.sum_subset (Finset.subset_univ _)
  intro i _ missing
  rw [affine.unlisted i (List.mem_toFinset.not.mp missing), zero_mul]

end Nonlinear.Affine

def Nonlinear.affine {count : ℕ} (indices : Vector (Fin n) count) (constant : F)
    (slope : Fin n → F) : Nonlinear (Fin n) Id F n where
  arity := count
  indices
  partials := Kernel.zeros count
  value x := constant + slope ⬝ᵥ x.get
  gradient _ _ := some (indices.map slope)

theorem Nonlinear.affine_affine {count : ℕ} {indices : Vector (Fin n) count} {constant : F}
    {slope : Fin n → F} (distinct : indices.toList.Nodup)
    (unlisted : ∀ i ∉ indices.toList, slope i = 0) :
    (Nonlinear.affine indices constant slope).Affine constant slope where
  distinct
  unlisted
  value _ := rfl
  exact _ _ _ written := (Option.some.inj written).symm

end Affine

/-! All penalties. -/

section Penalties

variable {F : Type} [Field F] [LinearOrder F] [Exact F] {n : ℕ}

structure Plane (F : Type) (n : ℕ) where
  function : Linear (Fin n) F
  comparison : Comparison
  offset : F

namespace Plane

def constraint (plane : Plane F n) : Constraint (Fin n) Id F n :=
  { form := .linear plane.function, comparison := plane.comparison, offset := plane.offset }

def distance (plane : Plane F n) (x : Vector F n) : F :=
  plane.comparison.distance plane.offset (plane.function.value x)

theorem distance_between [IsStrictOrderedRing F] (plane : Plane F n) (x h : Vector F n) :
    Between (plane.distance x) (plane.distance (x + h)) (plane.function.along h) := by
  rw [distance, distance, Linear.value_add]
  exact Comparison.distance_between plane.offset _ _ plane.comparison

end Plane

namespace Problem

def penalizedValue (problem : Problem Id F n) (x : Vector F n) : F := (problem.evaluate x).run.1.1

def penalizedGradient (problem : Problem Id F n) (x : Vector F n) : Fin n → F :=
  (problem.evaluate x).run.1.2.get

theorem penalize_value (steps : Vector (Positive F) n) (x : Vector F n)
    (constraints : List (Constraint (Fin n) Id F n)) (total : F) (gradient : Vector F n) :
    (penalize steps x constraints total gradient).run.2.1 = total +
      (constraints.map fun c => c.comparison.distance c.offset (c.value x).run ^ 2).sum := by
  induction constraints generalizing total gradient with
  | nil => exact (add_zero total).symm
  | cons c rest ih =>
    rw [List.map_cons, List.sum_cons, ← add_assoc, Comparison.distance, ← Constraint.shifted?]
    cases active : c.shifted? (c.value x).run with
    | none =>
      rw [penalize_idle c rest total gradient active, ih, Option.getD_none, zero_pow two_ne_zero,
        add_zero]
    | some shifted =>
      rw [penalize_active c rest total gradient active, ih, Option.getD_some, sq]

variable {problem : Problem Id F n} {constant : F} {slope : Fin n → F} {planes : List (Plane F n)}

theorem penalizedValue_eq (flat : problem.constraints = planes.map Plane.constraint)
    (x : Vector F n) : problem.penalizedValue x =
      (problem.objective.value x).run + (planes.map fun plane => plane.distance x ^ 2).sum := by
  have total : problem.penalizedValue x = (problem.objective.value x).run +
      (problem.constraints.map fun c => c.comparison.distance c.offset (c.value x).run ^ 2).sum :=
    penalize_value problem.steps x problem.constraints _ _
  rw [total, flat, List.map_map]
  rfl

variable [IsStrictOrderedRing F]

theorem penalizedGradient_dotProduct (affine : problem.objective.Affine constant slope)
    (flat : problem.constraints = planes.map Plane.constraint) (x h : Vector F n) :
    problem.penalizedGradient x ⬝ᵥ h.get = slope ⬝ᵥ h.get +
      (planes.map fun plane => 2 * plane.distance x * plane.function.along h).sum := by
  have entries : problem.penalizedGradient x = problem.objective.gradientAt problem.steps x +
      fun i => (planes.map fun plane =>
        2 * plane.distance x * plane.function.gradientAt i).sum := by
    funext i
    rw [penalizedGradient, evaluate_gradient, flat, List.map_map]
    rfl
  rw [entries, add_dotProduct, affine.gradientAt_dotProduct,
    sum_map_dotProduct planes (fun plane => 2 * plane.distance x) fun plane =>
      plane.function.gradientAt]
  simp only [Linear.gradientAt_dotProduct]

theorem tangent_le (affine : problem.objective.Affine constant slope)
    (flat : problem.constraints = planes.map Plane.constraint) (x h : Vector F n) :
    problem.penalizedGradient x ⬝ᵥ h.get ≤
      problem.penalizedValue (x + h) - problem.penalizedValue x := by
  have above : (planes.map fun plane => 2 * plane.distance x * plane.function.along h).sum +
      (planes.map fun plane => plane.distance x ^ 2).sum ≤
        (planes.map fun plane => plane.distance (x + h) ^ 2).sum := by
    rw [← List.sum_map_add]
    apply List.sum_le_sum
    intro plane _
    exact le_sub_iff_add_le.mp (plane.distance_between x h).above
  rw [penalizedGradient_dotProduct affine flat, penalizedValue_eq flat, penalizedValue_eq flat,
    affine.value_add]
  linarith

theorem le_parabola (affine : problem.objective.Affine constant slope)
    (flat : problem.constraints = planes.map Plane.constraint) (x h : Vector F n) :
    problem.penalizedValue (x + h) - problem.penalizedValue x ≤
      problem.penalizedGradient x ⬝ᵥ h.get +
        (planes.map fun plane => plane.function.along h ^ 2).sum := by
  have below : (planes.map fun plane => plane.distance (x + h) ^ 2).sum ≤
      (planes.map fun plane => 2 * plane.distance x * plane.function.along h).sum +
        (planes.map fun plane => plane.function.along h ^ 2).sum +
        (planes.map fun plane => plane.distance x ^ 2).sum := by
    rw [← List.sum_map_add, ← List.sum_map_add]
    apply List.sum_le_sum
    intro plane _
    exact sub_le_iff_le_add.mp (plane.distance_between x h).below
  rw [penalizedGradient_dotProduct affine flat, penalizedValue_eq flat, penalizedValue_eq flat,
    affine.value_add]
  linarith

end Problem

end Penalties

/-! True gradients. -/

section Gradient

variable {F : Type} [Field F] [LinearOrder F] {n : ℕ}

/-- Near the point, the function differs from its linear part by less than any share of the
distance. -/
def IsGradient (f : Vector F n → F) (x : Vector F n) (gradient : Fin n → F) : Prop :=
  ∀ share > 0, ∃ radius > 0, ∀ (h : Vector F n) (r : F), 0 ≤ r → r ≤ radius →
    (∀ i, |h.get i| ≤ r) → |f (x + h) - f x - gradient ⬝ᵥ h.get| ≤ share * r

variable [IsStrictOrderedRing F]

theorem IsGradient.unique {f : Vector F n → F} {x : Vector F n} {g g' : Fin n → F}
    (first : IsGradient f x g) (second : IsGradient f x g') : g = g' := by
  funext i
  apply eq_of_abs_sub_le_all
  intro share positive
  obtain ⟨radius, out, close⟩ := first (share / 2) (half_pos positive)
  obtain ⟨radius', out', close'⟩ := second (share / 2) (half_pos positive)
  obtain ⟨r, shorter⟩ : ∃ r, r = min radius radius' := ⟨_, rfl⟩
  have away : 0 < r := shorter ▸ lt_min out out'
  -- A step along the one coordinate in which the gradients are compared.
  obtain ⟨h, entries⟩ : ∃ h : Vector F n, h.get = Pi.single i r :=
    ⟨.ofFn (Pi.single i r), funext fun j => Vector.getElem_ofFn j.2⟩
  have near (j : Fin n) : |h.get j| ≤ r := by
    rw [entries, Pi.single_apply]
    split
    · exact (abs_of_pos away).le
    · exact abs_zero.trans_le away.le
  have left := close h r away.le (shorter ▸ min_le_left _ _) near
  have right := close' h r away.le (shorter ▸ min_le_right _ _) near
  rw [entries, dotProduct_single, abs_sub_comm] at left
  rw [entries, dotProduct_single] at right
  have apart : |g i - g' i| * r ≤ share * r := calc
    |g i - g' i| * r = |g i * r - (f (x + h) - f x) + (f (x + h) - f x - g' i * r)| := by
      rw [← abs_of_pos away, ← abs_mul, abs_of_pos away, sub_add_sub_cancel, sub_mul]
    _ ≤ share / 2 * r + share / 2 * r := (abs_add_le _ _).trans (add_le_add left right)
    _ = share * r := by rw [← add_mul, add_halves]
  exact le_of_mul_le_mul_right apart away

theorem isGradient_of_sq {f : Vector F n → F} {x : Vector F n} {gradient : Fin n → F} {bound : F}
    (nonneg : 0 ≤ bound)
    (close : ∀ (h : Vector F n) (r : F), 0 ≤ r → (∀ i, |h.get i| ≤ r) →
      |f (x + h) - f x - gradient ⬝ᵥ h.get| ≤ bound * r ^ 2) : IsGradient f x gradient := by
  intro share positive
  have larger : 0 < bound + 1 := add_pos_of_nonneg_of_pos nonneg one_pos
  refine ⟨share / (bound + 1), div_pos positive larger, ?_⟩
  intro h r least short near
  have small : bound * r ≤ share := calc
    bound * r ≤ (bound + 1) * r :=
      mul_le_mul_of_nonneg_right (le_add_of_nonneg_right zero_le_one) least
    _ ≤ share := by rwa [mul_comm, ← le_div_iff₀ larger]
  calc |f (x + h) - f x - gradient ⬝ᵥ h.get| ≤ bound * r ^ 2 := close h r least near
    _ = bound * r * r := by rw [sq, mul_assoc]
    _ ≤ share * r := mul_le_mul_of_nonneg_right small least

namespace Problem

variable [Exact F] {problem : Problem Id F n} {constant : F} {slope : Fin n → F}
  {planes : List (Plane F n)}

theorem penalizedGradient_isGradient (affine : problem.objective.Affine constant slope)
    (flat : problem.constraints = planes.map Plane.constraint) (x : Vector F n) :
    IsGradient problem.penalizedValue x (problem.penalizedGradient x) := by
  -- the parabola is no steeper than the weights allow
  have squares : 0 ≤ (planes.map fun plane => plane.function.weight ^ 2).sum := by
    apply List.sum_nonneg
    simp only [List.forall_mem_map]
    exact fun plane _ => sq_nonneg _
  apply isGradient_of_sq squares
  intro h r least near
  have gap : (planes.map fun plane => plane.function.along h ^ 2).sum ≤
      (planes.map fun plane => plane.function.weight ^ 2).sum * r ^ 2 := by
    rw [← List.sum_map_mul_right]
    apply List.sum_le_sum
    intro plane _
    rw [← mul_pow, ← sq_abs]
    exact pow_le_pow_left₀ (abs_nonneg _) (plane.function.abs_along_le near) 2
  have above := tangent_le affine flat x h
  have below := le_parabola affine flat x h
  rw [abs_of_nonneg (sub_nonneg.mpr above)]
  linarith

/-- An affine objective with penalties of linear constraints stays between its tangent at any
point and a parabola on it, whichever constraints become active or idle on the way. The gradient
that an evaluation returns is therefore the gradient, and the only one. -/
theorem evaluate_tangent (problem : Problem Id F n)
    (affine : problem.objective.Affine constant slope)
    (flat : problem.constraints = planes.map Plane.constraint) (x : Vector F n) :
    (∀ h, problem.penalizedGradient x ⬝ᵥ h.get ≤
          problem.penalizedValue (x + h) - problem.penalizedValue x ∧
        problem.penalizedValue (x + h) - problem.penalizedValue x ≤
          problem.penalizedGradient x ⬝ᵥ h.get +
            (planes.map fun plane => plane.function.along h ^ 2).sum) ∧
      ∀ gradient, IsGradient problem.penalizedValue x gradient ↔
        gradient = problem.penalizedGradient x := by
  have differentiable := penalizedGradient_isGradient affine flat x
  constructor
  · exact fun h => ⟨tangent_le affine flat x h, le_parabola affine flat x h⟩
  · intro gradient
    constructor
    · exact fun other => other.unique differentiable
    · rintro rfl
      exact differentiable

/-- Three constraints on two variables. The first of them names one variable twice. -/
def corner (first second : Fin 2) : List (Plane ℚ 2) :=
  [{ function := { terms := [(first, 1), (second, 2), (first, 1)], rhs := 4 }
     comparison := .greaterThan
     offset := 1 },
    { function := { terms := [(first, 1), (second, 1)], rhs := 1 }
      comparison := .equal
      offset := -1 },
    { function := { terms := [(second, 3)], rhs := 6 }, comparison := .lessThan, offset := 0 }]

def cornered (first second : Fin 2) (step : Positive ℚ) : Problem Id ℚ 2 where
  objective := .affine (.ofFn id) 5 fun i => if i = first then 1 else -2
  constraints := (corner first second).map Plane.constraint
  steps := .replicate 2 step

/-- From one point to the other the first constraint becomes idle and the last one active. -/
theorem evaluate_tangent_corner :
    (cornered 0 1 ⟨1, one_pos⟩).objective.Affine 5 (fun i => if i = 0 then 1 else -2) ∧
      (cornered 0 1 ⟨1, one_pos⟩).constraints = (corner 0 1).map Plane.constraint ∧
      (corner 0 1).map (fun plane => plane.distance #v[0, 1]) = [-3, 1, 0] ∧
      (corner 0 1).map (fun plane => plane.distance (#v[0, 1] + #v[2, 2])) = [0, 5, 3] ∧
      (cornered 0 1 ⟨1, one_pos⟩).penalizedGradient #v[0, 1] = ![-9, -12] ∧
      -42 ≤ (cornered 0 1 ⟨1, one_pos⟩).penalizedValue (#v[0, 1] + #v[2, 2]) -
        (cornered 0 1 ⟨1, one_pos⟩).penalizedValue #v[0, 1] ∧
      (cornered 0 1 ⟨1, one_pos⟩).penalizedValue (#v[0, 1] + #v[2, 2]) -
        (cornered 0 1 ⟨1, one_pos⟩).penalizedValue #v[0, 1] ≤ -42 + 116 ∧
      IsGradient (cornered 0 1 ⟨1, one_pos⟩).penalizedValue #v[0, 1] ![-9, -12] := by
  have affine : (cornered 0 1 ⟨1, one_pos⟩).objective.Affine 5 fun i => if i = 0 then 1 else -2 :=
    Nonlinear.affine_affine (by decide) (by decide)
  obtain ⟨between, unique⟩ := evaluate_tangent (cornered 0 1 ⟨1, one_pos⟩) affine rfl #v[0, 1]
  obtain ⟨above, below⟩ := between #v[2, 2]
  have slope : (cornered 0 1 ⟨1, one_pos⟩).penalizedGradient #v[0, 1] = ![-9, -12] := by
    decide +kernel
  have linear : ![-9, -12] ⬝ᵥ (#v[2, 2] : Vector ℚ 2).get = -42 := by decide +kernel
  have square : ((corner 0 1).map fun plane => plane.function.along #v[2, 2] ^ 2).sum = 116 := by
    decide +kernel
  rw [slope, linear] at above below
  rw [square] at below
  exact ⟨affine, rfl, by decide +kernel, by decide +kernel, slope, above, below,
    (unique _).mpr slope.symm⟩

end Problem

end Gradient

end Descent

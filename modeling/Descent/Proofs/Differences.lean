import Mathlib.Algebra.MvPolynomial.PDeriv
import Mathlib.Tactic.Ring
import Descent.Penalty
import Descent.Proofs.Exact

/-!
Central differences. Along one coordinate a polynomial of degree two is a parabola, and the slope
of a parabola between two points is the slope in their middle, however far apart they are. The
quotient is taken with the point moved in place; putting the coordinate back leaves the point as
it was, in any arithmetic.
-/

namespace Descent

open Scalar

section Polynomials

open MvPolynomial

variable {F : Type} [Field F] {n : ℕ} (x : Fin n → F) (i : Fin n)

noncomputable def fixedFactors (powers : Fin n →₀ ℕ) : F :=
  (powers.erase i).prod fun j power => x j ^ power

theorem eval_monomial_update (powers : Fin n →₀ ℕ) (weight y : F) :
    eval (Function.update x i y) (monomial powers weight) =
      weight * (y ^ powers i * fixedFactors x i powers) := by
  have others : fixedFactors (Function.update x i y) i powers = fixedFactors x i powers := by
    apply Finsupp.prod_congr
    intro j member
    rw [Finsupp.support_erase] at member
    rw [Function.update_of_ne (Finset.ne_of_mem_erase member)]
  rw [eval_monomial, ← Finsupp.mul_prod_erase' powers i _ fun _ => pow_zero _,
    Function.update_self, ← others, fixedFactors]

theorem eval_pderiv_monomial (powers : Fin n →₀ ℕ) (weight : F) :
    eval x (pderiv i (monomial powers weight)) =
      weight * (powers i * x i ^ (powers i - 1) * fixedFactors x i powers) := by
  have lowered : fixedFactors x i (powers - Finsupp.single i 1) = fixedFactors x i powers := by
    have same : (powers - Finsupp.single i 1).erase i = powers.erase i := by
      ext j
      by_cases moved : j = i
      · rw [moved, Finsupp.erase_same, Finsupp.erase_same]
      · rw [Finsupp.erase_ne moved, Finsupp.erase_ne moved, Finsupp.tsub_apply,
          Finsupp.single_eq_of_ne moved, Nat.sub_zero]
    rw [fixedFactors, same, fixedFactors]
  rw [pderiv_monomial, ← Function.update_eq_self i x, eval_monomial_update,
    Function.update_eq_self, lowered, Finsupp.tsub_apply, Finsupp.single_eq_same]
  ring

theorem eval_update_sub {polynomial : MvPolynomial (Fin n) F}
    (parabolic : polynomial.degreeOf i ≤ 2) (step : F) :
    eval (Function.update x i (x i + step)) polynomial -
        eval (Function.update x i (x i - step)) polynomial =
      2 * step * eval x (pderiv i polynomial) := by
  -- Both sides are linear, so monomials will do. Their powers of the coordinate are at most two.
  rw [polynomial.as_sum, map_sum, map_sum, map_sum, map_sum, ← Finset.sum_sub_distrib,
    Finset.mul_sum]
  apply Finset.sum_congr rfl
  intro powers member
  have limited : powers i ≤ 2 := (monomial_le_degreeOf i member).trans parabolic
  rw [eval_monomial_update, eval_monomial_update, eval_pderiv_monomial]
  obtain none | single | double : powers i = 0 ∨ powers i = 1 ∨ powers i = 2 := by omega
  · rw [none]
    ring
  · rw [single]
    ring
  · rw [double]
    ring

end Polynomials

section Exactness

open MvPolynomial

variable {F : Type} [Field F] [LinearOrder F] [IsStrictOrderedRing F] [Exact F] {n : ℕ}
  {m : Type → Type} [Monad m] [LawfulMonad m]

omit [Field F] [LinearOrder F] [IsStrictOrderedRing F] [Exact F] in
theorem get_set_eq_update (x : Vector F n) (i : Fin n) (y : F) :
    (x.set i y i.isLt).get = Function.update x.get i y := by
  funext j
  rw [get_set, Function.update_apply]

/-- The quotient is the partial derivative, whatever the step. -/
theorem centralDifference_polynomial {polynomial : MvPolynomial (Fin n) F} {i : Fin n}
    (parabolic : polynomial.degreeOf i ≤ 2) {f : Vector F n → m F}
    (value : ∀ x, f x = pure (eval x.get polynomial)) (x : Vector F n) (step : Positive F) :
    centralDifference f x i step = pure (eval x.get (pderiv i polynomial)) := by
  have apart : (2 * step.1 : F) ≠ 0 := mul_ne_zero two_ne_zero step.2.ne'
  have exact : (eval (Function.update x.get i (x.get i + step.1)) polynomial -
      eval (Function.update x.get i (x.get i - step.1)) polynomial) / (step.1 * two) =
        eval x.get (pderiv i polynomial) := by
    rw [eval_update_sub x.get i parabolic, two, mul_comm step.1, Nat.cast_ofNat]
    exact mul_div_cancel_left₀ _ apart
  rw [centralDifference, value, value, pure_bind, pure_bind, get_set_eq_update,
    get_set_eq_update, exact]

end Exactness

/-! Programs that read a point. -/

section Reading

variable {m : Type → Type} [Monad m] {S A B : Type}

def reading (program : S → m A) : StateT S m A := do
  monadLift (program (← get))

variable [LawfulMonad m]

theorem reading_run (program : S → m A) (state : S) :
    (reading program).run state = (fun answer => (answer, state)) <$> program state := by
  simp [reading]

theorem reading_bind (program : S → m A) (next : A → S → m B) :
    (reading program >>= fun answer => reading (next answer)) =
      reading fun state => program state >>= fun answer => next answer state := by
  apply StateT.ext
  intro state
  simp [reading_run]

theorem reading_pure (answer : A) :
    (pure answer : StateT S m A) = reading fun _ => pure answer := by
  apply StateT.ext
  intro state
  simp [reading_run]

theorem reading_map (f : A → B) (program : S → m A) :
    f <$> reading program = reading fun state => f <$> program state := by
  apply StateT.ext
  intro state
  simp [reading_run]

theorem reading_listMapM (f : A → S → m B) (items : List A) :
    (items.mapM fun item => reading (f item)) =
      reading fun state => items.mapM fun item => f item state := by
  induction items with
  | nil => exact reading_pure []
  | cons item rest ih =>
    simp only [List.mapM_cons, ih, reading_pure, reading_bind]

theorem reading_mapM {n : ℕ} (f : A → S → m B) (items : Vector A n) :
    (items.mapM fun item => reading (f item)) =
      reading fun state => items.mapM fun item => f item state := by
  apply Vector.map_toArray_inj.mp
  simp only [Vector.toArray_mapM, reading_map, Array.mapM_eq_mapM_toList, reading_listMapM]

end Reading

/-! Evaluations in place. -/

section InPlace

variable {F : Type} [Scalar F] {m : Type → Type} [Monad m] {n : ℕ}

/-- The quotient at the point that is carried. Its coordinate is moved forward, then backward, and
put back. -/
def centralDifferenceInPlace (f : Vector F n → m F) (i : Fin n) (step : Positive F) :
    StateT (Vector F n) m F := do
  let kept := (← get).get i
  modify fun x => x.set i (kept + step.1) i.isLt
  let forward ← reading f
  modify fun x => x.set i (kept - step.1) i.isLt
  let backward ← reading f
  modify fun x => x.set i kept i.isLt
  pure ((forward - backward) / (step.1 * two))

def Nonlinear.deriveInPlace (function : Nonlinear (Fin n) m F n)
    (steps : Vector (Positive F) n) : StateT (Vector F n) m (Vector F function.arity) := do
  match ← reading (function.gradient · function.partials) with
  | some partials => pure partials
  | none => function.indices.mapM fun i => centralDifferenceInPlace function.value i (steps.get i)

def Nonlinear.addGradientInPlace (function : Nonlinear (Fin n) m F n)
    (steps : Vector (Positive F) n) (scale : F) (gradient : Vector F n) :
    StateT (Vector F n) m (Nonlinear (Fin n) m F n × Vector F n) := do
  let partials ← function.deriveInPlace steps
  pure ({ function with partials }, addPartials function.indices partials scale gradient)

def Constraint.addGradientInPlace (constraint : Constraint (Fin n) m F n)
    (steps : Vector (Positive F) n) (scale : F) (gradient : Vector F n) :
    StateT (Vector F n) m (Constraint (Fin n) m F n × Vector F n) :=
  match constraint.form with
  | .linear function => pure (constraint, function.addGradient scale gradient)
  | .nonlinear function => do
      let (function, gradient) ← function.addGradientInPlace steps scale gradient
      pure ({ constraint with form := .nonlinear function }, gradient)

namespace Problem

def penalizeInPlace (steps : Vector (Positive F) n) :
    List (Constraint (Fin n) m F n) → F → Vector F n →
      StateT (Vector F n) m (List (Constraint (Fin n) m F n) × F × Vector F n)
  | [], total, gradient => pure ([], total, gradient)
  | constraint :: rest, total, gradient => do
      let value ← reading constraint.value
      match constraint.shifted? value with
      | none =>
          let (rest, total, gradient) ← penalizeInPlace steps rest total gradient
          pure (constraint :: rest, total, gradient)
      | some shifted =>
          let (constraint, gradient) ←
            constraint.addGradientInPlace steps (shifted + shifted) gradient
          let (rest, total, gradient) ←
            penalizeInPlace steps rest (total + shifted * shifted) gradient
          pure (constraint :: rest, total, gradient)

def evaluateInPlace (problem : Problem m F n) :
    StateT (Vector F n) m ((F × Vector F n) × Problem m F n) := do
  let value ← reading problem.objective.value
  let (objective, gradient) ←
    problem.objective.addGradientInPlace problem.steps 1 (Kernel.zeros n)
  let (constraints, total, gradient) ←
    penalizeInPlace problem.steps problem.constraints value gradient
  pure ((total, gradient), { problem with objective, constraints })

end Problem

variable [LawfulMonad m]

theorem centralDifferenceInPlace_eq (f : Vector F n → m F) (i : Fin n) (step : Positive F) :
    centralDifferenceInPlace f i step = reading fun x => centralDifference f x i step := by
  apply StateT.ext
  intro x
  -- Only the last store counts, and it stores what was there.
  have back : x.set i (x.get i) i.isLt = x := Vector.set_getElem_self i.isLt
  simp [centralDifferenceInPlace, centralDifference, reading_run, back]

section Equal

variable (steps : Vector (Positive F) n)

theorem Nonlinear.deriveInPlace_eq (function : Nonlinear (Fin n) m F n) :
    function.deriveInPlace steps = reading fun x => function.derive steps x := by
  simp only [derive, ← reading_bind, deriveInPlace]
  apply bind_congr
  intro partials?
  cases partials? with
  | some partials => exact reading_pure partials
  | none =>
    simp only [centralDifferenceInPlace_eq]
    exact reading_mapM _ function.indices

theorem Nonlinear.addGradientInPlace_eq (function : Nonlinear (Fin n) m F n) (scale : F)
    (gradient : Vector F n) :
    function.addGradientInPlace steps scale gradient =
      reading fun x => function.addGradient steps x scale gradient := by
  simp only [addGradientInPlace, deriveInPlace_eq, addGradient, ← reading_bind, reading_pure]

theorem Constraint.addGradientInPlace_eq (constraint : Constraint (Fin n) m F n) (scale : F)
    (gradient : Vector F n) :
    constraint.addGradientInPlace steps scale gradient =
      reading fun x => constraint.addGradient steps x scale gradient := by
  rw [addGradientInPlace]
  simp only [addGradient]
  cases constraint.form with
  | linear function => exact reading_pure _
  | nonlinear function =>
    simp only [Nonlinear.addGradientInPlace_eq, ← reading_bind, reading_pure]

theorem Problem.penalizeInPlace_eq (constraints : List (Constraint (Fin n) m F n)) (total : F)
    (gradient : Vector F n) :
    penalizeInPlace steps constraints total gradient =
      reading fun x => penalize steps x constraints total gradient := by
  induction constraints generalizing total gradient with
  | nil => exact reading_pure _
  | cons constraint rest ih =>
    simp only [penalizeInPlace, penalize, ← reading_bind]
    apply bind_congr
    intro value
    cases constraint.shifted? value with
    | none => simp only [ih, ← reading_bind, reading_pure]
    | some shifted =>
      simp only [Constraint.addGradientInPlace_eq, ih, ← reading_bind, reading_pure]

end Equal

/-- An evaluation in place is the evaluation, and leaves the point exactly as it was. -/
theorem Problem.evaluateInPlace_run (problem : Problem m F n) (x : Vector F n) :
    problem.evaluateInPlace.run x = (fun answer => (answer, x)) <$> problem.evaluate x := by
  have same : problem.evaluateInPlace = reading problem.evaluate := by
    simp only [evaluateInPlace, Nonlinear.addGradientInPlace_eq, penalizeInPlace_eq, reading_pure,
      reading_bind]
    rfl
  rw [same, reading_run]

end InPlace

end Descent

import Descent.Proofs.Pieces
import Descent.Proofs.Presentation

/-!
Evaluations that look at every access. A problem is evaluated as it is stated here: its indices are
natural numbers, its step sizes are as many as there happen to be, the point is moved in place, and
an access outside or a step that is not positive raises a fault. Where the indices name variables
and the steps are positive, nothing is ever raised, whatever the fault would have been, and the
evaluation is the one on positions.
-/

namespace Descent

open Scalar

section Entries

variable {m : Type → Type} [Monad m] [MonadExceptOf Fault m] (miss : Fault) {A : Type} {n : ℕ}

def fetch (items : Array A) (index : ℕ) : m A :=
  if inside : index < items.size then pure items[index] else throw miss

def store (items : Vector A n) (index : ℕ) (item : A) : m (Vector A n) :=
  if inside : index < n then pure (items.set index item inside) else throw miss

theorem fetch_position (items : Vector A n) (i : Fin n) :
    (fetch miss items.toArray i : m A) = pure (items.get i) := by
  rw [fetch, dif_pos (by rw [items.size_toArray]; exact i.isLt)]
  rfl

theorem store_position (items : Vector A n) (i : Fin n) (item : A) :
    (store miss items i item : m (Vector A n)) = pure (items.set i item i.isLt) := by
  rw [store, dif_pos i.isLt]

variable {F : Type} [Scalar F]

def accumulate (gradient : Vector F n) (index : ℕ) (amount : F) : m (Vector F n) := do
  let entry ← fetch miss gradient.toArray index
  store miss gradient index (entry + amount)

theorem accumulate_position [LawfulMonad m] (gradient : Vector F n) (i : Fin n) (amount : F) :
    (accumulate miss gradient i amount : m (Vector F n)) =
      pure (gradient.set i (gradient.get i + amount) i.isLt) := by
  rw [accumulate, fetch_position, pure_bind, store_position]

end Entries

/-! Functions as stated. -/

section Guarded

variable {m : Type → Type} [Monad m] [MonadExceptOf Fault m] (miss : Fault)
variable {F : Type} [Scalar F] {n : ℕ}

namespace Linear

def valueGuarded (function : Linear ℕ F) (x : Vector F n) : m F :=
  function.terms.foldlM
    (fun sum term => do
      let entry ← fetch miss x.toArray term.1
      pure (sum + term.2 * entry))
    (-function.rhs)

def addGradientGuarded (function : Linear ℕ F) (scale : F) (gradient : Vector F n) :
    m (Vector F n) :=
  function.terms.foldlM
    (fun gradient term => accumulate miss gradient term.1 (scale * term.2)) gradient

end Linear

def centralDifferenceGuarded (f : Vector F n → m F) (index : ℕ) (step : F) :
    StateT (Vector F n) m F := do
  if 0 < step then
    let kept ← fetch miss (← get).toArray index
    set (← store miss (← get) index (kept + step))
    let forward ← reading f
    set (← store miss (← get) index (kept - step))
    let backward ← reading f
    set (← store miss (← get) index kept)
    pure ((forward - backward) / (step * two))
  else throw miss

namespace Nonlinear

def deriveGuarded (function : Nonlinear ℕ m F n) (steps : Array F) :
    StateT (Vector F n) m (Vector F function.arity) := do
  match ← reading (function.gradient · function.partials) with
  | some partials => pure partials
  | none =>
      function.indices.mapM fun index => do
        let step ← fetch miss steps index
        centralDifferenceGuarded miss function.value index step

def addPartialsGuarded {arity : ℕ} (indices : Vector ℕ arity) (partials : Vector F arity)
    (scale : F) (gradient : Vector F n) : m (Vector F n) :=
  (indices.zip partials).foldlM
    (fun gradient part => accumulate miss gradient part.1 (scale * part.2)) gradient

def addGradientGuarded (function : Nonlinear ℕ m F n) (steps : Array F) (scale : F)
    (gradient : Vector F n) : StateT (Vector F n) m (Nonlinear ℕ m F n × Vector F n) := do
  let partials ← function.deriveGuarded miss steps
  let gradient ← addPartialsGuarded miss function.indices partials scale gradient
  pure ({ function with partials }, gradient)

end Nonlinear

namespace Constraint

def valueGuarded (constraint : Constraint ℕ m F n) (x : Vector F n) : m F :=
  match constraint.form with
  | .linear function => function.valueGuarded miss x
  | .nonlinear function => function.value x

def addGradientGuarded (constraint : Constraint ℕ m F n) (steps : Array F) (scale : F)
    (gradient : Vector F n) : StateT (Vector F n) m (Constraint ℕ m F n × Vector F n) := do
  match constraint.form with
  | .linear function =>
      let gradient ← function.addGradientGuarded miss scale gradient
      pure (constraint, gradient)
  | .nonlinear function =>
      let (function, gradient) ← function.addGradientGuarded miss steps scale gradient
      pure ({ constraint with form := .nonlinear function }, gradient)

end Constraint

/-- A problem as a solver is given it. -/
structure Stated (m : Type → Type) (F : Type) (n : ℕ) where
  objective : Nonlinear ℕ m F n
  constraints : List (Constraint ℕ m F n)
  stepSizes : Array F

namespace Stated

def penalizeGuarded (steps : Array F) :
    List (Constraint ℕ m F n) → F → Vector F n →
      StateT (Vector F n) m (List (Constraint ℕ m F n) × F × Vector F n)
  | [], total, gradient => pure ([], total, gradient)
  | constraint :: rest, total, gradient => do
      let value ← reading (constraint.valueGuarded miss)
      match constraint.shifted? value with
      | none =>
          let (rest, total, gradient) ← penalizeGuarded steps rest total gradient
          pure (constraint :: rest, total, gradient)
      | some shifted =>
          let (constraint, gradient) ←
            constraint.addGradientGuarded miss steps (shifted + shifted) gradient
          let (rest, total, gradient) ←
            penalizeGuarded steps rest (total + shifted * shifted) gradient
          pure (constraint :: rest, total, gradient)

def evaluateInPlace (stated : Stated m F n) :
    StateT (Vector F n) m ((F × Vector F n) × Stated m F n) := do
  let value ← reading stated.objective.value
  let (objective, gradient) ←
    stated.objective.addGradientGuarded miss stated.stepSizes 1 (Kernel.zeros n)
  let (constraints, total, gradient) ←
    penalizeGuarded miss stated.stepSizes stated.constraints value gradient
  pure ((total, gradient), { stated with objective, constraints })

def evaluate (stated : Stated m F n) (x : Vector F n) :
    m ((F × Vector F n) × Stated m F n) :=
  if stated.stepSizes.size = n then (stated.evaluateInPlace miss).run' x else throw miss

def maxViolation (stated : Stated m F n) (x : Vector F n) : m F :=
  Descent.maxViolation
    (fun constraint => return constraint.comparison.violation (← constraint.valueGuarded miss x))
    stated.constraints

end Stated

/-! Where the indices are positions and the steps are positive. -/

variable [LawfulMonad m]

theorem Linear.valueGuarded_rename (function : Linear (Fin n) F) (x : Vector F n) :
    (function.rename Fin.val).valueGuarded miss x = (pure (function.value x) : m F) := by
  simp only [valueGuarded, rename, List.foldlM_map, fetch_position, pure_bind, List.foldlM_pure]
  rfl

theorem Linear.addGradientGuarded_rename (function : Linear (Fin n) F) (scale : F)
    (gradient : Vector F n) :
    (function.rename Fin.val).addGradientGuarded miss scale gradient =
      (pure (function.addGradient scale gradient) : m (Vector F n)) := by
  simp only [addGradientGuarded, rename, List.foldlM_map, accumulate_position, List.foldlM_pure]
  rfl

theorem centralDifferenceGuarded_position (f : Vector F n → m F) (i : Fin n) (step : Positive F) :
    centralDifferenceGuarded miss f i step.1 = centralDifferenceInPlace f i step := by
  rw [centralDifferenceGuarded, if_pos step.2]
  simp only [fetch_position, store_position, pure_bind, centralDifferenceInPlace]
  apply StateT.ext
  intro x
  simp

theorem Nonlinear.deriveGuarded_rename (function : Nonlinear (Fin n) m F n)
    (steps : Vector (Positive F) n) :
    (function.rename Fin.val).deriveGuarded miss (steps.map Subtype.val).toArray =
      function.deriveInPlace steps := by
  have stepped (i : Fin n) : (steps.map Subtype.val).get i = (steps.get i).1 :=
    Vector.getElem_map _ i.isLt
  apply bind_congr
  intro partials?
  cases partials? with
  | some partials => rfl
  | none =>
    simp only [rename, Vector.mapM_map, Function.comp_def, fetch_position, pure_bind, stepped,
      centralDifferenceGuarded_position]

theorem Nonlinear.addPartialsGuarded_map {arity : ℕ} (indices : Vector (Fin n) arity)
    (partials : Vector F arity) (scale : F) (gradient : Vector F n) :
    addPartialsGuarded miss (indices.map Fin.val) partials scale gradient =
      (pure (addPartials indices partials scale gradient) : m (Vector F n)) := by
  simp only [addPartialsGuarded, Vector.zip_map_left, Vector.foldlM_map, Prod.map,
    accumulate_position, Vector.foldlM_pure, id_eq]
  rfl

theorem Nonlinear.addGradientGuarded_rename (function : Nonlinear (Fin n) m F n)
    (steps : Vector (Positive F) n) (scale : F) (gradient : Vector F n) :
    (function.rename Fin.val).addGradientGuarded miss (steps.map Subtype.val).toArray scale
        gradient =
      (fun added => (added.1.rename Fin.val, added.2)) <$>
        function.addGradientInPlace steps scale gradient := by
  have added (partials : Vector F function.arity) :
      (addPartialsGuarded miss (function.rename Fin.val).indices partials scale gradient :
        StateT (Vector F n) m (Vector F n)) =
          pure (addPartials function.indices partials scale gradient) :=
    addPartialsGuarded_map miss function.indices partials scale gradient
  rw [addGradientGuarded, deriveGuarded_rename, addGradientInPlace, map_bind]
  apply bind_congr
  intro partials
  rw [map_pure]
  exact (congrArg (· >>= _) (added partials)).trans (pure_bind _ _)

theorem Constraint.valueGuarded_rename (constraint : Constraint (Fin n) m F n) :
    (constraint.rename Fin.val).valueGuarded miss = constraint.value := by
  funext x
  obtain ⟨form, comparison, offset⟩ := constraint
  cases form with
  | linear function => exact function.valueGuarded_rename miss x
  | nonlinear function => rfl

theorem Constraint.addGradientGuarded_rename (constraint : Constraint (Fin n) m F n)
    (steps : Vector (Positive F) n) (scale : F) (gradient : Vector F n) :
    (constraint.rename Fin.val).addGradientGuarded miss (steps.map Subtype.val).toArray scale
        gradient =
      (fun added => (added.1.rename Fin.val, added.2)) <$>
        constraint.addGradientInPlace steps scale gradient := by
  obtain ⟨form, comparison, offset⟩ := constraint
  cases form with
  | linear function =>
    have added : (function.rename Fin.val).addGradientGuarded miss scale gradient =
        (pure (function.addGradient scale gradient) : StateT (Vector F n) m (Vector F n)) :=
      function.addGradientGuarded_rename miss scale gradient
    simp only [addGradientGuarded, rename, added, addGradientInPlace, pure_bind, map_pure]
  | nonlinear function =>
    simp only [addGradientGuarded, rename, addGradientInPlace,
      Nonlinear.addGradientGuarded_rename, bind_map_left, map_bind, map_pure]

def Problem.stated (problem : Problem m F n) : Stated m F n where
  objective := problem.objective.rename Fin.val
  constraints := problem.constraints.map (·.rename Fin.val)
  stepSizes := (problem.steps.map Subtype.val).toArray

namespace Stated

theorem penalizeGuarded_rename (steps : Vector (Positive F) n)
    (constraints : List (Constraint (Fin n) m F n)) (total : F) (gradient : Vector F n) :
    penalizeGuarded miss (steps.map Subtype.val).toArray (constraints.map (·.rename Fin.val)) total
        gradient =
      (fun penalized => (penalized.1.map (·.rename Fin.val), penalized.2)) <$>
        Problem.penalizeInPlace steps constraints total gradient := by
  induction constraints generalizing total gradient with
  | nil => rw [List.map_nil, penalizeGuarded, Problem.penalizeInPlace, map_pure, List.map_nil]
  | cons constraint rest ih =>
    rw [List.map_cons, penalizeGuarded, Problem.penalizeInPlace, Constraint.valueGuarded_rename,
      map_bind]
    apply bind_congr
    intro value
    have same : (constraint.rename Fin.val).shifted? value = constraint.shifted? value := rfl
    rw [same]
    cases constraint.shifted? value with
    | none => simp only [ih, bind_map_left, map_bind, map_pure, List.map_cons]
    | some shifted =>
      simp only [Constraint.addGradientGuarded_rename, ih, bind_map_left, map_bind, map_pure,
        List.map_cons]

/-- An evaluation that looks at every access answers like one that need not look. -/
theorem evaluate_stated (problem : Problem m F n) (x : Vector F n) :
    problem.stated.evaluate miss x =
      (fun answer => (answer.1, answer.2.stated)) <$> problem.evaluate x := by
  have guarded : problem.stated.evaluateInPlace miss =
      (fun answer => (answer.1, answer.2.stated)) <$> problem.evaluateInPlace := by
    simp only [evaluateInPlace, Problem.stated, Problem.evaluateInPlace,
      Nonlinear.addGradientGuarded_rename, penalizeGuarded_rename, bind_map_left, map_bind,
      map_pure]
    rfl
  have counted : problem.stated.stepSizes.size = n := Vector.size_toArray _
  rw [evaluate, if_pos counted, guarded, StateT.run'_eq, StateT.run_map,
    Problem.evaluateInPlace_run, Functor.map_map, Functor.map_map]

theorem maxViolation_stated (problem : Problem m F n) (x : Vector F n) :
    problem.stated.maxViolation miss x = problem.maxViolation x := by
  simp only [maxViolation, Descent.maxViolation, Problem.maxViolation, Problem.stated,
    List.foldlM_map, Constraint.valueGuarded_rename]
  rfl

end Stated

end Guarded

/-! Vector operations. -/

namespace Kernels

variable {F : Type} [Scalar F] {n : ℕ}

/-- The operations on operands of any length. What is answered when one fails is `fallback`'s. -/
def guarded (threads : ℕ) (runner : Runner) (fallback : Kernels F n) : Kernels F n :=
  let context : Context := { threads, length := n }
  { update := fun update target =>
      match (context.update runner (update.map Vector.toArray) target.toArray).result with
      | .ok items =>
          if fits : items.size = n then ⟨items, fits⟩ else fallback.update update target
      | .error _ => fallback.update update target
    dot := fun a b =>
      match (context.dot runner a.toArray b.toArray).result with
      | .ok product => product
      | .error _ => fallback.dot a b
    normSquared := fun v =>
      match (context.normSquared runner v.toArray).result with
      | .ok norm => norm
      | .error _ => fallback.normSquared v }

/-- The operations on operands of any length do what these do where the lengths agree. -/
structure Meets (threads : ℕ) (runner : Runner) (kernels : Kernels F n) : Prop where
  update (update : Update (Vector F n) F) (target : Vector F n) :
    (Context.update ⟨threads, n⟩ runner (update.map Vector.toArray) target.toArray).result =
      .ok (kernels.update update target).toArray
  dot (a b : Vector F n) :
    (Context.dot ⟨threads, n⟩ runner a.toArray b.toArray).result = .ok (kernels.dot a b)
  normSquared (v : Vector F n) :
    (Context.normSquared ⟨threads, n⟩ runner v.toArray).result = .ok (kernels.normSquared v)

theorem shared_meets (threads : ℕ) (runner : Runner) :
    (shared F n threads runner).Meets threads runner := by
  cases single : Context.isSerial ⟨threads, n⟩ with
  | true =>
    rw [shared, if_pos single]
    constructor
    · intro update target
      rw [Context.update, if_pos single]
      exact update.checked_map target
    · intro a b
      rw [Context.dot, if_pos single]
      exact Kernel.dotChecked_toArray a b
    · intro v
      rw [Context.normSquared, if_pos single]
      exact congrArg Except.ok (Kernel.normSquared_toArray v)
  | false =>
    have several : ¬Context.isSerial ⟨threads, n⟩ = true := Bool.not_eq_true _ ▸ single
    rw [shared, if_neg several]
    constructor
    · exact Context.update_spread runner single
    · intro a b
      rw [Context.dot, if_neg several, dif_pos ⟨a.size_toArray, b.size_toArray⟩]
    · intro v
      rw [Context.normSquared, if_neg several, dif_pos v.size_toArray]

theorem guarded_eq (threads : ℕ) (runner : Runner) (fallback : Kernels F n) :
    guarded threads runner fallback = shared F n threads runner := by
  have meets := shared_meets (F := F) (n := n) threads runner
  simp only [guarded, meets.update, meets.dot, meets.normSquared, Vector.size_toArray, dite_true]

end Kernels

end Descent

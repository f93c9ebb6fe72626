import Descent.Constraint
import Descent.Minimize
import Descent.Token

/-!
Minimization under constraints. The objective plus the squares of the shifted violations is
minimized again and again; after each such outer iteration the offsets move against the values of
their constraints, so that the shifts approach multipliers.

The caller's token stops the inner runs through their predicate. Every inner run has a token of
its own, which it may set without the caller noticing.
-/

namespace Descent

open Scalar

structure PenaltySettings (F : Type) where
  innerIterations : Nat
  outerIterations : Nat
  offsetRate : F
  violationTolerance : F
  minimizer : Settings F
  deriving BEq

namespace PenaltySettings

variable {F : Type} [Scalar F]

def standard : PenaltySettings F where
  innerIterations := 100
  outerIterations := 10
  offsetRate := 1
  violationTolerance := 0
  minimizer := .standard

def withInnerIterations (settings : PenaltySettings F) (limit : Nat) :
    Except Fault (PenaltySettings F) := do
  Precondition.innerIterations.guard (0 < limit)
  pure { settings with innerIterations := limit }

def withOuterIterations (settings : PenaltySettings F) (limit : Nat) :
    Except Fault (PenaltySettings F) := do
  Precondition.outerIterations.guard (0 < limit)
  pure { settings with outerIterations := limit }

def withOffsetRate (settings : PenaltySettings F) (rate : F) :
    Except Fault (PenaltySettings F) := do
  Precondition.offsetRate.guard (0 < rate)
  pure { settings with offsetRate := rate }

def withViolationTolerance (settings : PenaltySettings F) (tolerance : F) :
    Except Fault (PenaltySettings F) := do
  Precondition.violationTolerance.guard (0 ≤ tolerance)
  pure { settings with violationTolerance := tolerance }

def withMinimizer (settings : PenaltySettings F) (minimizer : Settings F) :
    PenaltySettings F :=
  { settings with minimizer }

/-- Meeting a tolerance of zero is not asked for. -/
def checksTolerance (settings : PenaltySettings F) : Bool := 0 < settings.violationTolerance

def inner (settings : PenaltySettings F) : Settings F :=
  { settings.minimizer with maxIterations := settings.innerIterations }

end PenaltySettings

/-- What a solver asks of its caller besides the functions of the problem. -/
structure Watch (m : Type → Type) (F : Type) where
  isCancelled : m Bool
  note : Event F → m Unit
  /-- Whether outer iterations are reported. This takes an evaluation each. -/
  verbose : Bool

structure Problem (m : Type → Type) (F : Type) [Scalar F] (n : Nat) where
  objective : Nonlinear (Fin n) m F n
  constraints : List (Constraint (Fin n) m F n)
  steps : Vector (Positive F) n

namespace Problem

variable {m : Type → Type} {F : Type} [Scalar F] {n : Nat}

def positive? (step : F) : Option (Positive F) :=
  if positive : 0 < step then some ⟨step, positive⟩ else none

/-- A problem as stated, with one positive step for each variable. The rules are tested in this
order. -/
def create (objective : Nonlinear Nat m F n) (constraints : List (Constraint Nat m F n))
    (stepSizes : Array F) : Except Fault (Problem m F n) :=
  if counted : stepSizes.size = n then
    match (⟨stepSizes, counted⟩ : Vector F n).mapM positive? with
    | none => .error (.precondition .stepSign)
    | some steps =>
        match objective.rename? (position? n),
            constraints.mapM (Constraint.rename? (position? n)) with
        | some objective, some constraints => .ok { objective, constraints, steps }
        | _, _ => .error (.precondition .variableIndex)
  else .error (.precondition .stepCount)

variable [Monad m]

def penalize (steps : Vector (Positive F) n) (x : Vector F n) :
    List (Constraint (Fin n) m F n) → F → Vector F n →
      m (List (Constraint (Fin n) m F n) × F × Vector F n)
  | [], total, gradient => pure ([], total, gradient)
  | constraint :: rest, total, gradient => do
      let value ← constraint.value x
      match constraint.shifted? value with
      | none =>
          let (rest, total, gradient) ← penalize steps x rest total gradient
          pure (constraint :: rest, total, gradient)
      | some shifted =>
          let (constraint, gradient) ←
            constraint.addGradient steps x (shifted + shifted) gradient
          let (rest, total, gradient) ←
            penalize steps x rest (total + shifted * shifted) gradient
          pure (constraint :: rest, total, gradient)

def evaluate (problem : Problem m F n) (x : Vector F n) :
    m ((F × Vector F n) × Problem m F n) := do
  let value ← problem.objective.value x
  let (objective, gradient) ←
    problem.objective.addGradient problem.steps x 1 (Kernel.zeros n)
  let (constraints, total, gradient) ←
    penalize problem.steps x problem.constraints value gradient
  pure ((total, gradient), { problem with objective, constraints })

def maxViolation (problem : Problem m F n) (x : Vector F n) : m F :=
  Descent.maxViolation (·.violation x) problem.constraints

def adjustOffsets (problem : Problem m F n) (rate : F) (x : Vector F n) :
    m (Problem m F n) := do
  let constraints ← problem.constraints.mapM fun constraint => do
    pure (constraint.adjustOffset (← constraint.value x) rate)
  pure { problem with constraints }

end Problem

structure PenaltyReport (F : Type) where
  status : Status
  value : F
  /-- Lowest penalized value of the last inner run. -/
  penaltyValue : F
  outerIterations : Nat
  innerIterations : Nat
  evaluations : Nat
  maxViolation : F
  violationHistory : Array F

def PenaltyReport.isSuccess {F : Type} (report : PenaltyReport F) : Bool :=
  report.status = .success

/-- What a solver leaves behind: the point, and the functions with their offsets. -/
structure Solution (m : Type → Type) (F : Type) (n : Nat) where
  x : Vector F n
  objective : Nonlinear Nat m F n
  constraints : List (Constraint Nat m F n)
  report : PenaltyReport F

namespace Penalty

variable {m : Type → Type} [Monad m] {F : Type} [Unbounded F] {n : Nat}

structure Inner (m : Type → Type) (F : Type) [Scalar F] (n : Nat) where
  problem : Problem m F n
  token : Token

structure Progress (m : Type → Type) (F : Type) [Scalar F] (n : Nat) where
  x : Vector F n
  problem : Problem m F n
  status : Status
  penaltyValue : F
  outerIterations : Nat
  innerIterations : Nat
  evaluations : Nat
  violationHistory : Array F

def innerCaller (watch : Watch m F) : Caller (StateT (Inner m F n) m) F n where
  evaluate x := do
    let inner ← get
    let (answer, problem) ← inner.problem.evaluate x
    set { inner with problem }
    pure answer
  shouldStop _ _ _ := watch.isCancelled
  isCancelled := do pure (← get).token.isCancelled
  cancel := modify fun inner => { inner with token := inner.token.cancel }
  note event := watch.note event

variable [MonadExceptOf Fault m] (settings : PenaltySettings F) (runner : Runner)
  (watch : Watch m F)

/-- One inner run, and the violation where it ended. -/
def minimizeOnce (progress : Progress m F n) : m (F × Progress m F n) := do
  let ((x, report), inner) ←
    (minimize settings.inner runner (innerCaller watch) progress.x).run
      { problem := progress.problem, token := .fresh }
  let worst ← inner.problem.maxViolation x
  pure
    (worst,
      { x
        problem := inner.problem
        status := report.status
        penaltyValue := report.value
        outerIterations := progress.outerIterations + 1
        innerIterations := progress.innerIterations + report.iterations
        evaluations := progress.evaluations + report.evaluations
        violationHistory := progress.violationHistory.push worst })

def isFinal (status : Status) (worst : F) : Bool :=
  status = .unbounded || (settings.checksTolerance && worst ≤ settings.violationTolerance)

def outerFrom (done : Nat) (progress : Progress m F n) : m (Progress m F n) := do
  if done < settings.outerIterations then
    let cancelled ← watch.isCancelled
    if cancelled then pure progress
    else
      let (worst, progress) ← minimizeOnce settings runner watch progress
      if watch.verbose then
        let value ← progress.problem.objective.value progress.x
        watch.note (.outerIteration done value progress.penaltyValue worst)
      if isFinal settings progress.status worst then pure progress
      else
        let problem ← progress.problem.adjustOffsets settings.offsetRate progress.x
        outerFrom (done + 1) { progress with problem }
  else pure progress
termination_by settings.outerIterations - done

/-- The status of a whole solve. Success takes a token that is not set and a tolerance that is
met. -/
def finalStatus (status : Status) (worst : F) : m Status := do
  if status = .unbounded then pure status
  else
    let cancelled ← watch.isCancelled
    if cancelled || (settings.checksTolerance && settings.violationTolerance < worst) then
      pure .suboptimal
    else pure status

def solve (x : Vector F n) (objective : Nonlinear Nat m F n)
    (constraints : List (Constraint Nat m F n)) (stepSizes : Array F) :
    m (Solution m F n) := do
  let problem ← MonadExcept.ofExcept (Problem.create objective constraints stepSizes)
  MonadExcept.ofExcept (reserve settings.outerIterations (Unbounded.bytes F))
  let progress ← outerFrom settings runner watch 0
    { x
      problem
      status := .success
      penaltyValue := 0
      outerIterations := 0
      innerIterations := 0
      evaluations := 0
      violationHistory := #[] }
  let value ← progress.problem.objective.value progress.x
  let worst ← progress.problem.maxViolation progress.x
  let status ← finalStatus settings watch progress.status worst
  pure
    { x := progress.x
      objective := progress.problem.objective.rename Fin.val
      constraints := progress.problem.constraints.map (·.rename Fin.val)
      report :=
        { status
          value
          penaltyValue := progress.penaltyValue
          outerIterations := progress.outerIterations
          innerIterations := progress.innerIterations
          evaluations := progress.evaluations
          maxViolation := worst
          violationHistory := progress.violationHistory } }

end Penalty

end Descent

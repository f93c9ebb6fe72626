import Descent.Event
import Descent.Factorization

/-!
Roots of a system of equations. Every trial evaluates the system, solves the linear one and moves
by the solution. It stops as soon as the summed residuals or the summed step are small enough.
-/

namespace Descent

structure RootFinder (F : Type) where
  stepTolerance : F
  residualTolerance : F
  maxTrials : Nat

structure RootReport (F : Type) where
  trials : Nat
  residualNorm : F
  /-- Summed magnitudes of the last step, zero if none was taken. -/
  stepNorm : F
  deriving DecidableEq

namespace RootFinder

variable {F : Type} [Scalar F]

def standard : RootFinder F where
  stepTolerance := 1e-4
  residualTolerance := 1e-4
  maxTrials := 20

def withStepTolerance (finder : RootFinder F) (tolerance : F) : Except Fault (RootFinder F) := do
  Precondition.stepTolerance.guard (0 ≤ tolerance)
  pure { finder with stepTolerance := tolerance }

def withResidualTolerance (finder : RootFinder F) (tolerance : F) :
    Except Fault (RootFinder F) := do
  Precondition.residualTolerance.guard (0 ≤ tolerance)
  pure { finder with residualTolerance := tolerance }

def withMaxTrials (finder : RootFinder F) (limit : Nat) : Except Fault (RootFinder F) := do
  Precondition.trials.guard (0 < limit)
  pure { finder with maxTrials := limit }

variable {m : Type → Type} [Monad m] {n : Nat}

/-- Trials from number `done + 1` on. Answers the last point, and the report or the reason why
there is none. -/
def trialsFrom (finder : RootFinder F) (system : Vector F n → m (Grid F n n × Vector F n))
    (note : Event F → m Unit) (done : Nat) (x : Vector F n) :
    m (Vector F n × Except Failure (RootReport F)) := do
  if done < finder.maxTrials then
    let trial := done + 1
    let (jacobian, residuals) ← system x
    let residualNorm := Kernel.absSum residuals
    if residualNorm ≤ finder.residualTolerance then
      pure (x, .ok { trials := trial, residualNorm, stepNorm := 0 })
    else
      match Factorization.ofMatrix jacobian with
      | .error failure =>
          note (.singularTrial trial)
          pure (x, .error failure)
      | .ok lu =>
          let step := lu.solve residuals
          let stepNorm := Kernel.absSum step
          let moved := x.zipWith (· - ·) step
          if stepNorm ≤ finder.stepTolerance then
            pure (moved, .ok { trials := trial, residualNorm, stepNorm })
          else finder.trialsFrom system note trial moved
  else pure (x, .error (.tooManyTrials finder.maxTrials))
termination_by finder.maxTrials - done

def solve (finder : RootFinder F) (system : Vector F n → m (Grid F n n × Vector F n))
    (note : Event F → m Unit) (x : Vector F n) :
    m (Vector F n × Except Failure (RootReport F)) :=
  finder.trialsFrom system note 0 x

end RootFinder

end Descent

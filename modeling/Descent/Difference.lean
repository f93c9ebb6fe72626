import Descent.Fault
import Descent.Scalar

/-!
Central difference quotients. A perturbed point differs from the given one in a single
coordinate.
-/

namespace Descent

open Scalar

abbrev Positive (F : Type) [Scalar F] := { step : F // 0 < step }

variable {F : Type} [Scalar F] {m : Type → Type} [Monad m] {n : Nat}

/-- Evaluates `f` at `x` moved forward along coordinate `i`, then at `x` moved backward. -/
def centralDifference (f : Vector F n → m F) (x : Vector F n) (i : Fin n) (step : Positive F) :
    m F := do
  let forward ← f (x.set i (x.get i + step.1) i.isLt)
  let backward ← f (x.set i (x.get i - step.1) i.isLt)
  pure ((forward - backward) / (step.1 * two))

def differentiate [MonadExceptOf Fault m] (f : Vector F n → m F) (x : Vector F n) (step : F) :
    m (Vector F n) := do
  if positive : 0 < step then
    Vector.ofFnM fun i => centralDifference f x i ⟨step, positive⟩
  else throw (.precondition .differenceStep)

end Descent

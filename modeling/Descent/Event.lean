import Descent.Line.Bracket

/-!
What a method reports while it runs. An event is data; `Event.text` words it, given a spelling of
numbers.
-/

namespace Descent

inductive Level where
  | warning
  | debug
  | trace
  deriving DecidableEq

def Level.depth : Level → Nat
  | warning => 0
  | debug => 1
  | trace => 2

def Level.letter : Level → String
  | warning => "W"
  | debug => "D"
  | trace => "T"

inductive Event (F : Type) where
  | singularTrial (trial : Nat)
  | unbounded (iterations : Nat) (best : F)
  | outerIteration (index : Nat) (objective penalized violation : F)
  | notDownhill (iteration : Nat)
  | backingOut (iteration : Nat) (fitted best : F)
  | redoing (iteration : Nat)
  | fastRejected (iteration : Nat) (probe : F)
  | noProgress (iteration : Nat) (exit : Exit) (probes : Nat)
  | restarting (iteration : Nat) (scheduled : Bool)
  | iterated (iteration : Nat) (value best step : F)

namespace Event

variable {F : Type}

def level : Event F → Level
  | singularTrial _ | unbounded .. => .warning
  | iterated .. => .trace
  | _ => .debug

/-- The wording. Violations have a spelling of their own. -/
def text (number violation : F → String) : Event F → String
  | singularTrial trial =>
      s!"Newton-Raphson trial {trial}: singular matrix in LU decomposition"
  | unbounded iterations best =>
      s!"minimization unbounded after {iterations} iterations: best value {number best}"
  | outerIteration index objective penalized worst =>
      s!"outer iteration {index}: objective {number objective}, " ++
        s!"penalized {number penalized}, max violation {violation worst}"
  | notDownhill iteration =>
      s!"iteration {iteration}: direction is not downhill, restarting"
  | backingOut iteration fitted best =>
      s!"iteration {iteration}: fitted iterate evaluates to {number fitted}, " ++
        s!"backing out to {number best}"
  | redoing iteration =>
      s!"iteration {iteration}: redoing line search from fitted iterate"
  | fastRejected iteration probe =>
      s!"iteration {iteration}: fast line search rejected, probe value {number probe}"
  | noProgress iteration exit probes =>
      s!"iteration {iteration}: line search made no progress " ++
        s!"({exit.label} after {probes} probes)"
  | restarting iteration scheduled =>
      s!"iteration {iteration}: restarting direction (scheduled: {scheduled})"
  | iterated iteration value best step =>
      s!"iteration {iteration}: value {number value}, best {number best}, " ++
        s!"next step {number step}"

end Event

end Descent

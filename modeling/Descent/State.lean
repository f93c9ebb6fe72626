import Descent.Jitter
import Descent.Line.Record
import Descent.Parallel
import Descent.Tuning

/-!
The state of a minimization between two evaluations, and the moves that need none: restarting the
direction, judging a fit through two samples, and advancing to a new iterate with its direction
and step guess.

The iterate may come from a fit. Then its value and gradient are predictions, and `real` is
false. The best point is always one at which the objective was evaluated.
-/

namespace Descent

open Scalar

structure Best (F : Type) (n : Nat) where
  point : Vector F n
  gradient : Vector F n
  value : F

/-- The evaluations so far: how many there were, and the first of those with the lowest value. -/
structure Tally (F : Type) (n : Nat) where
  evaluations : Nat
  best : Best F n

namespace Tally

variable {F : Type} {n : Nat}

def create [Unbounded F] (point : Vector F n) : Tally F n :=
  { evaluations := 0
    best := { point, gradient := Kernel.zeros n, value := Unbounded.infinity } }

def add [Scalar F] (tally : Tally F n) (point : Vector F n) (value : F) (gradient : Vector F n) :
    Tally F n :=
  { evaluations := tally.evaluations + 1
    best := if value < tally.best.value then { point, gradient, value } else tally.best }

end Tally

structure State (F : Type) (n : Nat) where
  tally : Tally F n
  jitter : Jitter
  x : Vector F n
  gradient : Vector F n
  value : F
  /-- The iterate was evaluated and not fitted. -/
  real : Bool
  direction : Vector F n
  directionNormSquared : F
  step : F
  initialGradientNorm : F
  runLength : F
  sinceReset : Nat
  /-- The best values after recent iterations, newest first. -/
  recentBests : List F
  sinceImprovement : Nat

namespace State

variable {F : Type} {n : Nat}

def create [Scalar F] (kernels : Kernels F n) (settings : Settings F) (x : Vector F n)
    (value : F) (gradient : Vector F n) (tally : Tally F n) : State F n :=
  let direction := kernels.update (.scale (-1)) gradient
  let normSquared := kernels.normSquared direction
  { tally
    jitter := .ofSeed settings.seed
    x
    gradient
    value
    real := true
    direction
    directionNormSquared := normSquared
    step := settings.firstStep
    initialGradientNorm := sqrt normSquared
    runLength := (settings.noResetRunLength : F)
    sinceReset := 0
    recentBests := [tally.best.value]
    sinceImprovement := 0 }

def recentThreshold [Unbounded F] (state : State F n) : F :=
  (state.recentBests.take 2).foldl minNum Unbounded.infinity

variable [Scalar F] (kernels : Kernels F n) (settings : Settings F)

def restart (state : State F n) : State F n :=
  let direction := kernels.update (.scale (-1)) state.gradient
  { state with
    direction
    directionNormSquared := kernels.normSquared direction
    sinceReset := 0 }

def slope (state : State F n) : F := kernels.dot state.gradient state.direction

def steepestSlope? (state : State F n) : Option F :=
  if 0 < state.directionNormSquared then some (-state.directionNormSquared) else none

def withoutDirection (state : State F n) : State F n :=
  { state with directionNormSquared := 0 }

/-- The step at which the next line is probed, jittered if nothing improved for long. -/
def probeStep (state : State F n) : F × State F n :=
  let tuning := settings.tuning
  let (step, state) :=
    if tuning.randomizeAfter ≤ state.sinceImprovement then
      let (shift, jitter) : F × Jitter := state.jitter.draw
      (state.step * (1 + tuning.randomJitter * shift), { state with jitter })
    else (state.step, state)
  if 0 < step ∧ isFinite step then (step, state) else (settings.firstStep, state)

def noteProgress (state : State F n) : State F n :=
  let value := state.tally.best.value
  let improved := state.recentBests.head?.all fun previous => value < previous
  { state with
    sinceImprovement := if improved then 0 else state.sinceImprovement + 1
    recentBests := (value :: state.recentBests).take (max settings.tuning.stagnationWindow 2) }

structure Fit (F : Type) where
  step : F
  value : F

/-- The fit through start and probe, if it can be trusted: not too far out, predicting enough of
a decrease, and with an interpolated gradient nearly orthogonal to the direction. -/
def trustedFit? (state : State F n) (start probe : Sample F) (probeGradient : Vector F n) :
    Option (Fit F) :=
  let tuning := settings.tuning
  match start.fitMinimizer probe with
  | none => none
  | some fitted =>
      if ¬ 0 < fitted ∨ tuning.maxFitExtrapolation * probe.step < fitted then none
      else
        let predicted := start.hermiteValue probe fitted
        let enough := start.value + tuning.sufficientDecrease * fitted * start.slope
        if ¬ predicted ≤ enough ∨ probe.value < predicted then none
        else
          let u := fitted / probe.step
          let w := 1 - u
          let g0 := kernels.normSquared state.gradient
          let g1 := kernels.normSquared probeGradient
          let g01 := kernels.dot state.gradient probeGradient
          let normSquared := w * w * g0 + two * u * w * g01 + u * u * g1
          let slope := w * start.slope + u * probe.slope
          if 0 < normSquared ∧
              tuning.maxCos * tuning.maxCos * normSquared * state.directionNormSquared <
                slope * slope then none
          else some { step := fitted, value := predicted }

def interpolatedGradient (state : State F n) (probe : Sample F) (probeGradient : Vector F n)
    (step : F) : Vector F n :=
  let u := step / probe.step
  kernels.update (.addTwoScaled state.gradient (1 - u) probeGradient u) (Kernel.zeros n)

structure Move (F : Type) (n : Nat) where
  step : F
  value : F
  gradient : Vector F n
  real : Bool

/-- How the gradient changed between the reference sample and the new iterate, and how far they
are apart. The reference is the best sample of the line that is not the new iterate, otherwise
the start. -/
def change (state : State F n) (line : Record F n) (move : Move F n) : Vector F n × F :=
  match line.reference move.step with
  | some reference =>
      (kernels.update (.addScaled reference.gradient (-1)) move.gradient,
        move.step - reference.sample.step)
  | none => (kernels.update (.addScaled state.gradient (-1)) move.gradient, move.step)

def conjugate (state : State F n) (beta : F) : State F n :=
  let scaled := kernels.update (.scale beta) state.direction
  let direction := kernels.update (.addScaled state.gradient (-1)) scaled
  { state with direction, directionNormSquared := kernels.normSquared direction }

/-- The guess for the next line, from the curvature of the last one, limited by the distance
just moved. -/
def guess (state : State F n) (slope curvature length : F) : F :=
  let limit := settings.tuning.maxStepGrowth * length / sqrt state.directionNormSquared
  let wanted :=
    if 0 < curvature then -slope / (curvature * state.directionNormSquared) else limit
  let limited := if wanted ≤ limit then wanted else limit
  if 0 < limited then limited else settings.firstStep

structure Turn (F : Type) (n : Nat) where
  state : State F n
  slope : F
  restarted : Option Bool

/-- Restart when the run is over or the weight is of no use; otherwise turn to the conjugate
direction, or to steepest descent where that does not descend. -/
def turn (state : State F n) (beta : F) : Turn F n :=
  let scheduled : Bool := state.runLength ≤ (state.sinceReset : F)
  if scheduled ∨ ¬ 0 < beta ∨ ¬ isFinite beta then
    let state :=
      if scheduled then { state with runLength := state.runLength * settings.resetExpandFactor }
      else state
    let state := state.restart kernels
    { state, slope := state.slope kernels, restarted := some scheduled }
  else
    let state := state.conjugate kernels beta
    let slope := state.slope kernels
    if slope < 0 then { state, slope, restarted := none }
    else
      let state := state.restart kernels
      { state, slope := -state.directionNormSquared, restarted := none }

def advance (state : State F n) (line : Record F n) (move : Move F n) : Turn F n :=
  let (difference, span) := state.change kernels line move
  let directionChange := kernels.dot state.direction difference
  let gradientChange := kernels.dot move.gradient difference
  let curvature := directionChange / (span * state.directionNormSquared)
  let length := Scalar.abs move.step * sqrt state.directionNormSquared
  let moved :=
    { state with
      x := kernels.update (.addScaled state.direction move.step) state.x
      gradient := move.gradient
      value := move.value
      real := move.real
      sinceReset := state.sinceReset + 1 }
  let turned := moved.turn kernels settings (gradientChange / directionChange)
  let guessed :=
    { turned.state with step := turned.state.guess settings turned.slope curvature length }
  { turned with state := guessed.noteProgress settings }

end State

end Descent

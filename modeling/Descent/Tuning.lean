import Descent.Scalar
import Descent.Fault

/-!
Thresholds and limits of a minimization. The published rules are checked where a value is set;
every other combination is admitted.
-/

namespace Descent

open Scalar

structure Tuning (F : Type) where
  /-- How much further than the last move the next guess may reach. -/
  maxStepGrowth : F
  /-- A fitted minimum further out than this multiple of the probe is not trusted. -/
  maxFitExtrapolation : F
  /-- Largest cosine between interpolated gradient and direction that is trusted. -/
  maxCos : F
  randomizeAfter : Nat
  randomJitter : F
  stagnationWindow : Nat
  /-- Share of the linear decrease that counts as sufficient. -/
  sufficientDecrease : F
  /-- Share of the initial slope that may remain. -/
  slopeShrink : F
  /-- A bracket that keeps more than this share of its width is only bisected from then on. -/
  bracketShrink : F
  /-- Share of a bracket in which a fitted step is trusted. -/
  fitInterior : F
  /-- Slopes that differ by less than this share of the largest look flat. -/
  suspectSlopeRatio : F
  staleProbeLimit : Nat
  lostMinimumLimit : Nat
  suspectBisectionLimit : Nat
  bisectionsWithLostLimit : Nat
  maxProbes : Nat
  deriving BEq

def Tuning.standard {F : Type} [Scalar F] : Tuning F where
  maxStepGrowth := ((8 : Nat) : F)
  maxFitExtrapolation := ((10 : Nat) : F)
  maxCos := 0.5
  randomizeAfter := 6
  randomJitter := 0.25
  stagnationWindow := 10
  sufficientDecrease := 1e-4
  slopeShrink := 0.5
  bracketShrink := 0.75
  fitInterior := 0.9
  suspectSlopeRatio := 1e-3
  staleProbeLimit := 3
  lostMinimumLimit := 3
  suspectBisectionLimit := 3
  bisectionsWithLostLimit := 2
  maxProbes := 30

/-- The rules a line search relies on, tested in this order. -/
def Tuning.check {F : Type} [Scalar F] (tuning : Tuning F) : Except Fault Unit := do
  Precondition.sufficientDecrease.guard
    (0 < tuning.sufficientDecrease ∧ tuning.sufficientDecrease < tuning.slopeShrink)
  Precondition.slopeShrink.guard (tuning.slopeShrink < 1)
  Precondition.stepGrowth.guard (1 < tuning.maxStepGrowth)
  Precondition.fitInterior.guard (0 < tuning.fitInterior ∧ tuning.fitInterior ≤ 1)
  Precondition.probes.guard (0 < tuning.maxProbes)

structure Settings (F : Type) where
  firstStep : F
  noResetRunLength : Nat
  resetExpandFactor : F
  maxIterations : Nat
  gradientTolerance : F
  threads : Nat
  seed : UInt64
  tuning : Tuning F
  deriving BEq

namespace Settings

variable {F : Type} [Scalar F]

def standard : Settings F where
  firstStep := 1
  noResetRunLength := 20
  resetExpandFactor := 1.5
  maxIterations := 1000
  gradientTolerance := Scalar.epsilon * ((30 : Nat) : F)
  threads := 1
  seed := 0x5eedc0de
  tuning := .standard

def withFirstStep (settings : Settings F) (firstStep : F) : Except Fault (Settings F) := do
  Precondition.firstStep.guard (0 < firstStep)
  pure { settings with firstStep }

def withNoResetRunLength (settings : Settings F) (length : Nat) : Except Fault (Settings F) := do
  Precondition.runLength.guard (0 < length)
  pure { settings with noResetRunLength := length }

def withResetExpandFactor (settings : Settings F) (factor : F) : Except Fault (Settings F) := do
  Precondition.expandFactor.guard (1 ≤ factor)
  pure { settings with resetExpandFactor := factor }

def withMaxIterations (settings : Settings F) (limit : Nat) : Except Fault (Settings F) := do
  Precondition.iterations.guard (0 < limit)
  pure { settings with maxIterations := limit }

def withGradientTolerance (settings : Settings F) (tolerance : F) :
    Except Fault (Settings F) := do
  Precondition.gradientTolerance.guard (0 ≤ tolerance)
  pure { settings with gradientTolerance := tolerance }

def withThreads (settings : Settings F) (threads : Nat) : Except Fault (Settings F) := do
  Precondition.threads.guard (0 < threads)
  pure { settings with threads }

def withSeed (settings : Settings F) (seed : UInt64) : Settings F :=
  { settings with seed }

def withTuning (settings : Settings F) (tuning : Tuning F) : Except Fault (Settings F) := do
  tuning.check
  pure { settings with tuning }

end Settings

end Descent

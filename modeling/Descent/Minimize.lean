import Descent.Event
import Descent.State

/-!
Minimization by conjugate gradients. Each iteration probes the line once. If a cubic through the
start of the line and the probe can be trusted, its minimum becomes the next iterate without
being evaluated; otherwise a careful search brackets a minimum. The answer is always the best
point that was evaluated.

Everything outside the arithmetic goes through a `Caller` in a monad of the caller's choice: the
objective, the predicate that may stop the run, the token that may be set at any time, and the
events to report. The objective answers the whole gradient with every value.
-/

namespace Descent

open Scalar

/-- What a minimization asks of its caller. -/
structure Caller (m : Type → Type) (F : Type) (n : Nat) where
  evaluate : Vector F n → m (F × Vector F n)
  /-- Asked with the iterate, the best value and the number of finished iterations. -/
  shouldStop : Vector F n → F → Nat → m Bool
  isCancelled : m Bool
  cancel : m Unit
  note : Event F → m Unit

inductive Status where
  | success
  | suboptimal
  | unbounded
  deriving DecidableEq

def Status.label : Status → String
  | success => "Success"
  | suboptimal => "Suboptimal"
  | unbounded => "Unbounded"

inductive Termination where
  | converged
  | zeroDirection
  | stagnated
  | cancelled
  | terminated
  | maxIterations
  | notFinite
  deriving DecidableEq

def Termination.status : Termination → Status
  | converged | zeroDirection | stagnated => .success
  | cancelled | terminated | maxIterations => .suboptimal
  | notFinite => .unbounded

def Termination.label : Termination → String
  | converged => "Converged"
  | zeroDirection => "ZeroDirection"
  | stagnated => "Stagnated"
  | cancelled => "Cancelled"
  | terminated => "Terminated"
  | maxIterations => "MaxIterations"
  | notFinite => "NotFinite"

structure Report (F : Type) where
  status : Status
  termination : Termination
  value : F
  gradientNorm : F
  iterations : Nat
  evaluations : Nat

def Report.isSuccess {F : Type} (report : Report F) : Bool := report.status = .success

/-- The evaluations and the samples of a line, as far as it was probed. -/
structure Trail (F : Type) (n : Nat) where
  tally : Tally F n
  line : Record F n

namespace Minimization

variable {m : Type → Type} [Monad m] {F : Type} [Unbounded F] {n : Nat}
variable (kernels : Kernels F n) (settings : Settings F) (caller : Caller m F n)

def evaluateIterate (state : State F n) : m (State F n) := do
  let (value, gradient) ← caller.evaluate state.x
  pure
    { state with
      value
      gradient
      real := true
      tally := state.tally.add state.x value gradient }

def probe (state : State F n) (step : F) (trail : Trail F n) :
    m (Marked F n × Trail F n) := do
  let point := kernels.update (.addScaled state.direction step) state.x
  let (value, gradient) ← caller.evaluate point
  let sample := Sample.make step value (kernels.dot gradient state.direction)
  pure
    (⟨sample, gradient⟩,
      { tally := trail.tally.add point value gradient
        line := trail.line.add sample gradient })

/-- The slope along the direction, after a restart if the direction does not descend. -/
def downhill (iteration : Nat) (state : State F n) : m (Option F × State F n) := do
  let slope := state.slope kernels
  if slope < 0 then pure (some slope, state)
  else
    caller.note (.notDownhill iteration)
    let state := state.restart kernels
    pure (state.steepestSlope?, state)

def move (iteration : Nat) (state : State F n) (line : Record F n) (move : State.Move F n) :
    m (State F n) := do
  let turn := state.advance kernels settings line move
  match turn.restarted with
  | some scheduled => caller.note (.restarting iteration scheduled)
  | none => pure ()
  pure turn.state

def backOut (state : State F n) : State F n :=
  let best := state.tally.best
  { state with x := best.point, gradient := best.gradient, value := best.value }.restart kernels

/-- Make the iterate real and decide whether the probe can be kept. A fitted iterate that turns
out worse than what was known before is given up. -/
def settle (iteration : Nat) (state : State F n) (probe : Marked F n) (bestBefore : F) :
    m (Bool × State F n) := do
  if state.real then
    caller.note (.fastRejected iteration probe.sample.value)
    pure (true, state)
  else
    let state ← evaluateIterate caller state
    if state.value ≤ bestBefore then
      caller.note (.redoing iteration)
      pure (true, state)
    else
      caller.note (.backingOut iteration state.value state.tally.best.value)
      pure (false, backOut kernels state)

/-- The slope to search along. The probe is given up with the direction. -/
def searchSlope (iteration : Nat) (state : State F n) (keepProbe : Bool) :
    m (Bool × Option F × State F n) := do
  let slope := state.slope kernels
  if keepProbe ∧ slope < 0 then pure (true, some slope, state)
  else
    let (slope?, state) ← downhill kernels caller iteration state
    pure (false, slope?, state)

def searchLine [MonadExceptOf Fault m] (iteration : Nat) (state : State F n) (slope : F)
    (kept : Option (Marked F n)) (step : F) : m (State F n) := do
  let tuning := settings.tuning
  let start := Sample.make 0 state.value slope
  let fresh := Record.create start state.gradient
  let opened ← MonadExcept.ofExcept (Bracket.create start)
  let (line, bracket) := match kept with
    | some probe =>
        (fresh.add probe.sample probe.gradient, opened.merge tuning probe.sample false)
    | none => (fresh, opened)
  let probing step (trail : Trail F n) := do
    let (marked, trail) ← probe kernels caller state step trail
    pure (marked.sample, trail)
  let (found, trail) ← search tuning probing step bracket { tally := state.tally, line }
  let state := { state with tally := trail.tally }
  let best := trail.line.best
  if best.sample.isBetterThan start then
    move kernels settings caller iteration state trail.line
      { step := best.sample.step
        value := best.sample.value
        gradient := best.gradient
        real := true }
  else
    caller.note (.noProgress iteration found.exit found.probes)
    let state := { state with step := step / tuning.maxStepGrowth }.restart kernels
    pure (state.noteProgress settings)

def careful [MonadExceptOf Fault m] (iteration : Nat) (state : State F n) (probe : Marked F n)
    (step bestBefore : F) : m (State F n) := do
  let (keepProbe, state) ← settle kernels caller iteration state probe bestBefore
  let (keepProbe, slope?, state) ← searchSlope kernels caller iteration state keepProbe
  match slope? with
  | none => pure state.withoutDirection
  | some slope =>
      searchLine kernels settings caller iteration state slope
        (if keepProbe then some probe else none) step

def iterate [MonadExceptOf Fault m] (iteration : Nat) (state : State F n) : m (State F n) := do
  let (slope?, state) ← downhill kernels caller iteration state
  match slope? with
  | none => pure state.withoutDirection
  | some slope =>
      let (step, state) := state.probeStep settings
      let bestBefore := state.tally.best.value
      let start := Sample.make 0 state.value slope
      let (probed, trail) ← probe kernels caller state step
        { tally := state.tally, line := .create start state.gradient }
      let state := { state with tally := trail.tally }
      let fit? :=
        if probed.sample.value ≤ state.recentThreshold then
          state.trustedFit? kernels settings start probed.sample probed.gradient
        else none
      match fit? with
      | some fit =>
          move kernels settings caller iteration state trail.line
            { step := fit.step
              value := fit.value
              gradient :=
                state.interpolatedGradient kernels probed.sample probed.gradient fit.step
              real := false }
      | none => careful kernels settings caller iteration state probed step bestBefore

def toleranceSquared (state : State F n) : F :=
  let tolerance := settings.gradientTolerance * maxNum 1 state.initialGradientNorm
  tolerance * tolerance

/-- An interpolated gradient only suggests convergence, so the iterate is evaluated then. -/
def confirm (state : State F n) : m (State F n) :=
  if ¬ state.real ∧ kernels.normSquared state.gradient ≤ toleranceSquared settings state then
    evaluateIterate caller state
  else pure state

/-- The first reason to stop that the state alone gives, the cap on iterations aside. -/
def verdict? (state : State F n) : Option Termination :=
  if state.real ∧ state.value ≤ state.tally.best.value ∧
      kernels.normSquared state.gradient ≤ toleranceSquared settings state then some .converged
  else if isZero state.directionNormSquared then some .zeroDirection
  else if settings.tuning.stagnationWindow < state.sinceImprovement then some .stagnated
  else none

/-- Whether to stop before the next iteration. The token comes first and the predicate second;
a predicate that fires sets the token. -/
def check (done : Nat) (state : State F n) : m (Option Termination × State F n) := do
  let cancelled ← caller.isCancelled
  if cancelled then pure (some .cancelled, state)
  else
    let stop ← caller.shouldStop state.x state.tally.best.value done
    if stop then
      caller.cancel
      pure (some .terminated, state)
    else if state.tally.best.value == -Unbounded.infinity then pure (some .notFinite, state)
    else
      let state ← confirm kernels settings caller state
      pure (verdict? kernels settings state, state)

structure Ended (F : Type) (n : Nat) where
  state : State F n
  termination : Termination
  iterations : Nat

def run [MonadExceptOf Fault m] (done : Nat) (state : State F n) : m (Ended F n) := do
  let (termination?, state) ← check kernels settings caller done state
  match termination? with
  | some termination => pure { state, termination, iterations := done }
  | none =>
      if done < settings.maxIterations then
        let iteration := done + 1
        let state ← iterate kernels settings caller iteration state
        caller.note (.iterated iteration state.value state.tally.best.value state.step)
        run iteration state
      else
        caller.cancel
        pure { state, termination := .maxIterations, iterations := done }
termination_by settings.maxIterations - done

/-- Evaluate the start. The window of recent best values is laid out afterwards. -/
def start [MonadExceptOf Fault m] (x : Vector F n) : m (State F n) := do
  let (value, gradient) ← caller.evaluate x
  let tally := (Tally.create x).add x value gradient
  MonadExcept.ofExcept
    (reserve (settings.tuning.stagnationWindow + 1) (Unbounded.bytes F))
  pure (State.create kernels settings x value gradient tally)

def conclude (ended : Ended F n) : m (Vector F n × Report F) := do
  let state ← if ended.state.real then pure ended.state else evaluateIterate caller ended.state
  let best := state.tally.best
  let termination ←
    if isFinite best.value then pure ended.termination
    else do
      caller.note (.unbounded ended.iterations best.value)
      pure .notFinite
  pure
    (best.point,
      { status := termination.status
        termination
        value := best.value
        gradientNorm := sqrt (kernels.normSquared best.gradient)
        iterations := ended.iterations
        evaluations := state.tally.evaluations })

end Minimization

def minimize {m : Type → Type} [Monad m] [MonadExceptOf Fault m] {F : Type} [Unbounded F]
    {n : Nat} (settings : Settings F) (runner : Runner) (caller : Caller m F n)
    (x : Vector F n) : m (Vector F n × Report F) := do
  discard (MonadExcept.ofExcept (Context.create settings.threads n))
  let kernels := Kernels.shared F n settings.threads runner
  let state ← Minimization.start kernels settings caller x
  let ended ← Minimization.run kernels settings caller 0 state
  Minimization.conclude kernels caller ended

end Descent

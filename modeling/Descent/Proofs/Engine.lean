import Descent.Proofs.Iteration

/-!
A minimization over its parts. Some parts count something, and there is more than one way to do
that; what is done with them, and in which order, is written down here once. An iteration looks for
a way down and probes the line, plans what to do with the probe, finds the place to land on, and
goes there. Each of these stages says what it hands to the next one.
-/

namespace Descent

open Scalar

namespace Minimization

/-- A line that was probed once. The state is at its start, with the probe counted. -/
structure Probed (F : Type) (n : Nat) where
  state : State F n
  slope : F
  step : F
  probe : Marked F n
  line : Record F n
  bestBefore : F

inductive Outlook (F : Type) (n : Nat) where
  | level (state : State F n)
  | probed (view : Probed F n)

inductive Plan (F : Type) (n : Nat) where
  | rest (state : State F n)
  | leap (view : Probed F n) (fit : State.Fit F)
  | explore (state : State F n) (slope : F) (kept : Option (Marked F n)) (step : F)

inductive Landing (F : Type) (n : Nat) where
  | stays (left : State F n)
  | moves (state : State F n) (line : Record F n) (target : State.Move F n)

section States

variable {F : Type} {n : Nat}

/-! The state that a stage hands on. -/

def Outlook.state : Outlook F n → State F n
  | .level state => state
  | .probed view => view.state

def Plan.state : Plan F n → State F n
  | .rest state => state
  | .leap view _ => view.state
  | .explore state _ _ _ => state

def Landing.state : Landing F n → State F n
  | .stays left => left
  | .moves state _ _ => state

end States

variable {m : Type → Type} [Monad m] {F : Type} [Unbounded F] {n : Nat}

def Probed.leap (kernels : Kernels F n) (view : Probed F n) (fit : State.Fit F) :
    State.Move F n where
  step := fit.step
  value := fit.value
  gradient :=
    view.state.interpolatedGradient kernels view.probe.sample view.probe.gradient fit.step
  real := false

def Trail.move (trail : Trail F n) : State.Move F n where
  step := trail.line.best.sample.step
  value := trail.line.best.sample.value
  gradient := trail.line.best.gradient
  real := true

/-- Does the parts of a minimization that count. -/
structure Engine (m : Type → Type) (F : Type) (n : Nat) where
  kernels : Kernels F n
  settings : Settings F
  caller : Caller m F n
  evaluateIterate : State F n → m (State F n)
  probe : State F n → F → Trail F n → m (Marked F n × Trail F n)
  opening : Bracket F → Record F n → Option (Marked F n) → m (Record F n × Bracket F)
  search : State F n → F → Bracket F → Trail F n → m (Found F × Trail F n)
  move : Nat → State F n → Record F n → State.Move F n → m (State F n)
  noteProgress : State F n → m (State F n)
  /-- Told how many iterations are behind when the next one begins. -/
  goOn : Nat → m Unit

namespace Engine

/-- Counts as a minimization does. -/
def plain (kernels : Kernels F n) (settings : Settings F) (caller : Caller m F n) :
    Engine m F n where
  kernels
  settings
  caller
  evaluateIterate := Minimization.evaluateIterate caller
  probe := Minimization.probe kernels caller
  opening opened line kept := pure (Minimization.opening settings.tuning opened line kept)
  search state := Descent.search settings.tuning (probing kernels caller state)
  move := Minimization.move kernels settings caller
  noteProgress state := pure (state.noteProgress settings)
  goOn _ := pure ()

section Programs

variable (engine : Engine m F n) (iteration : Nat)

def look (state : State F n) : m (Outlook F n) := do
  let (slope?, state) ← downhill engine.kernels engine.caller iteration state
  match slope? with
  | none => pure (.level state)
  | some slope =>
      let (step, state) := state.probeStep engine.settings
      let (probe, trail) ← engine.probe state step
        { tally := state.tally, line := .create (.make 0 state.value slope) state.gradient }
      pure (.probed
        { state := { state with tally := trail.tally }
          slope
          step
          probe
          line := trail.line
          bestBefore := state.tally.best.value })

def settle (state : State F n) (probe : Marked F n) (bestBefore : F) : m (Bool × State F n) := do
  if state.real then
    engine.caller.note (.fastRejected iteration probe.sample.value)
    pure (true, state)
  else
    let state ← engine.evaluateIterate state
    if state.value ≤ bestBefore then
      engine.caller.note (.redoing iteration)
      pure (true, state)
    else
      engine.caller.note (.backingOut iteration state.value state.tally.best.value)
      pure (false, backOut engine.kernels state)

def reconsider (view : Probed F n) : m (Plan F n) := do
  let (keep, state) ← engine.settle iteration view.state view.probe view.bestBefore
  let (kept, slope?, state) ← searchSlope engine.kernels engine.caller iteration state keep
  match slope? with
  | none => pure (.rest state)
  | some slope => pure (.explore state slope (if kept then some view.probe else none) view.step)

def decide : Outlook F n → m (Plan F n)
  | .level state => pure (.rest state)
  | .probed view =>
      match fit? engine.kernels engine.settings view.state view.slope view.probe with
      | some fit => pure (.leap view fit)
      | none => engine.reconsider iteration view

def plan (state : State F n) : m (Plan F n) :=
  engine.look iteration state >>= engine.decide iteration

def land [MonadExceptOf Fault m] : Plan F n → m (Landing F n)
  | .rest state => pure (.stays state.withoutDirection)
  | .leap view fit => pure (.moves view.state view.line (view.leap engine.kernels fit))
  | .explore state slope kept step => do
      let start := Sample.make 0 state.value slope
      let opened ← MonadExcept.ofExcept (Bracket.create start)
      let (line, bracket) ← engine.opening opened (.create start state.gradient) kept
      let (found, trail) ← engine.search state step bracket { tally := state.tally, line }
      let state := { state with tally := trail.tally }
      if trail.line.best.sample.isBetterThan start then
        pure (.moves state trail.line (Trail.move trail))
      else
        engine.caller.note (.noProgress iteration found.exit found.probes)
        let worn := { state with step := step / engine.settings.tuning.maxStepGrowth }
        let left ← engine.noteProgress (worn.restart engine.kernels)
        pure (.stays left)

def stride [MonadExceptOf Fault m] (state : State F n) : m (Landing F n) :=
  engine.plan iteration state >>= engine.land iteration

def finish : Landing F n → m (State F n)
  | .stays left => pure left
  | .moves state line target => engine.move iteration state line target

def iterate [MonadExceptOf Fault m] (state : State F n) : m (State F n) :=
  engine.stride iteration state >>= engine.finish iteration

def confirm (state : State F n) : m (State F n) :=
  if ¬ state.real ∧
      engine.kernels.normSquared state.gradient ≤ toleranceSquared engine.settings state then
    engine.evaluateIterate state
  else pure state

def check (done : Nat) (state : State F n) : m (Option Termination × State F n) := do
  let cancelled ← engine.caller.isCancelled
  if cancelled then pure (some .cancelled, state)
  else
    let stop ← engine.caller.shouldStop state.x state.tally.best.value done
    if stop then
      engine.caller.cancel
      pure (some .terminated, state)
    else if state.tally.best.value == -Unbounded.infinity then pure (some .notFinite, state)
    else
      let state ← engine.confirm state
      pure (verdict? engine.kernels engine.settings state, state)

def run [MonadExceptOf Fault m] (done : Nat) (state : State F n) : m (Ended F n) := do
  let (termination?, state) ← engine.check done state
  match termination? with
  | some termination => pure { state, termination, iterations := done }
  | none =>
      if done < engine.settings.maxIterations then
        engine.goOn done
        let iteration := done + 1
        let state ← engine.iterate iteration state
        engine.caller.note (.iterated iteration state.value state.tally.best.value state.step)
        run iteration state
      else
        engine.caller.cancel
        pure { state, termination := .maxIterations, iterations := done }
termination_by engine.settings.maxIterations - done

def conclude (ended : Ended F n) : m (Vector F n × Report F) := do
  let state ← if ended.state.real then pure ended.state else engine.evaluateIterate ended.state
  let best := state.tally.best
  let termination ←
    if isFinite best.value then pure ended.termination
    else do
      engine.caller.note (.unbounded ended.iterations best.value)
      pure .notFinite
  pure
    (best.point,
      { status := termination.status
        termination
        value := best.value
        gradientNorm := sqrt (engine.kernels.normSquared best.gradient)
        iterations := ended.iterations
        evaluations := state.tally.evaluations })

end Programs

/-! The plain engine. -/

section Plain

variable (kernels : Kernels F n) (settings : Settings F) (caller : Caller m F n) (iteration : Nat)

theorem plain_settle (state : State F n) (probe : Marked F n) (bestBefore : F) :
    (plain kernels settings caller).settle iteration state probe bestBefore =
      Minimization.settle kernels caller iteration state probe bestBefore := rfl

theorem plain_check (done : Nat) (state : State F n) :
    (plain kernels settings caller).check done state =
      Minimization.check kernels settings caller done state := rfl

theorem plain_conclude (ended : Ended F n) :
    (plain kernels settings caller).conclude ended = Minimization.conclude kernels caller ended :=
  rfl

variable [MonadExceptOf Fault m] [LawfulMonad m]

theorem plain_explore (state : State F n) (slope : F) (kept : Option (Marked F n)) (step : F) :
    ((plain kernels settings caller).land iteration (.explore state slope kept step) >>=
        (plain kernels settings caller).finish iteration) =
      searchLine kernels settings caller iteration state slope kept step := by
  -- the two ways to open the search differ in their data only
  cases kept
  all_goals
    simp only [land, plain, searchLine, bind_assoc, pure_bind]
    congr 1
    funext opened
    refine congrArg (_ >>= ·) ?_
    funext searched
    split
    · simp only [pure_bind, finish, Trail.move]
    · simp only [bind_assoc, pure_bind, finish]

theorem plain_reconsider (view : Probed F n) :
    ((plain kernels settings caller).reconsider iteration view >>= fun planned =>
        (plain kernels settings caller).land iteration planned >>=
          (plain kernels settings caller).finish iteration) =
      careful kernels settings caller iteration view.state view.probe view.step
        view.bestBefore := by
  simp only [reconsider, careful, bind_assoc]
  refine bind_congr fun settled => bind_congr fun turned => ?_
  obtain ⟨kept, slope?, turned⟩ := turned
  cases slope? with
  | none => simp only [pure_bind, land, finish]
  | some slope => simp only [pure_bind, plain_explore]

theorem plain_decide (view : Probed F n) :
    ((plain kernels settings caller).decide iteration (.probed view) >>= fun planned =>
        (plain kernels settings caller).land iteration planned >>=
          (plain kernels settings caller).finish iteration) =
      match fit? kernels settings view.state view.slope view.probe with
      | some fit =>
          Minimization.move kernels settings caller iteration view.state view.line
            (view.leap kernels fit)
      | none =>
          careful kernels settings caller iteration view.state view.probe view.step
            view.bestBefore := by
  rw [decide]
  change (match fit? kernels settings view.state view.slope view.probe with
    | some fit => pure (Plan.leap view fit)
    | none => (plain kernels settings caller).reconsider iteration view) >>= _ = _
  cases fit? kernels settings view.state view.slope view.probe with
  | some fit => exact (pure_bind _ _).trans (pure_bind _ _)
  | none => exact plain_reconsider kernels settings caller iteration view

/-- An iteration is its stages one after the other. -/
theorem plain_iterate (state : State F n) :
    (plain kernels settings caller).iterate iteration state =
      Minimization.iterate kernels settings caller iteration state := by
  simp only [iterate, stride, plan, look, Minimization.iterate, bind_assoc]
  refine bind_congr fun turned => ?_
  obtain ⟨slope?, turned⟩ := turned
  cases slope? with
  | none => simp only [pure_bind, decide, land, finish]
  | some slope =>
    simp only [bind_assoc, pure_bind]
    exact bind_congr fun probed => plain_decide kernels settings caller iteration _

theorem plain_run (done : Nat) (state : State F n) :
    (plain kernels settings caller).run done state =
      Minimization.run kernels settings caller done state := by
  rw [run, Minimization.run, plain_check]
  refine bind_congr fun checked => ?_
  obtain ⟨termination?, checked⟩ := checked
  cases termination? with
  | some termination => rfl
  | none =>
    refine ite_congr rfl (fun goesOn => ?_) fun _ => rfl
    simp only [plain_iterate]
    refine (pure_bind _ _).trans (bind_congr fun next => bind_congr fun _ => ?_)
    exact plain_run (done + 1) next
termination_by settings.maxIterations - done

end Plain

end Engine

end Minimization

end Descent

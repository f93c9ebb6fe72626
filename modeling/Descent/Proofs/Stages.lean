import Descent.Proofs.Engine
import Descent.Proofs.Run

/-!
What each stage of an iteration can do. A statement about a part of the iteration can name what that
part was given, and an iteration is its stages one after the other.
-/

namespace Descent

open Scalar Execution

namespace Minimization

section Program

variable {m : Type → Type} [Monad m] {F : Type} [Unbounded F] {n : Nat}
variable (kernels : Kernels F n) (settings : Settings F) (caller : Caller m F n) (iteration : Nat)

def look (state : State F n) : m (Outlook F n) :=
  (Engine.plain kernels settings caller).look iteration state

def plan (state : State F n) : m (Plan F n) :=
  (Engine.plain kernels settings caller).plan iteration state

variable [MonadExceptOf Fault m]

def Plan.land (planned : Plan F n) : m (Landing F n) :=
  (Engine.plain kernels settings caller).land iteration planned

def stride (state : State F n) : m (Landing F n) :=
  (Engine.plain kernels settings caller).stride iteration state

def Landing.finish (landing : Landing F n) : m (State F n) :=
  (Engine.plain kernels settings caller).finish iteration landing

theorem iterate_eq_stride [LawfulMonad m] (state : State F n) :
    iterate kernels settings caller iteration state =
      stride kernels settings caller iteration state >>=
        Landing.finish kernels settings caller iteration :=
  (Engine.plain_iterate kernels settings caller iteration state).symm

end Program

section Inversion

variable {m : Type → Type} [Monad m] [MonadExceptOf Fault m] {World : Type} [Execution m World]
variable {F : Type} [Unbounded F] {n : Nat}
variable {kernels : Kernels F n} {settings : Settings F} {caller : Caller m F n}
variable {before after : World} {iteration : Nat} {state left resting : State F n}
variable {view : Probed F n} {planned : Plan F n} {landing : Landing F n}

theorem look_level
    (looks : Returns (look kernels settings caller iteration state) before (.level left) after) :
    Returns (downhill kernels caller iteration state) before (none, left) after := by
  obtain ⟨⟨slope?, turned⟩, middle, turns, rest⟩ := returns_bind.mp looks
  cases slope? with
  | none =>
    obtain ⟨same, rfl⟩ := returns_pure.mp rest
    obtain rfl := Outlook.level.inj same
    exact turns
  | some slope =>
    obtain ⟨_, _, _, last⟩ := returns_bind.mp rest
    exact nomatch (returns_pure.mp last).1

theorem look_probed
    (looks : Returns (look kernels settings caller iteration state) before (.probed view)
      after) :
    ∃ turned middle jitter trail,
      Returns (downhill kernels caller iteration state) before (some view.slope, turned) middle ∧
      view.step = (turned.probeStep settings).1 ∧
      Returns
        (probe kernels caller { turned with jitter } view.step
          { tally := turned.tally
            line := .create (.make 0 turned.value view.slope) turned.gradient })
        middle (view.probe, trail) after ∧
      view.state = { turned with jitter, tally := trail.tally } ∧
      view.line = trail.line ∧ view.bestBefore = turned.tally.best.value := by
  obtain ⟨⟨slope?, turned⟩, middle, turns, rest⟩ := returns_bind.mp looks
  cases slope? with
  | none => exact nomatch (returns_pure.mp rest).1
  | some slope =>
    obtain ⟨jitter, stepping⟩ := turned.probeStep_eq settings
    simp only [Engine.plain, stepping] at rest
    obtain ⟨⟨marked, trail⟩, next, probes, last⟩ := returns_bind.mp rest
    obtain ⟨same, rfl⟩ := returns_pure.mp last
    obtain rfl := Outlook.probed.inj same
    exact ⟨turned, middle, jitter, trail, turns, rfl, probes, rfl, rfl, rfl⟩

theorem reconsider_returns
    (ran : Returns ((Engine.plain kernels settings caller).reconsider iteration view) before planned
      after) :
    ∃ keep settled middle, ∃ kept : Bool, ∃ (slope? : Option F) (turned : State F n),
      Returns (settle kernels caller iteration view.state view.probe view.bestBefore) before
        (keep, settled) middle ∧
      Returns (searchSlope kernels caller iteration settled keep) middle (kept, slope?, turned)
        after ∧
      planned = slope?.elim (.rest turned) fun slope =>
        .explore turned slope (if kept then some view.probe else none) view.step := by
  obtain ⟨⟨keep, settled⟩, middle, settles, rest⟩ := returns_bind.mp ran
  obtain ⟨⟨kept, slope?, turned⟩, next, turns, last⟩ := returns_bind.mp rest
  have last : Returns (pure (slope?.elim (Plan.rest turned) fun slope =>
      .explore turned slope (if kept then some view.probe else none) view.step) : m (Plan F n))
      next planned after := by
    cases slope? <;> exact last
  obtain ⟨same, rfl⟩ := returns_pure.mp last
  exact ⟨keep, settled, middle, kept, slope?, turned, settles, turns, same⟩

theorem plan_returns
    (ran : Returns (plan kernels settings caller iteration state) before planned after) :
    (∃ turned, planned = .rest turned ∧
      Returns (look kernels settings caller iteration state) before (.level turned) after) ∨
    ∃ view middle,
      Returns (look kernels settings caller iteration state) before (.probed view) middle ∧
      ((∃ fit, planned = .leap view fit ∧ after = middle ∧
          fit? kernels settings view.state view.slope view.probe = some fit) ∨
        Returns ((Engine.plain kernels settings caller).reconsider iteration view) middle planned
          after) := by
  obtain ⟨outlook, middle, looks, rest⟩ := returns_bind.mp ran
  cases outlook with
  | level turned =>
    obtain ⟨rfl, rfl⟩ := returns_pure.mp rest
    exact .inl ⟨turned, rfl, looks⟩
  | probed view =>
    refine .inr ⟨view, middle, looks, ?_⟩
    rw [Engine.decide] at rest
    split at rest
    · next fit found =>
      obtain ⟨rfl, rfl⟩ := returns_pure.mp rest
      exact .inl ⟨fit, rfl, rfl, found⟩
    · exact .inr rest

theorem plan_leap {fit : State.Fit F}
    (ran : Returns (plan kernels settings caller iteration state) before (.leap view fit) after) :
    Returns (look kernels settings caller iteration state) before (.probed view) after ∧
      fit? kernels settings view.state view.slope view.probe = some fit := by
  rcases plan_returns ran with ⟨_, impossible, _⟩ | ⟨seen, middle, looks, leaps | reconsiders⟩
  · exact nomatch impossible
  · obtain ⟨fit, same, rfl, found⟩ := leaps
    obtain ⟨rfl, rfl⟩ := Plan.leap.inj same
    exact ⟨looks, found⟩
  · obtain ⟨_, _, _, _, slope?, _, _, _, same⟩ := reconsider_returns reconsiders
    cases slope? <;> exact nomatch same

theorem plan_explore {slope step : F} {kept : Option (Marked F n)}
    (ran : Returns (plan kernels settings caller iteration state) before
      (.explore left slope kept step) after) :
    ∃ view seen keep settled entered kept',
      Returns (look kernels settings caller iteration state) before (.probed view) seen ∧
      Returns (settle kernels caller iteration view.state view.probe view.bestBefore) seen
        (keep, settled) entered ∧
      Returns (searchSlope kernels caller iteration settled keep) entered (kept', some slope, left)
        after ∧
      kept = (if kept' = true then some view.probe else none) ∧ step = view.step := by
  rcases plan_returns ran with ⟨_, impossible, _⟩ | ⟨view, seen, looks, leaps | reconsiders⟩
  · exact nomatch impossible
  · obtain ⟨_, impossible, _⟩ := leaps
    exact nomatch impossible
  · obtain ⟨keep, settled, entered, kept', slope?, turned, settles, turns, same⟩ :=
      reconsider_returns reconsiders
    cases slope? with
    | none => exact nomatch same
    | some found =>
      obtain ⟨rfl, rfl, known, place⟩ := Plan.explore.inj same
      exact ⟨view, seen, keep, settled, entered, kept', looks, settles, turns, known, place⟩

/-- A search ends at its best sample, or gives up if that is its start. -/
theorem land_explore {slope step : F} {kept : Option (Marked F n)}
    (ran : Returns
      (Plan.land kernels settings caller iteration (.explore state slope kept step)) before landing
      after) :
    ∃ opened found trail middle,
      Bracket.create (.make 0 state.value slope) = .ok opened ∧
      Returns
        (search settings.tuning (probing kernels caller state) step
          (opening settings.tuning opened
            (.create (.make 0 state.value slope) state.gradient) kept).2
          { tally := state.tally
            line := (opening settings.tuning opened
              (.create (.make 0 state.value slope) state.gradient) kept).1 })
        before (found, trail) middle ∧
      ((trail.line.best.sample.isBetterThan (.make 0 state.value slope) = true ∧
          landing = .moves { state with tally := trail.tally } trail.line (Trail.move trail) ∧
          after = middle) ∨
        (Returns (caller.note (.noProgress iteration found.exit found.probes)) middle () after ∧
          landing = .stays ((State.restart kernels
            { state with
              tally := trail.tally
              step := step / settings.tuning.maxStepGrowth }).noteProgress settings))) := by
  obtain ⟨opened, _, first, rest⟩ := returns_bind.mp ran
  obtain ⟨opens, rfl⟩ := returns_ofExcept.mp first
  obtain ⟨_, _, begins, searches⟩ := returns_bind.mp rest
  obtain ⟨rfl, rfl⟩ := returns_pure.mp begins
  obtain ⟨⟨found, trail⟩, middle, searched, ends⟩ := returns_bind.mp searches
  refine ⟨opened, found, trail, middle, opens, searched, ?_⟩
  dsimp only at ends
  split at ends
  · next better =>
    obtain ⟨same, rfl⟩ := returns_pure.mp ends
    exact .inl ⟨better, same, rfl⟩
  · obtain ⟨_, _, notes, counts⟩ := returns_bind.mp ends
    obtain ⟨_, _, counted, last⟩ := returns_bind.mp counts
    obtain ⟨rfl, rfl⟩ := returns_pure.mp counted
    obtain ⟨same, rfl⟩ := returns_pure.mp last
    exact .inr ⟨notes, same⟩

theorem stride_moves {line : Record F n} {target : State.Move F n}
    (ran : Returns (stride kernels settings caller iteration state) before
      (.moves left line target) after) :
    (∃ view fit,
      Returns (plan kernels settings caller iteration state) before (.leap view fit) after ∧
      left = view.state ∧ line = view.line ∧ target = view.leap kernels fit) ∨
    ∃ start slope kept step middle,
      Returns (plan kernels settings caller iteration state) before
        (.explore start slope kept step) middle ∧
      Returns (Plan.land kernels settings caller iteration (.explore start slope kept step)) middle
        (.moves left line target) after := by
  obtain ⟨planned, middle, plans, lands⟩ := returns_bind.mp ran
  cases planned with
  | rest resting => exact nomatch (returns_pure.mp lands).1
  | leap view fit =>
    obtain ⟨same, rfl⟩ := returns_pure.mp lands
    obtain ⟨rfl, rfl, rfl⟩ := Landing.moves.inj same
    exact .inl ⟨view, fit, plans, rfl, rfl, rfl⟩
  | explore start slope kept step => exact .inr ⟨start, slope, kept, step, middle, plans, lands⟩

variable [LawfulMonad m]

theorem iterate_plans
    (iterates : Returns (iterate kernels settings caller iteration state) before left after) :
    ∃ planned middle,
      Returns (plan kernels settings caller iteration state) before planned middle := by
  rw [iterate_eq_stride] at iterates
  obtain ⟨_, _, strides, _⟩ := returns_bind.mp iterates
  obtain ⟨planned, middle, plans, _⟩ := returns_bind.mp strides
  exact ⟨planned, middle, plans⟩

theorem iterate_planned {middle : World}
    (plans : Returns (plan kernels settings caller iteration state) before planned middle)
    (iterates : Returns (iterate kernels settings caller iteration state) before left after) :
    ∃ landing next,
      Returns (planned.land kernels settings caller iteration) middle landing next ∧
      Returns (landing.finish kernels settings caller iteration) next left after := by
  rw [iterate_eq_stride] at iterates
  obtain ⟨landing, next, strides, finishes⟩ := returns_bind.mp iterates
  obtain ⟨planned', middle', plans', lands⟩ := returns_bind.mp strides
  obtain ⟨rfl, rfl⟩ := returns_unique plans plans'
  exact ⟨landing, next, lands, finishes⟩

theorem iterate_of_stages {first second : World}
    (plans : Returns (plan kernels settings caller iteration state) before planned first)
    (lands : Returns (planned.land kernels settings caller iteration) first landing second)
    (finishes : Returns (landing.finish kernels settings caller iteration) second left after) :
    Returns (iterate kernels settings caller iteration state) before left after := by
  rw [iterate_eq_stride]
  exact returns_bind.mpr
    ⟨landing, second, returns_bind.mpr ⟨planned, first, plans, lands⟩, finishes⟩

theorem iterate_moves {line : Record F n} {target : State.Move F n} {moved : State F n}
    {middle : World}
    (strides : Returns (stride kernels settings caller iteration state) before
      (.moves moved line target) middle)
    (iterates : Returns (iterate kernels settings caller iteration state) before left after) :
    left = (moved.advance kernels settings line target).state := by
  rw [iterate_eq_stride] at iterates
  obtain ⟨landing, next, strides', finishes⟩ := returns_bind.mp iterates
  obtain ⟨rfl, rfl⟩ := returns_unique strides strides'
  exact (move_returns finishes).1

theorem iterate_explores {start : State F n} {slope step : F} {kept : Option (Marked F n)}
    {middle : World}
    (plans : Returns (plan kernels settings caller iteration state) before
      (.explore start slope kept step) middle)
    (iterates : Returns (iterate kernels settings caller iteration state) before left after) :
    Returns (searchLine kernels settings caller iteration start slope kept step) middle left
      after := by
  obtain ⟨landing, next, lands, finishes⟩ := iterate_planned plans iterates
  rw [← Engine.plain_explore]
  exact returns_bind.mpr ⟨landing, next, lands, finishes⟩

theorem iterate_leaps {fit : State.Fit F} {middle : World}
    (plans : Returns (plan kernels settings caller iteration state) before (.leap view fit) middle)
    (iterates : Returns (iterate kernels settings caller iteration state) before left after) :
    left = (view.state.advance kernels settings view.line (view.leap kernels fit)).state := by
  obtain ⟨landing, next, lands, finishes⟩ := iterate_planned plans iterates
  obtain ⟨rfl, rfl⟩ := returns_pure.mp lands
  exact (move_returns finishes).1

theorem iterate_rest {middle : World}
    (plans : Returns (plan kernels settings caller iteration state) before (.rest resting) middle)
    (iterates : Returns (iterate kernels settings caller iteration state) before left after) :
    left = resting.withoutDirection := by
  obtain ⟨landing, next, lands, finishes⟩ := iterate_planned plans iterates
  obtain ⟨rfl, rfl⟩ := returns_pure.mp lands
  exact (returns_pure.mp finishes).1

/-- An iteration rests without a direction, restarts where it is, or moves along a line. -/
theorem iterate_left
    (iterates : Returns (iterate kernels settings caller iteration state) before left after) :
    (∃ resting middle,
      Returns (plan kernels settings caller iteration state) before (.rest resting) middle ∧
      left = resting.withoutDirection) ∨
    (∃ worn : State F n, left = (worn.restart kernels).noteProgress settings) ∨
    ∃ moved line target, left = (State.advance kernels settings moved line target).state := by
  obtain ⟨planned, middle, plans⟩ := iterate_plans iterates
  cases planned with
  | rest resting => exact .inl ⟨resting, middle, plans, iterate_rest plans iterates⟩
  | leap view fit => exact .inr (.inr ⟨_, _, _, iterate_leaps plans iterates⟩)
  | explore start slope kept step =>
    obtain ⟨_, _, _, _, _, _, ⟨_, moves⟩ | ⟨_, _, same⟩⟩ :=
      searchLine_returns (iterate_explores plans iterates)
    · exact .inr (.inr ⟨_, _, _, (move_returns moves).1⟩)
    · exact .inr (.inl ⟨_, same⟩)

end Inversion

end Minimization

end Descent

import Descent.Proofs.Approach
import Descent.Proofs.Budget
import Descent.Proofs.Stages

/-!
Lines are only searched downhill. A probe or a search needs a slope below zero, which no undefined
number is, and a line is probed at a step above zero. Where there is no way down even after a
restart, the iteration leaves a state without direction, and the next check ends the run.
-/

namespace Descent

open Scalar Execution

theorem State.probeStep_pos {F : Type} [Scalar F] {n : Nat} {settings : Settings F}
    (positive : 0 < settings.firstStep) (state : State F n) :
    0 < (state.probeStep settings).1 := by
  unfold probeStep
  dsimp only
  split
  all_goals
    split
    · next usable => exact usable.1
    · exact positive

namespace Minimization

variable {m : Type → Type} [Monad m] [MonadExceptOf Fault m] {World : Type} [Execution m World]
variable {F : Type} [Unbounded F] {n : Nat}
variable {kernels : Kernels F n} {settings : Settings F} {caller : Caller m F n}
variable {before after : World} {iteration done : Nat} {state left resting : State F n}

/-! Ways down. -/

section Slopes

variable [Opposing F]

theorem look_downhill (positive : 0 < settings.firstStep) {view : Probed F n}
    (looks : Returns (look kernels settings caller iteration state) before (.probed view)
      after) : view.slope < 0 ∧ 0 < view.step := by
  obtain ⟨turned, _, _, _, turns, chosen, _⟩ := look_probed looks
  rw [chosen]
  exact ⟨downhill_slope_neg turns, turned.probeStep_pos positive⟩

theorem plan_downhill {slope step : F} {kept : Option (Marked F n)}
    (plans : Returns (plan kernels settings caller iteration state) before
      (.explore left slope kept step) after) : slope < 0 := by
  obtain ⟨_, _, _, _, _, _, _, _, turns, _⟩ := plan_explore plans
  exact searchSlope_neg turns

end Slopes

/-! No way down. -/

section Rest

theorem downhill_none
    (turns : Returns (downhill kernels caller iteration state) before (none, left) after) :
    ¬ 0 < kernels.normSquared left.direction ∧ left.position = state.position := by
  refine ⟨?_, downhill_keeps turns⟩
  rcases downhill_returns turns with ⟨_, impossible, _⟩ | ⟨_, _, rfl, steepest⟩
  · cases impossible
  · intro length
    rw [State.steepestSlope?] at steepest
    cases steepest.trans (if_pos length)

theorem settle_place {probe : Marked F n} {bestBefore : F} {keep : Bool}
    (settles : Returns (settle kernels caller iteration state probe bestBefore) before
      (keep, left) after) :
    left.x = state.x ∨ left.x = left.tally.best.point := by
  rcases settle_returns settles with ⟨_, _, rfl, _⟩ | ⟨_, evaluated, _, evaluates, ends⟩
  · exact .inl rfl
  · obtain ⟨_, _, _, rfl⟩ := evaluateIterate_returns evaluates
    rcases ends with ⟨_, _, rfl, _⟩ | ⟨_, _, rfl, _⟩
    · exact .inl rfl
    · exact .inr rfl

theorem plan_rest
    (plans : Returns (plan kernels settings caller iteration state) before (.rest resting) after) :
    ¬ 0 < kernels.normSquared resting.direction ∧
      (resting.x = state.x ∨ resting.x = resting.tally.best.point) := by
  rcases plan_returns plans with
    ⟨turned, same, looks⟩ | ⟨view, _, looks, ⟨_, impossible, _⟩ | reconsiders⟩
  · obtain rfl := Plan.rest.inj same
    obtain ⟨level, position⟩ := downhill_none (look_level looks)
    exact ⟨level, .inl (congrArg Position.x position)⟩
  · exact nomatch impossible
  · obtain ⟨_, settled, _, _, slope?, turned, settles, turns, same⟩ :=
      reconsider_returns reconsiders
    cases slope? with
    | some slope => exact nomatch same
    | none =>
      obtain rfl := Plan.rest.inj same
      rcases searchSlope_returns turns with ⟨_, _, _, impossible, _⟩ | ⟨_, _, turns⟩
      · exact nomatch impossible
      obtain ⟨level, position⟩ := downhill_none turns
      obtain ⟨begun, _, jitter, _, goesDown, _, _, viewed, _⟩ := look_probed looks
      have origin : view.state.x = state.x := by
        rw [viewed]
        exact congrArg Position.x (downhill_keeps goesDown)
      have place : resting.x = settled.x := congrArg Position.x position
      have tally : resting.tally = settled.tally := congrArg Position.tally position
      rw [place, tally, ← origin]
      exact ⟨level, settle_place settles⟩

/-- A check stops a run that has no direction. -/
theorem check_undirected (undirected : isZero state.directionNormSquared = true)
    {termination? : Option Termination}
    (checks : Returns (check kernels settings caller done state) before (termination?, left)
      after) : termination? ≠ none := by
  rintro rfl
  refine directed_of_verdict? (check_none checks) ?_
  rcases check_left checks with rfl | ⟨_, _, evaluates⟩
  · exact undirected
  · obtain ⟨_, _, _, rfl⟩ := evaluateIterate_returns evaluates
    exact undirected

theorem runs_undirected (undirected : isZero state.directionNormSquared = true) {ended : Ended F n}
    (runs : Runs kernels settings caller done state before ended after) :
    ended.iterations = done := by
  rcases runs_cases runs with ⟨last, _⟩ | ⟨_, _, ⟨_, _, checks, _⟩, _⟩
  · exact last
  · exact absurd rfl (check_undirected undirected checks)

end Rest

/-- Whatever the objective answers, lines are probed at a step above zero along a slope below zero,
and a search is only opened along such a slope. An iteration that finds no way down keeps its
iterate or goes back to the best point; no check lets the run go on from there, so the run ends
with this iteration. -/
theorem minimize_descends [LawfulMonad m] [Lawful F] [Opposing F] [Forward F]
    (settings : Settings F) (accepted : settings.Accepted) (runner : Runner)
    (caller : Caller m F n) (x : Vector F n) (before : World) (done : Nat)
    (state checked : State F n) (reached asked : World)
    (visits : Visits settings runner caller x before done state reached)
    (checks : Returns
      (check (Kernels.shared F n settings.threads runner) settings caller done state) reached
      (none, checked) asked) :
    let kernels := Kernels.shared F n settings.threads runner
    (∀ view after,
      Returns (look kernels settings caller (done + 1) checked) asked (.probed view) after →
      view.slope < 0 ∧ 0 < view.step) ∧
    (∀ start slope kept step after,
      Returns (plan kernels settings caller (done + 1) checked) asked
        (.explore start slope kept step) after →
      slope < 0 ∧ ∃ opened, Bracket.create (.make 0 start.value slope) = .ok opened) ∧
    ∀ resting middle next after,
      Returns (plan kernels settings caller (done + 1) checked) asked (.rest resting) middle →
      Advances kernels settings caller done checked asked next after →
      ¬ 0 < kernels.normSquared resting.direction ∧
      (next.x = checked.x ∨ next.x = next.tally.best.point) ∧
      (∀ termination? left last,
        Returns (check kernels settings caller (done + 1) next) after (termination?, left) last →
        termination? ≠ none) ∧
      ∀ answer last, Returns (minimize settings runner caller x) before answer last →
        answer.2.iterations = done + 1 := by
  intro kernels
  refine ⟨fun view after looks => look_downhill accepted.firstStep_pos looks, ?_, ?_⟩
  · intro start slope kept step after plans
    have descends := plan_downhill plans
    exact ⟨descends, _, if_pos descends⟩
  · intro resting middle next after plans advances
    obtain ⟨_, _, iterates, _⟩ := id advances
    obtain ⟨level, place⟩ := plan_rest plans
    obtain rfl := iterate_rest plans iterates
    have undirected : isZero resting.withoutDirection.directionNormSquared = true :=
      Lawful.beq_iff.mpr ⟨Lawful.zero_defined, Lawful.zero_defined⟩
    refine ⟨level, place, fun _ _ _ => check_undirected undirected, fun answer last ran => ?_⟩
    have later : Visits settings runner caller x before (done + 1) resting.withoutDirection after :=
      visits_next visits ⟨checked, asked, checks, advances⟩
    obtain ⟨ended, _, runs, concludes⟩ := minimize_resumes ran later
    rw [(conclude_evaluations concludes).1]
    exact runs_undirected undirected runs

/-! A slope that is lost on the way. -/

section Lost

/-- A ramp that tells its slope at the start only. -/
def fading (x : Vector Float 1) : Float × Vector Float 1 :=
  let u := x.get ⟨0, Nat.zero_lt_one⟩
  (-u, #v[if 0 < u then 0 / 0 else -1])

def fadingCaller : Caller (Except Fault) Float 1 := .ofFunction fading

def fadingKernels : Kernels Float 1 := .shared Float 1 1 .inOrder

def fadingSettings : Settings Float := { Settings.standard with tuning := shortSearch }

def fadingRun (x : Vector Float 1) : Except Fault (Option Termination × Plan Float 1 ×
    Option Termination × Plan Float 1) := do
  let started ← start fadingKernels fadingSettings fadingCaller x
  let (first?, checked) ← check fadingKernels fadingSettings fadingCaller 0 started
  let first ← plan fadingKernels fadingSettings fadingCaller 1 checked
  let landed ← first.land fadingKernels fadingSettings fadingCaller 1
  let next ← landed.finish fadingKernels fadingSettings fadingCaller 1
  let (second?, confirmed) ← check fadingKernels fadingSettings fadingCaller 1 next
  let second ← plan fadingKernels fadingSettings fadingCaller 2 confirmed
  pure (first?, first, second?, second)

def Plan.explores {F : Type} {n : Nat} : Plan F n → Bool
  | .explore .. => true
  | _ => false

def Plan.rests {F : Type} {n : Nat} : Plan F n → Bool
  | .rest _ => true
  | _ => false

theorem fadingRun_yields : Yields (fadingRun #v[0]) fun (first?, first, second?, second) =>
    first? = none ∧ first.explores = true ∧ second? = none ∧ second.rests = true := by
  decide +kernel

/-- The first line is searched down its slope. No way down is left behind its end, where the run
stops after the second iteration. -/
theorem minimize_descends_fading :
    fadingSettings.Accepted ∧
    (∃ state checked start slope kept step,
      Visits fadingSettings .inOrder fadingCaller #v[0] () 0 state () ∧
      Returns (check fadingKernels fadingSettings fadingCaller 0 state) () (none, checked) () ∧
      Returns (plan fadingKernels fadingSettings fadingCaller 1 checked) ()
        (.explore start slope kept step) () ∧
      slope < 0) ∧
    ∃ state checked resting next,
      Visits fadingSettings .inOrder fadingCaller #v[0] () 1 state () ∧
      Returns (check fadingKernels fadingSettings fadingCaller 1 state) () (none, checked) () ∧
      Returns (plan fadingKernels fadingSettings fadingCaller 2 checked) () (.rest resting) () ∧
      Advances fadingKernels fadingSettings fadingCaller 1 checked () next () ∧
      (next.x = checked.x ∨ next.x = next.tally.best.point) ∧
      ∀ answer last,
        Returns (minimize fadingSettings .inOrder fadingCaller #v[0]) () answer last →
        answer.2.iterations = 2 := by
  obtain ⟨⟨first?, first, second?, second⟩, same, rfl, explores, rfl, rests⟩ := fadingRun_yields
  have ran : Returns (fadingRun #v[0]) () (none, first, none, second) () := same
  obtain ⟨started, _, starts, rest⟩ := returns_bind.mp ran
  obtain ⟨⟨first?, checked⟩, _, checks, rest⟩ := returns_bind.mp rest
  obtain ⟨first', _, plans, rest⟩ := returns_bind.mp rest
  obtain ⟨landed, _, lands, rest⟩ := returns_bind.mp rest
  obtain ⟨next, _, finishes, rest⟩ := returns_bind.mp rest
  obtain ⟨⟨second?, confirmed⟩, _, confirms, rest⟩ := returns_bind.mp rest
  obtain ⟨second', _, replans, last⟩ := returns_bind.mp rest
  obtain ⟨answer, _⟩ := returns_pure.mp last
  obtain ⟨rfl, rfl, rfl, rfl⟩ : none = first? ∧ first = first' ∧ none = second? ∧
      second = second' := by
    simpa only [Prod.mk.injEq] using answer
  have accepted : fadingSettings.Accepted := shortSearch_accepted .standard
  have pass : Pass fadingKernels fadingSettings fadingCaller 0 started () next () :=
    ⟨checked, (), checks, (), by decide, iterate_of_stages plans lands finishes, rfl⟩
  have begun : Visits fadingSettings .inOrder fadingCaller #v[0] () 0 started () :=
    ⟨by decide, started, (), starts, .refl _ _ _⟩
  have visits : Visits fadingSettings .inOrder fadingCaller #v[0] () 1 next () :=
    ⟨by decide, started, (), starts, .next pass (.refl _ _ _)⟩
  refine ⟨accepted, ?_, ?_⟩
  · cases first with
    | rest _ | leap _ _ => exact nomatch explores
    | explore start slope kept step =>
      have searches := (minimize_descends fadingSettings accepted .inOrder fadingCaller #v[0] () 0
        started checked () () begun checks).2.1
      obtain ⟨descends, _⟩ := searches _ _ _ _ _ plans
      exact ⟨started, checked, start, slope, kept, step, begun, checks, plans, descends⟩
  · cases second with
    | explore _ _ _ _ | leap _ _ => exact nomatch rests
    | rest resting =>
      have reiterates : Returns (iterate fadingKernels fadingSettings fadingCaller 2 confirmed) ()
          resting.withoutDirection () :=
        iterate_of_stages replans (returns_pure.mpr ⟨rfl, rfl⟩) (returns_pure.mpr ⟨rfl, rfl⟩)
      have advances : Advances fadingKernels fadingSettings fadingCaller 1 confirmed ()
          resting.withoutDirection () := ⟨(), by decide, reiterates, rfl⟩
      have still := (minimize_descends fadingSettings accepted .inOrder fadingCaller #v[0] () 1 next
        confirmed () () visits confirms).2.2
      obtain ⟨_, place, _, ends⟩ := still _ _ _ _ replans advances
      exact ⟨next, confirmed, resting, _, visits, confirms, replans, advances, place, ends⟩

end Lost

end Minimization

end Descent

import Descent.Proofs.Functions

/-!
The outer iterations of a solve as a chain of rounds. A round asks the token, runs one inner
minimization and may report it; what every round and every move of the offsets keep therefore
holds of all that the solve leaves. What an inner run keeps is found without looking into the
minimization: each of its programs keeps what the questions of its caller keep.
-/

namespace Descent

open Execution

variable {m : Type → Type} [Monad m] [MonadExceptOf Fault m] {World : Type} [Execution m World]

namespace Penalty

variable {F : Type} [Unbounded F] {n : Nat}

def Progress.begun (x : Vector F n) (problem : Problem m F n) : Progress m F n where
  x
  problem
  status := .success
  penaltyValue := 0
  outerIterations := 0
  innerIterations := 0
  evaluations := 0
  violationHistory := #[]

def Progress.concluded (last : Progress m F n) (status : Status) (value worst : F) :
    Solution m F n where
  x := last.x
  objective := last.problem.objective.rename Fin.val
  constraints := last.problem.constraints.map (·.rename Fin.val)
  report :=
    { status
      value
      penaltyValue := last.penaltyValue
      outerIterations := last.outerIterations
      innerIterations := last.innerIterations
      evaluations := last.evaluations
      maxViolation := worst
      violationHistory := last.violationHistory }

/-- An outer iteration that the token lets begin, up to its report. -/
def Round (settings : PenaltySettings F) (runner : Runner) (watch : Watch m F) (done : Nat)
    (progress : Progress m F n) (before : World) (worst : F) (next : Progress m F n)
    (after : World) : Prop :=
  done < settings.outerIterations ∧
    ∃ polled minimized, Returns watch.isCancelled before false polled ∧
      Returns (minimizeOnce settings runner watch progress) polled (worst, next) minimized ∧
      ((watch.verbose = false ∧ after = minimized) ∨
        ∃ value valued, watch.verbose = true ∧
          Returns (next.problem.objective.value next.x) minimized value valued ∧
          Returns (watch.note (.outerIteration done value next.penaltyValue worst)) valued ()
            after)

inductive Rounds (settings : PenaltySettings F) (runner : Runner) (watch : Watch m F) :
    Nat → Progress m F n → World → Progress m F n → World → Prop where
  | spent {done progress world} : ¬ done < settings.outerIterations →
      Rounds settings runner watch done progress world progress world
  | cancelled {done progress before after} : done < settings.outerIterations →
      Returns watch.isCancelled before true after →
      Rounds settings runner watch done progress before progress after
  | final {done progress before worst next after} :
      Round settings runner watch done progress before worst next after →
      isFinal settings next.status worst = true →
      Rounds settings runner watch done progress before next after
  | next {done progress before worst next middle problem world last after} :
      Round settings runner watch done progress before worst next middle →
      isFinal settings next.status worst = false →
      Returns (next.problem.adjustOffsets settings.offsetRate next.x) middle problem world →
      Rounds settings runner watch (done + 1) { next with problem } world last after →
      Rounds settings runner watch done progress before last after

variable {settings : PenaltySettings F} {runner : Runner} {watch : Watch m F} {done : Nat}
variable {progress next last : Progress m F n} {worst : F} {before after : World}

/-- An inner run starts with the functions of the outer iteration and leaves them as it found or
changed them. -/
theorem minimizeOnce_returns
    (ran : Returns (minimizeOnce settings runner watch progress) before (worst, next) after) :
    ∃ report inner minimized,
      Returns (minimize settings.inner runner (innerCaller watch) progress.x)
        (({ problem := progress.problem, token := .fresh } : Inner m F n), before)
        (next.x, report) (inner, minimized) ∧
      Returns (inner.problem.maxViolation next.x) minimized worst after ∧
      next =
        { x := next.x
          problem := inner.problem
          status := report.status
          penaltyValue := report.value
          outerIterations := progress.outerIterations + 1
          innerIterations := progress.innerIterations + report.iterations
          evaluations := progress.evaluations + report.evaluations
          violationHistory := progress.violationHistory.push worst } := by
  obtain ⟨⟨⟨x, report⟩, inner⟩, minimized, minimizes, rest⟩ := returns_bind.mp ran
  obtain ⟨found, _, measures, last⟩ := returns_bind.mp rest
  obtain ⟨same, rfl⟩ := returns_pure.mp last
  obtain ⟨rfl, rfl⟩ := Prod.mk.inj same
  exact ⟨report, inner, minimized, minimizes, measures, rfl⟩

theorem outerFrom_returns
    (ran : Returns (outerFrom settings runner watch done progress) before last after) :
    Rounds settings runner watch done progress before last after := by
  induction done, progress using outerFrom.induct settings generalizing before with
  | case1 done progress goesOn ih =>
    rw [outerFrom, if_pos goesOn] at ran
    obtain ⟨cancelled, polled, asks, rest⟩ := returns_bind.mp ran
    cases cancelled with
    | true =>
      obtain ⟨rfl, rfl⟩ := returns_pure.mp rest
      exact .cancelled goesOn asks
    | false =>
      obtain ⟨⟨worst, next⟩, minimized, minimizes, rest⟩ := returns_bind.mp rest
      -- what comes after the report, which is the same with and without one
      have onward {middle : World}
          (round : Round settings runner watch done progress before worst next middle)
          (ends : Returns
            (if isFinal settings next.status worst then pure next
            else do
              let problem ← next.problem.adjustOffsets settings.offsetRate next.x
              outerFrom settings runner watch (done + 1) { next with problem })
            middle last after) :
          Rounds settings runner watch done progress before last after := by
        cases stops : isFinal settings next.status worst with
        | true =>
          rw [stops] at ends
          obtain ⟨rfl, rfl⟩ := returns_pure.mp ends
          exact .final round stops
        | false =>
          rw [stops] at ends
          obtain ⟨problem, world, adjusts, others⟩ := returns_bind.mp ends
          exact .next round stops adjusts (ih next problem others)
      cases reports : watch.verbose with
      | false =>
        simp only [reports, Bool.false_eq_true, if_false] at rest
        exact onward ⟨goesOn, polled, minimized, asks, minimizes, .inl ⟨reports, rfl⟩⟩ rest
      | true =>
        simp only [reports, if_true] at rest
        obtain ⟨value, valued, evaluates, rest⟩ := returns_bind.mp rest
        obtain ⟨_, middle, notes, rest⟩ := returns_bind.mp rest
        exact onward ⟨goesOn, polled, minimized, asks, minimizes,
          .inr ⟨value, valued, reports, evaluates, notes⟩⟩ rest
  | case2 done progress spent =>
    rw [outerFrom, if_neg spent] at ran
    obtain ⟨rfl, rfl⟩ := returns_pure.mp ran
    exact .spent spent

/-- A solve is its outer iterations, between the checks before and the report after them. -/
theorem solve_outer {x : Vector F n} {objective : Nonlinear Nat m F n}
    {constraints : List (Constraint Nat m F n)} {stepSizes : Array F} {solution : Solution m F n}
    (ran : Returns (solve settings runner watch x objective constraints stepSizes) before solution
      after) :
    ∃ problem last finished asked valued status value worst,
      Problem.create objective constraints stepSizes = .ok problem ∧
      reserve settings.outerIterations (Unbounded.bytes F) = .ok () ∧
      Returns (outerFrom settings runner watch 0 (.begun x problem)) before last finished ∧
      Returns (last.problem.objective.value last.x) finished value asked ∧
      Returns (last.problem.maxViolation last.x) asked worst valued ∧
      Returns (finalStatus settings watch last.status worst) valued status after ∧
      solution = last.concluded status value worst := by
  simp only [solve] at ran
  obtain ⟨problem, _, creates, rest⟩ := returns_bind.mp ran
  obtain ⟨_, _, reserves, rest⟩ := returns_bind.mp rest
  obtain ⟨last, finished, iterated, rest⟩ := returns_bind.mp rest
  obtain ⟨value, asked, read, rest⟩ := returns_bind.mp rest
  obtain ⟨worst, valued, measured, rest⟩ := returns_bind.mp rest
  obtain ⟨status, _, judged, rest⟩ := returns_bind.mp rest
  obtain ⟨rfl, rfl⟩ := returns_pure.mp rest
  obtain ⟨created, rfl⟩ := returns_ofExcept.mp creates
  obtain ⟨reserved, rfl⟩ := returns_ofExcept.mp reserves
  exact ⟨problem, last, finished, asked, valued, status, value, worst, created, reserved,
    iterated, read, measured, judged, rfl⟩

theorem returns_isCancelled {asked left : Inner m F n × World} {answer : Bool} :
    Returns (innerCaller watch : Caller (StateT (Inner m F n) m) F n).isCancelled asked answer
      left ↔ answer = asked.1.token.isCancelled ∧ left = asked := by
  constructor
  · intro ran
    obtain ⟨_, _, reads, last⟩ := returns_bind.mp ran
    obtain ⟨rfl, rfl⟩ := returns_get.mp reads
    exact returns_pure.mp last
  · rintro ⟨rfl, rfl⟩
    exact returns_bind.mpr ⟨_, _, returns_get.mpr ⟨rfl, rfl⟩, returns_pure.mpr ⟨rfl, rfl⟩⟩

/-- A relation between functions and worlds before and after, which holds across every evaluation
and every question that the solver puts. -/
structure Upheld (watch : Watch m F)
    (Kept : Problem m F n × World → Problem m F n × World → Prop) : Prop where
  lasting : Lasting Kept
  evaluate {problem left : Problem m F n} {x : Vector F n} {before after : World}
    {answer : F × Vector F n} :
    Returns (problem.evaluate x) before (answer, left) after → Kept (problem, before) (left, after)
  isCancelled {problem : Problem m F n} {before after : World} {answer : Bool} :
    Returns watch.isCancelled before answer after → Kept (problem, before) (problem, after)
  note {problem : Problem m F n} {before after : World} {event : Event F} :
    Returns (watch.note event) before () after → Kept (problem, before) (problem, after)

section Upheld

variable {Kept : Problem m F n × World → Problem m F n × World → Prop}
variable {minimizer : Settings F} {x : Vector F n} {inner left : Inner m F n}
variable {answer : Vector F n × Report F}

def Inner.Related (Kept : Problem m F n × World → Problem m F n × World → Prop)
    (before after : Inner m F n × World) : Prop :=
  Kept (before.1.problem, before.2) (after.1.problem, after.2)

omit [MonadExceptOf Fault m] [Execution m World] [Monad m] in
theorem Inner.related_lasting (lasting : Lasting Kept) : Lasting (Inner.Related Kept) where
  refl _ := lasting.refl _
  trans first second := lasting.trans first second

theorem innerCaller_keeps (upheld : Upheld watch Kept) :
    (innerCaller watch : Caller (StateT (Inner m F n) m) F n).Corresponds
      (fun _ program _ => Keeps (Inner.Related Kept) program) (innerCaller watch) where
  evaluate x := by
    intro before answer after ran
    obtain ⟨inner, _, reads, rest⟩ := returns_bind.mp ran
    obtain ⟨⟨_, problem⟩, _, evaluates, rest⟩ := returns_bind.mp rest
    obtain ⟨_, _, writes, last⟩ := returns_bind.mp rest
    obtain ⟨rfl, rfl⟩ := returns_get.mp reads
    obtain rfl := returns_set.mp writes
    obtain ⟨_, rfl⟩ := returns_pure.mp last
    exact upheld.evaluate (returns_lift.mp evaluates).1
  shouldStop _ _ _ := by
    intro before answer after ran
    obtain ⟨asks, same⟩ := returns_lift.mp ran
    rw [Inner.Related, same]
    exact upheld.isCancelled asks
  isCancelled := by
    intro before answer after ran
    obtain ⟨_, rfl⟩ := returns_isCancelled.mp ran
    exact upheld.lasting.refl _
  cancel := by
    intro before answer after ran
    obtain rfl := returns_modify.mp ran
    exact upheld.lasting.refl _
  note _ := by
    intro before answer after ran
    obtain ⟨notes, same⟩ := returns_lift.mp ran
    rw [Inner.Related, same]
    exact upheld.note notes

theorem inner_keeps [LawfulMonad m] (upheld : Upheld watch Kept)
    (ran : Returns (minimize minimizer runner (innerCaller watch) x) (inner, before) answer
      (left, after)) : Kept (inner.problem, before) (left.problem, after) := by
  have rules : Congruent fun A (program _ : StateT (Inner m F n) m A) =>
      Keeps (Inner.Related Kept) program := (Inner.related_lasting upheld.lasting).congruent
  have keeps : Keeps (Inner.Related Kept) (minimize minimizer runner (innerCaller watch) x) :=
    Minimization.minimize_corresponds rules (innerCaller_keeps upheld)
  exact keeps _ _ _ ran

theorem upheld_blank :
    Upheld watch fun before after : Problem m F n × World => after.1.blank = before.1.blank where
  lasting := ⟨fun _ => rfl, fun first second => second.trans first⟩
  evaluate := Problem.evaluate_blank
  isCancelled _ := rfl
  note _ := rfl

theorem inner_blank [LawfulMonad m]
    (ran : Returns (minimize minimizer runner (innerCaller watch) x) (inner, before) answer
      (left, after)) : left.problem.blank = inner.problem.blank :=
  inner_keeps upheld_blank ran

end Upheld

/-- What every outer iteration and every move of the offsets keep, the solve keeps. -/
theorem rounds_invariant (Kept : Nat → Progress m F n → World → Prop)
    (ask : ∀ done progress before cancelled after, Kept done progress before →
      Returns watch.isCancelled before cancelled after → Kept done progress after)
    (round : ∀ done progress before worst next after, Kept done progress before →
      Round settings runner watch done progress before worst next after →
      Kept (done + 1) next after)
    (adjust : ∀ done progress before problem after, Kept done progress before →
      Returns (progress.problem.adjustOffsets settings.offsetRate progress.x) before problem
        after → Kept done { progress with problem } after)
    (rounds : Rounds settings runner watch done progress before last after)
    (kept : Kept done progress before) : ∃ ended, Kept ended last after := by
  induction rounds with
  | spent => exact ⟨_, kept⟩
  | cancelled _ asks => exact ⟨_, ask _ _ _ _ _ kept asks⟩
  | final rounded _ => exact ⟨_, round _ _ _ _ _ _ kept rounded⟩
  | next rounded _ adjusts _ ih =>
    exact ih (adjust _ _ _ _ _ (round _ _ _ _ _ _ kept rounded) adjusts)

end Penalty

end Descent

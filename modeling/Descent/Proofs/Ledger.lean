import Descent.Proofs.Budget
import Descent.Proofs.Feasibility
import Descent.Proofs.Round
import Descent.Proofs.Sharing

/-!
The outer iterations of a solve, each with what its inner run answered. A solve makes some
iterations after which the offsets move, and then it halts: at the cap, at a token that is set, or
with an iteration that is final. Apart from its functions, the state of a solve is what these
iterations add up to.
-/

namespace Descent

open Scalar Execution

/-! Settings that callers can have. -/

namespace PenaltySettings

variable {F : Type} [Unbounded F]

inductive Accepted : PenaltySettings F → Prop where
  | standard : Accepted standard
  | innerIterations {settings next : PenaltySettings F} (limit : Nat) :
      Accepted settings → settings.withInnerIterations limit = .ok next → Accepted next
  | outerIterations {settings next : PenaltySettings F} (limit : Nat) :
      Accepted settings → settings.withOuterIterations limit = .ok next → Accepted next
  | offsetRate {settings next : PenaltySettings F} (rate : F) :
      Accepted settings → settings.withOffsetRate rate = .ok next → Accepted next
  | violationTolerance {settings next : PenaltySettings F} (tolerance : F) :
      Accepted settings → settings.withViolationTolerance tolerance = .ok next → Accepted next
  | minimizer {settings : PenaltySettings F} {minimizer : Settings F} :
      Accepted settings → minimizer.Accepted → Accepted (settings.withMinimizer minimizer)

theorem Accepted.bounds [Lawful F] {settings : PenaltySettings F} (accepted : settings.Accepted) :
    0 < settings.outerIterations ∧ 0 ≤ settings.violationTolerance := by
  induction accepted with
  | standard => exact ⟨Nat.succ_pos 9, Lawful.zero_defined⟩
  | innerIterations _ _ set ih | offsetRate _ _ set ih =>
    obtain ⟨_, same⟩ := guard_bind set
    obtain rfl := Except.ok.inj same
    exact ih
  | outerIterations _ _ set ih =>
    obtain ⟨positive, same⟩ := guard_bind set
    obtain rfl := Except.ok.inj same
    exact ⟨positive, ih.2⟩
  | violationTolerance _ _ set ih =>
    obtain ⟨nonnegative, same⟩ := guard_bind set
    obtain rfl := Except.ok.inj same
    exact ⟨ih.1, nonnegative⟩
  | minimizer _ _ ih => exact ih

theorem Accepted.checksTolerance_iff [Lawful F] {settings : PenaltySettings F}
    (accepted : settings.Accepted) :
    settings.checksTolerance = true ↔ (settings.violationTolerance == 0) = false := by
  have nonnegative := accepted.bounds.2
  rw [checksTolerance, decide_eq_true_iff, Lawful.lt_iff, ← Bool.not_eq_true, Lawful.beq_iff]
  exact ⟨fun above zero => above.2 zero.1, fun apart => ⟨nonnegative, fun zero =>
    apart ⟨zero, nonnegative⟩⟩⟩

end PenaltySettings

namespace Penalty

/-- Everybody who shares the token with a solve, its functions aside. -/
structure Vigil (σ F : Type) where
  meanwhile : Shared σ Unit
  note : Event F → Shared σ Unit
  verbose : Bool

def Vigil.watch {σ F : Type} (vigil : Vigil σ F) : Watch (Shared σ) F where
  isCancelled := Shared.poll vigil.meanwhile
  note := vigil.note
  verbose := vigil.verbose

def Vigil.alone {σ F : Type} : Vigil σ F where
  meanwhile := pure ()
  note _ := pure ()
  verbose := false

variable {m : Type → Type} {F : Type} [Unbounded F] {n : Nat}

/-- What an outer iteration comes to: the point and the functions that its inner run left, the
report about that run, and the largest violation at the point. -/
structure Outer (m : Type → Type) (F : Type) [Scalar F] (n : Nat) where
  x : Vector F n
  problem : Problem m F n
  report : Report F
  worst : F

namespace Progress

def after (progress : Progress m F n) (outer : Outer m F n) : Progress m F n where
  x := outer.x
  problem := outer.problem
  status := outer.report.status
  penaltyValue := outer.report.value
  outerIterations := progress.outerIterations + 1
  innerIterations := progress.innerIterations + outer.report.iterations
  evaluations := progress.evaluations + outer.report.evaluations
  violationHistory := progress.violationHistory.push outer.worst

/-- What some outer iterations add up to. The functions are those of the last one. -/
def past (progress : Progress m F n) (outers : List (Outer m F n)) : Progress m F n :=
  outers.foldl after progress

variable {progress : Progress m F n} {outers : List (Outer m F n)}

theorem past_cons (outer : Outer m F n) (rest : List (Outer m F n)) :
    progress.past (outer :: rest) = (progress.after outer).past rest := rfl

theorem past_append (earlier later : List (Outer m F n)) :
    progress.past (earlier ++ later) = (progress.past earlier).past later :=
  List.foldl_append

theorem past_congr {other : Progress m F n}
    (same : other = { progress with problem := other.problem }) :
    other.past outers = { progress.past outers with problem := (other.past outers).problem } := by
  induction outers generalizing progress other with
  | nil => exact same
  | cons outer rest ih =>
    refine ih ?_
    rw [same]
    rfl

theorem past_outerIterations :
    (progress.past outers).outerIterations = progress.outerIterations + outers.length := by
  induction outers generalizing progress with
  | nil => rfl
  | cons outer rest ih =>
    simp only [past_cons, ih, after, List.length_cons]
    omega

theorem past_innerIterations :
    (progress.past outers).innerIterations =
      progress.innerIterations + (outers.map (·.report.iterations)).sum := by
  induction outers generalizing progress with
  | nil => rfl
  | cons outer rest ih =>
    simp only [past_cons, ih, after, List.map_cons, List.sum_cons]
    omega

theorem past_evaluations :
    (progress.past outers).evaluations =
      progress.evaluations + (outers.map (·.report.evaluations)).sum := by
  induction outers generalizing progress with
  | nil => rfl
  | cons outer rest ih =>
    simp only [past_cons, ih, after, List.map_cons, List.sum_cons]
    omega

theorem past_violationHistory :
    (progress.past outers).violationHistory.toList =
      progress.violationHistory.toList ++ outers.map (·.worst) := by
  induction outers generalizing progress with
  | nil => exact (List.append_nil _).symm
  | cons outer rest ih =>
    simp [past_cons, ih, after]

theorem past_latest {outer : Outer m F n} (latest : outers.getLast? = some outer) :
    (progress.past outers).x = outer.x ∧ (progress.past outers).status = outer.report.status := by
  obtain ⟨earlier, rfl⟩ := List.getLast?_eq_some_iff.mp latest
  rw [past_append]
  exact ⟨rfl, rfl⟩

theorem past_status_iff {status : Status} (ran : outers ≠ []) :
    (progress.past outers).status = status ↔
      ∃ outer, outers.getLast? = some outer ∧ outer.report.status = status := by
  have latest := List.getLast?_eq_some_getLast ran
  rw [(past_latest latest).2]
  constructor
  · exact fun same => ⟨_, latest, same⟩
  · rintro ⟨outer, found, same⟩
    rw [latest] at found
    cases found
    exact same

end Progress

section Course

variable [Monad m] [MonadExceptOf Fault m] {World : Type} [Execution m World]

def Makes (settings : PenaltySettings F) (runner : Runner) (watch : Watch m F)
    (progress : Progress m F n) (before : World) (outer : Outer m F n) (after : World) : Prop :=
  progress.outerIterations < settings.outerIterations ∧
    ∃ polled token minimized measured, Returns watch.isCancelled before false polled ∧
      Returns (minimize settings.inner runner (innerCaller watch) progress.x)
        (({ problem := progress.problem, token := .fresh } : Inner m F n), polled)
        (outer.x, outer.report) (({ problem := outer.problem, token } : Inner m F n), minimized) ∧
      Returns (outer.problem.maxViolation outer.x) minimized outer.worst measured ∧
      ((watch.verbose = false ∧ after = measured) ∨
        ∃ value valued, watch.verbose = true ∧
          Returns (outer.problem.objective.value outer.x) measured value valued ∧
          Returns (watch.note
            (.outerIteration progress.outerIterations value outer.report.value outer.worst))
            valued () after)

/-- Outer iterations after each of which the offsets move, so that the next one can begin. -/
inductive Turns (settings : PenaltySettings F) (runner : Runner) (watch : Watch m F) :
    Progress m F n → World → List (Outer m F n) → Progress m F n → World → Prop where
  | none (progress world) : Turns settings runner watch progress world [] progress world
  | next {progress before outer middle problem world outers top after} :
      Makes settings runner watch progress before outer middle →
      isFinal settings outer.report.status outer.worst = false →
      Returns (outer.problem.adjustOffsets settings.offsetRate outer.x) middle problem world →
      Turns settings runner watch { progress.after outer with problem } world outers top after →
      Turns settings runner watch progress before (outer :: outers) top after

/-- The end of the outer iterations. No offset moves any more. -/
inductive Halts (settings : PenaltySettings F) (runner : Runner) (watch : Watch m F) :
    Progress m F n → World → List (Outer m F n) → Progress m F n → World → Prop where
  | spent {progress world} : ¬ progress.outerIterations < settings.outerIterations →
      Halts settings runner watch progress world [] progress world
  | cancelled {progress before after} : progress.outerIterations < settings.outerIterations →
      Returns watch.isCancelled before true after →
      Halts settings runner watch progress before [] progress after
  | final {progress before outer after} :
      Makes settings runner watch progress before outer after →
      isFinal settings outer.report.status outer.worst = true →
      Halts settings runner watch progress before [outer] (progress.after outer) after

/-- All outer iterations of a solve: those that turned over, and the final one if there is one. -/
def Course (settings : PenaltySettings F) (runner : Runner) (watch : Watch m F)
    (progress : Progress m F n) (before : World) (turned final : List (Outer m F n))
    (last : Progress m F n) (after : World) : Prop :=
  ∃ top middle, Turns settings runner watch progress before turned top middle ∧
    Halts settings runner watch top middle final last after

variable {settings : PenaltySettings F} {runner : Runner} {watch : Watch m F}
variable {progress next top last : Progress m F n} {outer : Outer m F n}
variable {outers turned final : List (Outer m F n)} {before middle after : World}

theorem makes_of_round {worst : F}
    (round : Round settings runner watch progress.outerIterations progress before worst next
      after) :
    ∃ outer, Makes settings runner watch progress before outer after ∧ outer.worst = worst ∧
      next = progress.after outer := by
  obtain ⟨goesOn, polled, minimized, asks, minimizes, reports⟩ := round
  obtain ⟨report, inner, ended, runs, measures, same⟩ := minimizeOnce_returns minimizes
  refine ⟨⟨next.x, inner.problem, report, worst⟩, ?_, rfl, same⟩
  refine ⟨goesOn, polled, inner.token, ended, minimized, asks, runs, measures, ?_⟩
  rw [same] at reports
  exact reports

theorem course_of_rounds {done : Nat} (counted : progress.outerIterations = done)
    (rounds : Rounds settings runner watch done progress before last after) :
    ∃ turned final, Course settings runner watch progress before turned final last after := by
  induction rounds with
  | spent ends =>
    subst counted
    exact ⟨[], [], _, _, .none _ _, .spent ends⟩
  | cancelled goesOn asks =>
    subst counted
    exact ⟨[], [], _, _, .none _ _, .cancelled goesOn asks⟩
  | final round ends =>
    subst counted
    obtain ⟨outer, makes, rfl, rfl⟩ := makes_of_round round
    exact ⟨[], [outer], _, _, .none _ _, .final makes ends⟩
  | next round goesOn adjusts _ ih =>
    subst counted
    obtain ⟨outer, makes, rfl, rfl⟩ := makes_of_round round
    obtain ⟨turned, final, top, middle, turns, halts⟩ := ih rfl
    exact ⟨outer :: turned, final, top, middle, .next makes goesOn adjusts turns, halts⟩

theorem solve_course {x : Vector F n} {objective : Nonlinear Nat m F n}
    {constraints : List (Constraint Nat m F n)} {stepSizes : Array F} {solution : Solution m F n}
    (ran : Returns (solve settings runner watch x objective constraints stepSizes) before solution
      after) :
    ∃ problem turned final last finished asked valued status value worst,
      Problem.create objective constraints stepSizes = .ok problem ∧
      Course settings runner watch (.begun x problem) before turned final last finished ∧
      Returns (last.problem.objective.value last.x) finished value asked ∧
      Returns (last.problem.maxViolation last.x) asked worst valued ∧
      Returns (finalStatus settings watch last.status worst) valued status after ∧
      solution = last.concluded status value worst := by
  obtain ⟨problem, last, finished, asked, valued, status, value, worst, created, _, iterated, read,
    measured, judged, same⟩ := solve_outer ran
  have begun : (Progress.begun x problem).outerIterations = 0 := rfl
  obtain ⟨turned, final, course⟩ := course_of_rounds begun (outerFrom_returns iterated)
  exact ⟨problem, turned, final, last, finished, asked, valued, status, value, worst, created,
    course, read, measured, judged, same⟩

theorem Turns.total (turns : Turns settings runner watch progress before outers top after) :
    top = { progress.past outers with problem := top.problem } := by
  induction turns with
  | none => rfl
  | @next progress _ outer _ problem _ outers top _ _ _ _ _ ih =>
    have same : { progress.after outer with problem }.past outers =
        { (progress.after outer).past outers with
          problem := ({ progress.after outer with problem }.past outers).problem } :=
      Progress.past_congr rfl
    rw [same] at ih
    exact ih

theorem Halts.total (halts : Halts settings runner watch top before final last after) :
    last = { top.past final with problem := last.problem } := by
  cases halts with
  | spent | cancelled | final => rfl

theorem Course.total
    (course : Course settings runner watch progress before turned final last after) :
    last = { progress.past (turned ++ final) with problem := last.problem } := by
  obtain ⟨top, middle, turns, halts⟩ := course
  have same : top.past final =
      { (progress.past turned).past final with problem := (top.past final).problem } :=
    Progress.past_congr turns.total
  rw [← Progress.past_append] at same
  rw [halts.total, same]

theorem makes_unique {left left' : World}
    (makes : Makes settings runner watch progress before outer left)
    (makes' : Makes settings runner watch progress before outer left') : left' = left := by
  obtain ⟨_, polled, _, _, _, asks, minimizes, measures, reports⟩ := makes
  obtain ⟨_, polled', _, _, _, asks', minimizes', measures', reports'⟩ := makes'
  obtain ⟨_, rfl⟩ := returns_unique asks asks'
  obtain ⟨_, rfl⟩ := Prod.mk.inj (returns_unique minimizes minimizes').2
  obtain ⟨_, rfl⟩ := returns_unique measures measures'
  rcases reports with ⟨quiet, rfl⟩ | ⟨_, _, loud, reads, notes⟩
  · rcases reports' with ⟨_, same⟩ | ⟨_, _, loud, _⟩
    · exact same
    · exact nomatch quiet.symm.trans loud
  · rcases reports' with ⟨quiet, _⟩ | ⟨_, _, _, reads', notes'⟩
    · exact nomatch loud.symm.trans quiet
    · obtain ⟨rfl, rfl⟩ := returns_unique reads reads'
      exact (returns_unique notes notes').2

theorem Turns.unique {top' : Progress m F n} {after' : World}
    (turns : Turns settings runner watch progress before outers top after)
    (turns' : Turns settings runner watch progress before outers top' after') :
    top' = top ∧ after' = after := by
  induction turns with
  | none =>
    cases turns' with
    | none => exact ⟨rfl, rfl⟩
  | next makes _ adjusts _ ih =>
    cases turns' with
    | next makes' _ adjusts' rest =>
      obtain rfl := makes_unique makes makes'
      obtain ⟨rfl, rfl⟩ := returns_unique adjusts adjusts'
      exact ih rest

theorem Turns.latest {earlier : List (Outer m F n)}
    (turns : Turns settings runner watch progress before (earlier ++ [outer]) top after) :
    ∃ reached world left problem,
      Turns settings runner watch progress before earlier reached world ∧
      Makes settings runner watch reached world outer left ∧
      Returns (outer.problem.adjustOffsets settings.offsetRate outer.x) left problem after := by
  induction earlier generalizing progress before with
  | nil =>
    cases turns with
    | next makes _ adjusts rest =>
      cases rest with
      | none => exact ⟨_, _, _, _, .none _ _, makes, adjusts⟩
  | cons first earlier ih =>
    cases turns with
    | next makes goesOn adjusts rest =>
      obtain ⟨reached, world, left, problem, turns, made, moved⟩ := ih rest
      exact ⟨reached, world, left, problem, .next makes goesOn adjusts turns, made, moved⟩

/-- Every outer iteration was made after the earlier ones turned over. -/
theorem Course.made {earlier later : List (Outer m F n)}
    (course : Course settings runner watch progress before turned final last after)
    (split : turned ++ final = earlier ++ outer :: later) :
    ∃ reached world left, Turns settings runner watch progress before earlier reached world ∧
      Makes settings runner watch reached world outer left := by
  obtain ⟨top, middle, turns, halts⟩ := course
  induction turns generalizing earlier with
  | none progress world =>
    cases halts with
    | spent | cancelled => exact nomatch (List.append_eq_nil_iff.mp split.symm).2
    | final makes _ =>
      cases earlier with
      | nil =>
        cases split
        exact ⟨progress, world, _, .none _ _, makes⟩
      | cons _ earlier =>
        exact nomatch (List.append_eq_nil_iff.mp (List.cons.inj split).2.symm).2
  | next makes goesOn adjusts _ ih =>
    cases earlier with
    | nil =>
      cases split
      exact ⟨_, _, _, .none _ _, makes⟩
    | cons first earlier =>
      obtain ⟨rfl, rest⟩ := List.cons.inj split
      obtain ⟨reached, world, left, turns, made⟩ := ih rest halts
      exact ⟨reached, world, left, .next makes goesOn adjusts turns, made⟩

theorem Course.nothing
    (course : Course settings runner watch progress before turned final last after)
    (none : turned ++ final = []) :
    last = progress ∧ (progress.outerIterations < settings.outerIterations →
      Returns watch.isCancelled before true after) := by
  obtain ⟨top, middle, turns, halts⟩ := course
  obtain ⟨rfl, rfl⟩ := List.append_eq_nil_iff.mp none
  cases turns with
  | none =>
    cases halts with
    | spent ends => exact ⟨rfl, fun room => absurd room ends⟩
    | cancelled _ asks => exact ⟨rfl, fun _ => asks⟩

theorem Course.outerIterations_eq
    (course : Course settings runner watch progress before turned final last after) :
    last.outerIterations = progress.outerIterations + (turned ++ final).length := by
  rw [course.total]
  exact Progress.past_outerIterations

theorem Course.unbounded_iff {x : Vector F n} {problem : Problem m F n}
    (course : Course settings runner watch (.begun x problem) before turned final last after) :
    last.status = .unbounded ↔
      ∃ outer, (turned ++ final).getLast? = some outer ∧ outer.report.status = .unbounded := by
  by_cases none : turned ++ final = []
  · rw [course.nothing none |>.1, none]
    exact ⟨fun impossible => (nomatch impossible), fun ⟨_, found, _⟩ => (nomatch found)⟩
  · rw [course.total]
    exact Progress.past_status_iff none

theorem Course.outerIterations_le
    (course : Course settings runner watch progress before turned final last after)
    (room : progress.outerIterations ≤ settings.outerIterations) :
    last.outerIterations ≤ settings.outerIterations := by
  obtain ⟨top, middle, turns, halts⟩ := course
  have reached : top.outerIterations ≤ settings.outerIterations := by
    clear halts
    induction turns with
    | none => exact room
    | next makes _ _ _ ih => exact ih makes.1
  cases halts with
  | spent | cancelled => exact reached
  | final makes _ => exact makes.1

theorem Course.isFinal_iff
    (course : Course settings runner watch progress before turned final last after) :
    (∀ outer ∈ turned, isFinal settings outer.report.status outer.worst = false) ∧
      (∀ outer ∈ final, isFinal settings outer.report.status outer.worst = true) ∧
      final.length ≤ 1 := by
  obtain ⟨top, middle, turns, halts⟩ := course
  refine ⟨?_, ?_⟩
  · clear halts
    induction turns with
    | none => exact fun _ member => nomatch member
    | next _ goesOn _ _ ih => exact List.forall_mem_cons.mpr ⟨goesOn, ih⟩
  · cases halts with
    | spent | cancelled => exact ⟨fun _ member => (nomatch member), Nat.zero_le 1⟩
    | final _ ends =>
      refine ⟨fun outer member => ?_, Nat.le_refl 1⟩
      rw [List.mem_singleton.mp member]
      exact ends

end Course

/-- An outer iteration is the last one if it is unbounded or meets a tolerance that is asked for. -/
theorem isFinal_iff [Lawful F] {settings : PenaltySettings F} (accepted : settings.Accepted)
    {status : Status} {worst : F} :
    isFinal settings status worst = true ↔ status = .unbounded ∨
      (settings.violationTolerance == 0) = false ∧ worst ≤ settings.violationTolerance := by
  rw [isFinal, Bool.or_eq_true, Bool.and_eq_true, decide_eq_true_iff, decide_eq_true_iff,
    accepted.checksTolerance_iff]

theorem finalStatus_iff {σ : Type} {settings : PenaltySettings F} {vigil : Vigil σ F}
    {status found : Status} {worst : F} {before after : (Token × σ) × Unit}
    (ran : Returns (finalStatus settings vigil.watch status worst) before found after) :
    (found = .success ↔ after.1.1.isCancelled = false ∧ status = .success ∧
      ¬ (settings.checksTolerance = true ∧ settings.violationTolerance < worst)) ∧
    (found = .unbounded ↔ status = .unbounded) := by
  rcases finalStatus_returns ran with ⟨rfl, rfl, _⟩ | ⟨bounded, cancelled, polls, outcome⟩
  · simp
  · obtain ⟨_, rfl⟩ := Shared.returns_poll.mp polls
    rcases outcome with ⟨fails, rfl⟩ | ⟨unset, met, rfl⟩
    · refine ⟨⟨fun impossible => (nomatch impossible), ?_⟩, ?_⟩
      · rintro ⟨unset, _, met⟩
        rcases fails with set | unmet
        · rw [unset] at set
          exact nomatch set
        · exact absurd unmet met
      · simp [bounded]
    · simp [unset, met]

theorem finalStatus_stays {σ : Type} {settings : PenaltySettings F} {vigil : Vigil σ F}
    {status found : Status} {worst : F} {before after : (Token × σ) × Unit}
    (stays : Shared.Leaves Token.Stays vigil.meanwhile)
    (ran : Returns (finalStatus settings vigil.watch status worst) before found after)
    (set : before.1.1.isCancelled = true) : after.1.1.isCancelled = true := by
  rcases finalStatus_returns ran with ⟨_, _, rfl⟩ | ⟨_, _, polls, _⟩
  · exact set
  · exact stays _ _ _ (Shared.returns_poll.mp polls).1 set

end Penalty

end Descent

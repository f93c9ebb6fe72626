import Descent.Proofs.Ledger
import Descent.Scalar.Binary

/-!
A solve whose token is set on the way. The solver only polls the token, between outer iterations
and, through their predicate, within inner runs; an inner run that stops early sets a token of its
own. So once the token is set the running inner run makes no further iteration, no outer iteration
begins, and the solve is no success.
-/

namespace Descent

open Scalar Execution

/-! What the functions of a problem and the questions of its solver keep, a solve keeps. -/

section Kept

variable {m : Type → Type} [Monad m] [MonadExceptOf Fault m] {World : Type} [Execution m World]
variable {F : Type} [Unbounded F] {n : Nat} {Holds : World → World → Prop}

structure Watch.Keeping (Holds : World → World → Prop) (watch : Watch m F) : Prop where
  isCancelled : Keeps Holds watch.isCancelled
  note (event : Event F) : Keeps Holds (watch.note event)

namespace Penalty

variable {settings : PenaltySettings F} {runner : Runner} {watch : Watch m F}
variable {progress top last : Progress m F n} {outer : Outer m F n}
variable {outers turned final : List (Outer m F n)} {before middle after : World}
variable (lasting : Lasting Holds) (watched : watch.Keeping Holds)

def Carried (Holds : World → World → Prop) (before after : Problem m F n × World) : Prop :=
  before.1.Keeping Holds → after.1.Keeping Holds ∧ Holds before.2 after.2

include lasting watched

theorem report_keeps {done : Nat} (keeping : outer.problem.Keeping Holds)
    (measures : Returns (outer.problem.maxViolation outer.x) before outer.worst middle)
    (reports : (watch.verbose = false ∧ after = middle) ∨
      ∃ value valued, watch.verbose = true ∧
        Returns (outer.problem.objective.value outer.x) middle value valued ∧
        Returns (watch.note (.outerIteration done value outer.report.value outer.worst)) valued ()
          after) :
    Holds before after := by
  have measured : Holds before middle := keeping.maxViolation lasting _ _ _ _ measures
  rcases reports with ⟨_, rfl⟩ | ⟨_, _, _, reads, notes⟩
  · exact measured
  · exact lasting.trans measured
      (lasting.trans (keeping.objective.value _ _ _ _ reads) (watched.note _ _ _ _ notes))

theorem finalStatus_keeps {status found : Status} {worst : F}
    (ran : Returns (finalStatus settings watch status worst) before found after) :
    Holds before after := by
  rcases finalStatus_returns ran with ⟨_, _, rfl⟩ | ⟨_, _, polls, _⟩
  · exact lasting.refl _
  · exact watched.isCancelled _ _ _ polls

variable [LawfulMonad m]

theorem upheld_carried :
    Upheld watch (Carried Holds : Problem m F n × World → Problem m F n × World → Prop) where
  lasting :=
    { refl := fun _ keeping => ⟨keeping, lasting.refl _⟩
      trans := fun first second keeping =>
        have ⟨found, begun⟩ := first keeping
        have ⟨left, ended⟩ := second found
        ⟨left, lasting.trans begun ended⟩ }
  evaluate ran keeping :=
    ⟨Problem.keeping_of_blank (Problem.evaluate_blank ran) keeping,
      keeping.evaluate lasting _ _ _ _ ran⟩
  isCancelled ran keeping := ⟨keeping, watched.isCancelled _ _ _ ran⟩
  note ran keeping := ⟨keeping, watched.note _ _ _ _ ran⟩

theorem Makes.keeps (makes : Makes settings runner watch progress before outer after)
    (keeping : progress.problem.Keeping Holds) :
    outer.problem.Keeping Holds ∧ Holds before after := by
  obtain ⟨_, polled, token, minimized, measured, asks, minimizes, measures, reports⟩ := makes
  obtain ⟨left, ran⟩ := inner_keeps (upheld_carried lasting watched) minimizes keeping
  have asked : Holds before polled := watched.isCancelled _ _ _ asks
  have reported : Holds minimized after := report_keeps lasting watched left measures reports
  exact ⟨left, lasting.trans asked (lasting.trans ran reported)⟩

theorem Turns.keeps (turns : Turns settings runner watch progress before outers top after)
    (keeping : progress.problem.Keeping Holds) :
    top.problem.Keeping Holds ∧ Holds before after := by
  induction turns with
  | none => exact ⟨keeping, lasting.refl _⟩
  | next makes _ adjusts _ ih =>
    obtain ⟨left, made⟩ := makes.keeps lasting watched keeping
    obtain ⟨kept, rest⟩ := ih (left.adjusted adjusts)
    have moved := left.adjustOffsets lasting _ _ _ _ _ adjusts
    exact ⟨kept, lasting.trans made (lasting.trans moved rest)⟩

theorem Course.keeps
    (course : Course settings runner watch progress before turned final last after)
    (keeping : progress.problem.Keeping Holds) :
    last.problem.Keeping Holds ∧ Holds before after := by
  obtain ⟨top, middle, turns, halts⟩ := course
  obtain ⟨reached, begun⟩ := turns.keeps lasting watched keeping
  cases halts with
  | spent _ => exact ⟨reached, begun⟩
  | cancelled _ asks => exact ⟨reached, lasting.trans begun (watched.isCancelled _ _ _ asks)⟩
  | final makes _ =>
    obtain ⟨left, made⟩ := makes.keeps lasting watched reached
    exact ⟨left, lasting.trans begun made⟩

theorem solve_keeps {x : Vector F n} {objective : Nonlinear Nat m F n}
    {constraints : List (Constraint Nat m F n)} {stepSizes : Array F} {solution : Solution m F n}
    (ran : Returns (solve settings runner watch x objective constraints stepSizes) before solution
      after)
    (first : objective.Keeping Holds)
    (others : ∀ constraint ∈ constraints, constraint.Keeping Holds) : Holds before after := by
  obtain ⟨problem, turned, final, last, finished, asked, valued, _, _, _, created, course, reads,
    measures, judged, _⟩ := solve_course ran
  obtain ⟨left, begun⟩ :=
    course.keeps lasting watched (Problem.create_keeping created first others)
  have read : Holds finished asked := left.objective.value _ _ _ _ reads
  have measured : Holds asked valued := left.maxViolation lasting _ _ _ _ measures
  have ended : Holds valued after := finalStatus_keeps lasting watched judged
  exact lasting.trans begun (lasting.trans read (lasting.trans measured ended))

end Penalty

end Kept

namespace Penalty

section Interrupted

variable {σ F : Type} [Unbounded F] {n : Nat} {settings : PenaltySettings F} {runner : Runner}
variable {vigil : Vigil σ F} {progress reached last : Progress (Shared σ) F n}
variable {outer : Outer (Shared σ) F n} {earlier later turned final : List (Outer (Shared σ) F n)}
variable {before after world polled : (Token × σ) × Unit}

/-- Whatever a solve calls and whatever happens meanwhile, what is shared stands afterwards in this
relation to what it was. -/
structure Leaves (vigil : Vigil σ F) (objective : Nonlinear Nat (Shared σ) F n)
    (constraints : List (Constraint Nat (Shared σ) F n)) (Kept : Token × σ → Token × σ → Prop) :
    Prop where
  meanwhile : Keeps (Shared.Between Kept) vigil.meanwhile
  note (event : Event F) : Keeps (Shared.Between Kept) (vigil.note event)
  objective : objective.Keeping (Shared.Between Kept)
  constraints : ∀ constraint ∈ constraints, constraint.Keeping (Shared.Between Kept)

omit [Unbounded F] in
theorem Leaves.watch {objective : Nonlinear Nat (Shared σ) F n}
    {constraints : List (Constraint Nat (Shared σ) F n)} {Kept : Token × σ → Token × σ → Prop}
    (leaves : Leaves vigil objective constraints Kept) :
    vigil.watch.Keeping (Shared.Between Kept) :=
  ⟨Shared.poll_keeps leaves.meanwhile, leaves.note⟩

/-- A check that finds the token of the solve set is the last one of its inner run. -/
theorem inner_stops {minimizer : Settings F} {x : Vector F n} {answer : Vector F n × Report F}
    {begun left moment : Inner (Shared σ) F n × (Token × σ) × Unit} {done : Nat}
    {state : State F n} (stays : Shared.Leaves Token.Stays vigil.meanwhile)
    (ran : Returns (minimize minimizer runner (innerCaller vigil.watch) x) begun answer left)
    (visits : Minimization.Visits minimizer runner (innerCaller vigil.watch) x begun done state
      moment)
    (set : moment.2.1.1.isCancelled = true) : answer.2.iterations = done := by
  obtain ⟨ended, middle, runs, concludes⟩ := Minimization.minimize_resumes ran visits
  obtain ⟨_, _, _, _, _, rfl⟩ := Minimization.conclude_returns concludes
  rcases Minimization.runs_cases runs with ⟨same, _⟩ | ⟨_, _, ⟨_, _, checks, _⟩, _⟩
  · exact same
  · exfalso
    -- the check let the run go on, but its predicate is the poll
    rcases Minimization.check_returns checks with ⟨_, impossible, _⟩ | ⟨_, _, stop, own, asks, ends⟩
    · exact nomatch impossible
    · obtain ⟨_, rfl⟩ := returns_isCancelled.mp own
      have stopped : stop = true := Shared.poll_of_set stays set (returns_lift.mp asks).1
      rcases ends with ⟨_, _, impossible, _⟩ | ⟨goesOn, _⟩ | ⟨goesOn, _⟩
      · exact nomatch impossible
      · exact nomatch stopped.symm.trans goesOn
      · exact nomatch stopped.symm.trans goesOn

theorem Makes.set_after {done : Nat} {state : State F n}
    {moment : Inner (Shared σ) F n × (Token × σ) × Unit}
    (watched : vigil.watch.Keeping (Shared.Between Shared.Stays))
    (keeping : progress.problem.Keeping (Shared.Between Shared.Stays))
    (makes : Makes settings runner vigil.watch progress before outer after)
    (asks : Returns vigil.watch.isCancelled before false polled)
    (visits : Minimization.Visits settings.inner runner (innerCaller vigil.watch) progress.x
      ({ problem := progress.problem, token := .fresh }, polled) done state moment)
    (set : moment.2.1.1.isCancelled = true) :
    outer.problem.Keeping (Shared.Between Shared.Stays) ∧ after.1.1.isCancelled = true := by
  obtain ⟨_, polled', token, minimized, measured, asks', minimizes, measures, reports⟩ := makes
  obtain ⟨_, rfl⟩ := returns_unique asks asks'
  have upheld := upheld_carried (n := n) Shared.stays_lasting watched
  have related := Inner.related_lasting upheld.lasting
  obtain ⟨found, _⟩ :=
    Minimization.visits_keep related (innerCaller_keeps upheld) visits keeping
  obtain ⟨left, rest⟩ :=
    Minimization.rest_keeps related (innerCaller_keeps upheld) minimizes visits found
  exact ⟨left, report_keeps Shared.stays_lasting watched left measures reports (rest set)⟩

theorem Course.over_of_set (stays : Shared.Leaves Token.Stays vigil.meanwhile)
    (course : Course settings runner vigil.watch progress before turned final last after)
    (split : turned ++ final = earlier ++ later)
    (turns : Turns settings runner vigil.watch progress before earlier reached world)
    (set : world.1.1.isCancelled = true) : later = [] := by
  cases later with
  | nil => rfl
  | cons outer later =>
    exfalso
    obtain ⟨reached', world', left, turns', makes⟩ := course.made split
    obtain ⟨rfl, rfl⟩ := turns.unique turns'
    obtain ⟨_, polled, _, _, _, asks, _⟩ := makes
    exact nomatch Shared.poll_of_set stays set asks

/-- The token is heeded: no outer iteration begins once it is set, and an inner run that is under
way then makes no iteration after its next check and is the last one. -/
structure Heeds (settings : PenaltySettings F) (runner : Runner) (vigil : Vigil σ F)
    (begun : Progress (Shared σ) F n) (before : (Token × σ) × Unit)
    (outers : List (Outer (Shared σ) F n)) : Prop where
  between : ∀ earlier later reached world, outers = earlier ++ later →
    Turns settings runner vigil.watch begun before earlier reached world →
    world.1.1.isCancelled = true → later = []
  within : ∀ earlier outer later reached world polled done state moment,
    outers = earlier ++ outer :: later →
    Turns settings runner vigil.watch begun before earlier reached world →
    Returns vigil.watch.isCancelled world false polled →
    Minimization.Visits settings.inner runner (innerCaller vigil.watch) reached.x
      (({ problem := reached.problem, token := .fresh } : Inner (Shared σ) F n), polled) done state
      moment →
    moment.2.1.1.isCancelled = true → outer.report.iterations = done ∧ later = []

theorem Course.heeds (stays : Shared.Leaves Token.Stays vigil.meanwhile)
    (watched : vigil.watch.Keeping (Shared.Between Shared.Stays))
    (keeping : progress.problem.Keeping (Shared.Between Shared.Stays))
    (course : Course settings runner vigil.watch progress before turned final last after) :
    Heeds settings runner vigil progress before (turned ++ final) where
  between _ _ _ _ split turns set := course.over_of_set stays split turns set
  within := by
    intro earlier outer later reached world polled done state moment split turns asks visits set
    obtain ⟨_, _, left, turns', makes⟩ := course.made split
    obtain ⟨rfl, rfl⟩ := turns.unique turns'
    constructor
    · obtain ⟨_, _, _, _, _, asks', minimizes, _⟩ := makes
      obtain ⟨_, rfl⟩ := returns_unique asks asks'
      exact inner_stops stays minimizes visits set
    · cases later with
      | nil => rfl
      | cons next later =>
        have further : turned ++ final = (earlier ++ [outer]) ++ next :: later := by
          rw [split, List.append_assoc, List.singleton_append]
        obtain ⟨top, begun, _, turned, _⟩ := course.made further
        -- the offsets have moved in between, and the token is still set
        obtain ⟨_, _, left', _, turns', makes', adjusts⟩ := turned.latest
        obtain ⟨rfl, rfl⟩ := turns.unique turns'
        obtain ⟨found, _⟩ := turns.keeps Shared.stays_lasting watched keeping
        obtain ⟨kept, ended⟩ := makes'.set_after watched found asks visits set
        have moved : begun.1.1.isCancelled = true :=
          kept.adjustOffsets Shared.stays_lasting _ _ _ _ _ adjusts ended
        exact course.over_of_set stays further turned moved

end Interrupted

/-- A solve leaves the token alone: what everybody else keeps of the token and of all that is
shared, the solve keeps. A token that nobody clears is heeded. A solve that leaves it set is no
success, and one that finds it set does nothing. -/
theorem solve_interrupted {σ F : Type} [Unbounded F] {n : Nat} (settings : PenaltySettings F)
    (runner : Runner) (vigil : Vigil σ F) (x : Vector F n)
    (objective : Nonlinear Nat (Shared σ) F n) (constraints : List (Constraint Nat (Shared σ) F n))
    (stepSizes : Array F) (solution : Solution (Shared σ) F n) (before after : Token × σ)
    (stays : Leaves vigil objective constraints Shared.Stays)
    (ran : (solve settings runner vigil.watch x objective constraints stepSizes).run before =
      .ok (solution, after)) :
    (∀ Kept, Lasting Kept → Leaves vigil objective constraints Kept → Kept before after) ∧
    ∃ problem turned final last finished,
      Problem.create objective constraints stepSizes = .ok problem ∧
      Course settings runner vigil.watch (.begun x problem) (before, ()) turned final last
        (finished, ()) ∧
      solution.report.outerIterations = (turned ++ final).length ∧
      Heeds settings runner vigil (.begun x problem) (before, ()) (turned ++ final) ∧
      (after.1.isCancelled = true →
        (solution.report.status = .unbounded ↔
          ∃ outer, (turned ++ final).getLast? = some outer ∧ outer.report.status = .unbounded) ∧
        (solution.report.status ≠ .unbounded → solution.report.status = .suboptimal)) ∧
      (before.1.isCancelled = true →
        solution.x = x ∧ solution.report.evaluations = 0 ∧
        solution.constraints.map (·.offset) = constraints.map (·.offset)) := by
  have returned : Returns (solve settings runner vigil.watch x objective constraints stepSizes)
      (before, ()) solution (after, ()) := ran
  refine ⟨?_, ?_⟩
  · intro Kept lasting leaves
    have kept : Shared.Between Kept (before, ()) (after, ()) :=
      solve_keeps (Shared.between_lasting lasting) leaves.watch returned leaves.objective
        leaves.constraints
    exact kept
  · obtain ⟨problem, turned, final, last, finished, asked, valued, status, value, worst, created,
      course, read, measured, judged, rfl⟩ := solve_course returned
    have keeping := Problem.create_keeping created stays.objective stays.constraints
    have heeds := course.heeds stays.meanwhile stays.watch keeping
    obtain ⟨success_iff, unbounded_iff⟩ := finalStatus_iff judged
    refine ⟨problem, turned, final, last, finished.1, created, course,
      course.outerIterations_eq.trans (Nat.zero_add _), heeds, ?_, ?_⟩
    · intro set
      refine ⟨unbounded_iff.trans course.unbounded_iff, fun bounded => ?_⟩
      have failed : status ≠ .success := by
        intro success
        obtain ⟨unset, _⟩ := success_iff.mp success
        exact nomatch set.symm.trans unset
      show status = .suboptimal
      cases status with
      | success => exact absurd rfl failed
      | suboptimal => rfl
      | unbounded => exact absurd rfl bounded
    · intro set
      have none : turned ++ final = [] := heeds.between [] _ _ _ rfl (.none _ _) set
      obtain ⟨rfl, _⟩ := course.nothing none
      refine ⟨rfl, rfl, ?_⟩
      rw [← Problem.create_offsets created]
      exact List.map_map

/-! A square that sets the token when it is evaluated for the fifth time. -/

def trip (limit : Nat) : Shared Nat Unit :=
  modify fun shared => (⟨shared.1.isCancelled || shared.2 == limit⟩, shared.2 + 1)

def tripping : Nonlinear Nat (Shared Nat) Float 1 :=
  .create #[0]
    (fun x => do
      trip 4
      pure (x.get ⟨0, Nat.one_pos⟩ * x.get ⟨0, Nat.one_pos⟩))
    fun x _ => pure (some (Vector.replicate 1 (2 * x.get ⟨0, Nat.one_pos⟩)))

def target : Constraint Nat (Shared Nat) Float 1 :=
  .create (.linear { terms := [(0, 1)], rhs := 1 }) .equal

theorem tripping_leaves : Leaves .alone tripping [target] Shared.Stays where
  meanwhile := Shared.stays_lasting.keeps_pure ()
  note _ := Shared.stays_lasting.keeps_pure ()
  objective :=
    { value := fun x => Shared.stays_lasting.keeps_bind
        (fun before done after ran set => by
          rw [returns_modify.mp ran]
          exact (Bool.or_eq_true _ _).mpr (.inl set))
        fun _ => Shared.stays_lasting.keeps_pure _
      gradient := fun _ _ => Shared.stays_lasting.keeps_pure _ }
  constraints constraint member := by
    rw [List.mem_singleton.mp member]
    trivial

theorem solve_interrupted_tripping :
    ∃ (solution : Solution (Shared Nat) Float 1) (shared : Token × Nat),
      (solve .standard .inOrder Vigil.alone.watch #v[0] tripping [target] #[1]).run (.fresh, 0) =
        .ok (solution, shared) ∧
      Leaves .alone tripping [target] Shared.Stays ∧ shared.1.isCancelled = true ∧
      solution.report.outerIterations = 2 ∧ solution.report.status = .suboptimal := by
  obtain ⟨⟨solution, shared⟩, ran, set, counted, bounded⟩ :
      Yields
        ((solve .standard .inOrder Vigil.alone.watch #v[0] tripping [target] #[1]).run (.fresh, 0))
        (fun outcome => outcome.2.1.isCancelled = true ∧
          outcome.1.report.outerIterations = 2 ∧ outcome.1.report.status ≠ .unbounded) := by
    decide +kernel
  obtain ⟨_, _, _, _, _, _, _, _, _, _, judged, _⟩ :=
    solve_interrupted .standard .inOrder .alone #v[0] tripping [target] #[1] solution _ shared
      tripping_leaves ran
  exact ⟨solution, shared, ran, tripping_leaves, set, counted, (judged set).2 bounded⟩

end Penalty

end Descent

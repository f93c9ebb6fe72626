import Descent.Proofs.Answer

/-!
What a successful end says about the gradient that is returned. The gradient test is made on the
iterate, while the answer is the first evaluation with the least value. The two are linked by
their values only, so another evaluation of equal value may be the one that passed the test; and
when the direction vanishes no test was passed at all.
-/

namespace Descent

open Scalar Execution

namespace Minimization

variable {F : Type} [Unbounded F] {n : Nat}

def Meets (kernels : Kernels F n) (settings : Settings F) (first evaluation : Evaluation F n) :
    Prop :=
  let tolerance :=
    settings.gradientTolerance * maxNum 1 (sqrt (kernels.normSquared first.gradient))
  kernels.normSquared evaluation.gradient ≤ tolerance * tolerance

instance (kernels : Kernels F n) (settings : Settings F) (first evaluation : Evaluation F n) :
    Decidable (Meets kernels settings first evaluation) :=
  Scalar.atMostDecidable _ _

section Course

variable {m : Type → Type} [Monad m] [MonadExceptOf Fault m] {World : Type} [Execution m World]

/-- Some check of the run from `x` left a real iterate, and it was this evaluation. -/
def Judged (settings : Settings F) (runner : Runner) (caller : Caller m F n) (x : Vector F n)
    (before : World) (evaluation : Evaluation F n) : Prop :=
  ∃ started begun done state reached termination? checked asked,
    Returns (start (Kernels.shared F n settings.threads runner) settings caller x) before
      started begun ∧
    Passes (Kernels.shared F n settings.threads runner) settings caller 0 started begun done state
      reached ∧
    Returns (check (Kernels.shared F n settings.threads runner) settings caller done state) reached
      (termination?, checked) asked ∧
    checked.real = true ∧ evaluation = ⟨checked.x, checked.value, checked.gradient⟩

variable [Lawful F]
variable {settings : Settings F} {runner : Runner} {caller : Caller m F n} {x : Vector F n}
variable {before middle after : Journal F n × World} {first : Evaluation F n} {ended : Ended F n}
variable {answer : Vector F n × Report F}

theorem toleranceSquared_of_faithful {begun evaluations : List (Evaluation F n)}
    {state : State F n} (threads : 0 < settings.threads)
    (faithful : Faithful (Kernels.shared F n settings.threads runner) first begun evaluations
      state.position) :
    toleranceSquared settings state =
      settings.gradientTolerance * maxNum 1
          (sqrt ((Kernels.shared F n settings.threads runner).normSquared first.gradient)) *
        (settings.gradientTolerance * maxNum 1
          (sqrt ((Kernels.shared F n settings.threads runner).normSquared first.gradient))) := by
  have kept : state.initialGradientNorm = _ := faithful.initialGradientNorm
  rw [toleranceSquared, kept, Kernels.shared_normSquared_turned settings.threads runner threads]

/-- An iterate whose value is the least of the whole run converges if its gradient meets the
tolerance. -/
theorem verdict?_of_meets {begun evaluations all : List (Evaluation F n)} {state : State F n}
    (threads : 0 < settings.threads)
    (faithful : Faithful (Kernels.shared F n settings.threads runner) first begun evaluations
      state.position)
    (grown : evaluations <+: all) (real : state.real = true)
    (atMost : state.value ≤ (Tally.after first.point all).best.value)
    (met : Meets (Kernels.shared F n settings.threads runner) settings first
      ⟨state.x, state.value, state.gradient⟩) :
    verdict? (Kernels.shared F n settings.threads runner) settings state = some .converged := by
  obtain ⟨later, rfl⟩ := grown
  have counted : state.tally = .after first.point evaluations := faithful.tally
  rw [verdict?_eq_converged_iff, toleranceSquared_of_faithful threads faithful, counted]
  exact ⟨real, Lawful.le_trans atMost (Tally.after_best_le first.point evaluations later), met⟩

omit [Lawful F] in
theorem course_status
    (course : Course settings runner caller x before first ended middle answer after) :
    answer.2.status = answer.2.termination.status := by
  obtain ⟨termination, _, rfl⟩ := course.answers
  rfl

theorem course_success
    (course : Course settings runner caller x before first ended middle answer after)
    (success : answer.2.status = .success) :
    answer.2.termination = ended.termination ∧
    verdict? (Kernels.shared F n settings.threads runner) settings ended.state =
      some ended.termination ∧
    ∃ earlier least later, Journal.evaluations after.1 = earlier ++ least :: later ∧
      Leads earlier least later ∧ least.value < Unbounded.infinity ∧
      (Tally.after x (Journal.evaluations after.1)).best =
        ⟨least.point, least.gradient, least.value⟩ ∧
      answer.1 = least.point ∧
      answer.2.gradientNorm =
        sqrt ((Kernels.shared F n settings.threads runner).normSquared least.gradient) := by
  obtain ⟨termination, judged, rfl⟩ := course.answers
  rcases judged with ⟨finite, rfl⟩ | ⟨_, rfl⟩
  · obtain ⟨_, _, _, _, last, world, _, ends⟩ := course.runs
    refine ⟨rfl, ends_verdict ends success, ?_⟩
    obtain ⟨earlier, least, later, split, leads, below, best⟩ := Tally.leads_of_finite finite
    refine ⟨earlier, least, later, split, leads, below, best, ?_⟩
    simp [best]
  · exact nomatch success

omit [Lawful F] in
theorem judged_ended
    (course : Course settings runner caller x before first ended middle answer after)
    (real : ended.state.real = true) :
    Judged settings runner caller.recorded x before
      ⟨ended.state.x, ended.state.value, ended.state.gradient⟩ := by
  obtain ⟨started, begun, starts, _, last, world, passes, ends⟩ := course.runs
  rcases ends with checks | ⟨asked, checks, _⟩
  · exact ⟨started, begun, _, last, world, _, _, _, starts, passes, checks, real, rfl⟩
  · exact ⟨started, begun, _, last, world, _, _, _, starts, passes, checks, real, rfl⟩

/-- In a run that ends successfully, an evaluation that was judged, has the least value and meets
the tolerance is the one at which the run converged. -/
theorem judged_reached {evaluation : Evaluation F n}
    (course : Course settings runner caller x before first ended middle answer after)
    (success : answer.2.status = .success)
    (judged : Judged settings runner caller.recorded x before evaluation)
    (atMost : evaluation.value ≤ (Tally.after x (Journal.evaluations after.1)).best.value)
    (met : Meets (Kernels.shared F n settings.threads runner) settings first evaluation) :
    ended.termination = .converged ∧ ended.state.real = true ∧
      evaluation = ⟨ended.state.x, ended.state.value, ended.state.gradient⟩ := by
  obtain ⟨started, begun, starts, opened, runs⟩ := course.runs
  obtain ⟨_, _, done, state, reached, termination?, checked, asked, starts', passes, checks, real,
    rfl⟩ := judged
  -- the judged check lies on the run, because a program has one outcome only
  obtain ⟨rfl, rfl⟩ := returns_unique starts starts'
  rw [← course.startsAt] at atMost
  rcases check_of_runs runs passes checks with rfl | ⟨next, world, rfl, advances, rest⟩
  · have accepted := verdict?_of_meets course.threads course.faithful course.grown real atMost met
    rw [(course_success course success).2.1] at accepted
    exact ⟨Option.some.inj accepted, real, rfl⟩
  -- the run went on, so this check had found no reason to stop, convergence included
  · have seen := check_faithful (passes_faithful opened passes) checks
    have kept := (runs_faithful (advances_faithful seen.anew advances) rest).kept
    have accepted :=
      verdict?_of_meets course.threads seen (kept.trans course.grown) real atMost met
    rw [check_none checks] at accepted
    exact nomatch accepted

end Course

/-- A run that reports convergence has reached an evaluation within the tolerance, with the least
value. What is returned is the first evaluation with that value; if it was judged at all, it meets
the tolerance exactly if it is the one that was reached. -/
theorem converged_meets_iff_reached {σ : Type} [Lawful F] (settings : Settings F)
    (runner : Runner) (caller : Caller (StateT σ (Except Fault)) F n) (x found : Vector F n)
    (report : Report F) (before after : σ)
    (ran : (minimize settings runner caller x).run before = .ok ((found, report), after))
    (converged : report.termination = .converged) :
    ∃ journal first rest earlier least later reached,
      ((minimize settings runner caller.recorded x).run []).run before =
        .ok (((found, report), journal), after) ∧
      Journal.evaluations journal = first :: rest ∧ first.point = x ∧
      Journal.evaluations journal = earlier ++ least :: later ∧ Leads earlier least later ∧
      found = least.point ∧
      report.gradientNorm =
        sqrt ((Kernels.shared F n settings.threads runner).normSquared least.gradient) ∧
      reached ∈ least :: later ∧ (reached.value == least.value) = true ∧
      Judged settings runner caller.recorded x ([], before, ()) reached ∧
      Meets (Kernels.shared F n settings.threads runner) settings first reached ∧
      (Judged settings runner caller.recorded x ([], before, ()) least →
        (Meets (Kernels.shared F n settings.threads runner) settings first least ↔
          reached = least)) := by
  obtain ⟨journal, recorded⟩ := minimize_recorded_iff.mp ran
  have returned : Returns (minimize settings runner caller.recorded x) ([], before, ())
      (found, report) (journal, after, ()) := recorded
  obtain ⟨first, ended, middle, course⟩ := minimize_course rfl returned
  have status : report.status = .success :=
    (course_status course).trans (congrArg Termination.status converged)
  obtain ⟨named, accepted, earlier, least, later, split, leads, below, best, point, norm⟩ :=
    course_success course status
  obtain ⟨rest, begins⟩ := course.begins
  rw [← named, converged, verdict?_eq_converged_iff,
    toleranceSquared_of_faithful course.threads course.faithful] at accepted
  obtain ⟨real, atMost, small⟩ := accepted
  have counted : ended.state.tally = .after x (Journal.evaluations journal) := by
    rw [← course.startsAt, course.settled real]
    exact course.faithful.tally
  rw [counted, best] at atMost
  have defined := Lawful.isNaN_eq_false_iff.mpr (Lawful.defined_of_le atMost).1
  -- all that came before the returned evaluation is worse, so the iterate came after it
  have member := course.faithful.evaluated real (Lawful.lt_of_le_of_lt atMost below)
  rw [← course.settled real, split] at member
  have behind : ⟨ended.state.x, ended.state.value, ended.state.gradient⟩ ∈ least :: later := by
    rcases List.mem_append.mp member with ahead | behind
    · exact absurd atMost (Lawful.not_le_of_lt (leads.below _ ahead defined))
    · exact behind
  have atLeast : least.value ≤ ended.state.value := by
    rcases List.mem_cons.mp behind with same | tail
    · rw [← same]
      exact (Lawful.defined_of_le atMost).1
    · exact leads.atMost _ tail defined
  refine ⟨journal, first, rest, earlier, least, later, _, recorded, begins, course.startsAt, split,
    leads, point, norm, behind, Lawful.beq_iff.mpr ⟨atMost, atLeast⟩, judged_ended course real,
    small, ?_⟩
  intro judged
  constructor
  · intro met
    refine (judged_reached course status judged ?_ met).2.2.symm
    rw [best]
    exact (Lawful.defined_of_le atMost).2
  · intro same
    rw [← same]
    exact small

/-- The raised square converges at its minimum, from a point beside it of the same value. -/
theorem converged_meets_iff_reached_raisedSquare :
    ∃ found report,
      (minimize Settings.standard .inOrder
        (Caller.ofFunction raisedSquare : Caller (StateT Unit (Except Fault)) Float 1)
        nearMinimum).run () = .ok ((found, report), ()) ∧
      report.termination = .converged ∧
      ∃ journal first rest earlier least later reached,
        Journal.evaluations journal = first :: rest ∧ first.point = nearMinimum ∧
        Journal.evaluations journal = earlier ++ least :: later ∧ Leads earlier least later ∧
        found = least.point ∧ reached ∈ least :: later ∧
        Meets (Kernels.shared Float 1 1 .inOrder) Settings.standard first reached ∧
        (Judged Settings.standard .inOrder
            (Caller.ofFunction raisedSquare : Caller (StateT Unit (Except Fault)) Float 1).recorded
            nearMinimum ([], (), ()) least →
          (Meets (Kernels.shared Float 1 1 .inOrder) Settings.standard first least ↔
            reached = least)) := by
  obtain ⟨⟨⟨found, report⟩, _⟩, ran, converged⟩ :
      Yields
        ((minimize Settings.standard .inOrder
          (Caller.ofFunction raisedSquare : Caller (StateT Unit (Except Fault)) Float 1)
          nearMinimum).run ())
        (fun outcome => outcome.1.2.termination = .converged) := by
    decide +kernel
  obtain ⟨journal, first, rest, earlier, least, later, reached, _, begins, startsAt, split, leads,
      point, _, member, _, _, met, judged⟩ :=
    converged_meets_iff_reached _ _ _ _ _ _ _ _ ran converged
  exact ⟨found, report, ran, converged, journal, first, rest, earlier, least, later, reached,
    begins, startsAt, split, leads, point, member, met, judged⟩

/-- It is the start that is returned then, with a gradient outside the tolerance. -/
theorem converged_outside_tolerance :
    Yields
      (((minimize Settings.standard .inOrder
        (Caller.ofFunction raisedSquare : Caller (StateT Unit (Except Fault)) Float 1).recorded
        nearMinimum).run []).run ())
      (fun outcome => outcome.1.1.2.termination = .converged ∧
        ∃ first ∈ (Journal.evaluations outcome.1.2).head?, outcome.1.1.1 = first.point ∧
          outcome.1.1.2.gradientNorm =
            sqrt ((Kernels.shared Float 1 1 .inOrder).normSquared first.gradient) ∧
          ¬ Meets (Kernels.shared Float 1 1 .inOrder) Settings.standard first first) := by
  decide +kernel

/-- A run that reports a vanished direction as a success has accepted no gradient: all evaluations
with the least value that it judged miss the tolerance. So the returned gradient can only meet it
if the run never judged it. -/
theorem zeroDirection_judged_misses {σ : Type} [Lawful F] (settings : Settings F)
    (runner : Runner) (caller : Caller (StateT σ (Except Fault)) F n) (x found : Vector F n)
    (report : Report F) (before after : σ)
    (ran : (minimize settings runner caller x).run before = .ok ((found, report), after))
    (vanished : report.termination = .zeroDirection) :
    ∃ journal first rest earlier least later,
      ((minimize settings runner caller.recorded x).run []).run before =
        .ok (((found, report), journal), after) ∧
      Journal.evaluations journal = first :: rest ∧ first.point = x ∧
      Journal.evaluations journal = earlier ++ least :: later ∧ Leads earlier least later ∧
      found = least.point ∧
      report.gradientNorm =
        sqrt ((Kernels.shared F n settings.threads runner).normSquared least.gradient) ∧
      report.status = .success ∧
      (∀ evaluation, Judged settings runner caller.recorded x ([], before, ()) evaluation →
        evaluation.value ≤ least.value →
        ¬ Meets (Kernels.shared F n settings.threads runner) settings first evaluation) ∧
      (Meets (Kernels.shared F n settings.threads runner) settings first least →
        ¬ Judged settings runner caller.recorded x ([], before, ()) least) := by
  obtain ⟨journal, recorded⟩ := minimize_recorded_iff.mp ran
  have returned : Returns (minimize settings runner caller.recorded x) ([], before, ())
      (found, report) (journal, after, ()) := recorded
  obtain ⟨first, ended, middle, course⟩ := minimize_course rfl returned
  have status : report.status = .success :=
    (course_status course).trans (congrArg Termination.status vanished)
  obtain ⟨named, _, earlier, least, later, split, leads, _, best, point, norm⟩ :=
    course_success course status
  obtain ⟨rest, begins⟩ := course.begins
  have misses : ∀ evaluation,
      Judged settings runner caller.recorded x ([], before, ()) evaluation →
      evaluation.value ≤ least.value →
      ¬ Meets (Kernels.shared F n settings.threads runner) settings first evaluation := by
    intro evaluation judged atMost met
    have atBest : evaluation.value ≤ (Tally.after x (Journal.evaluations journal)).best.value := by
      rw [best]
      exact atMost
    have impossible := (judged_reached course status judged atBest met).1
    rw [← named, vanished] at impossible
    exact nomatch impossible
  refine ⟨journal, first, rest, earlier, least, later, recorded, begins, course.startsAt, split,
    leads, point, norm, status, misses, ?_⟩
  intro met judged
  exact misses least judged (Lawful.isNaN_eq_false_iff.mp leads.defined) met

/-- An objective that answers by how often it was asked, and takes its minimum back. -/
def wavering : Caller (StateT Nat (Except Fault)) Float 1 :=
  { Caller.ofFunction fun _ => (0, #v[1]) with
    evaluate := fun _ => do
      let asked ← getModify (· + 1)
      pure (match asked with
        | 0 => (1, #v[-1])
        | 1 => (0, #v[0])
        | _ => (0, #v[1])) }

/-- Here the returned gradient meets the tolerance. It is that of a probe, which was not judged. -/
theorem zeroDirection_judged_misses_wavering :
    ∃ found report after,
      (minimize Settings.standard .inOrder wavering #v[0]).run 0 =
        .ok ((found, report), after) ∧
      report.termination = .zeroDirection ∧ report.status = .success ∧
      ∃ journal first rest earlier least later,
        Journal.evaluations journal = first :: rest ∧ first.point = #v[0] ∧
        Journal.evaluations journal = earlier ++ least :: later ∧ Leads earlier least later ∧
        found = least.point ∧
        Meets (Kernels.shared Float 1 1 .inOrder) Settings.standard first least ∧
        ¬ Judged Settings.standard .inOrder wavering.recorded #v[0] ([], 0, ()) least := by
  obtain ⟨⟨⟨⟨found, report⟩, journal⟩, after⟩, recorded, vanished, meets⟩ :
      Yields (((minimize Settings.standard .inOrder wavering.recorded #v[0]).run []).run 0)
        (fun outcome => outcome.1.1.2.termination = .zeroDirection ∧
          ∀ first ∈ (Journal.evaluations outcome.1.2).head?,
            ∀ evaluation ∈ Journal.evaluations outcome.1.2,
              outcome.1.1.2.gradientNorm =
                  sqrt ((Kernels.shared Float 1 1 .inOrder).normSquared evaluation.gradient) →
                Meets (Kernels.shared Float 1 1 .inOrder) Settings.standard first evaluation) := by
    decide +kernel
  have ran := minimize_recorded_iff.mpr ⟨journal, recorded⟩
  obtain ⟨journal', first, rest, earlier, least, later, again, begins, startsAt, split, leads,
      point, norm, status, _, unjudged⟩ :=
    zeroDirection_judged_misses _ _ _ _ _ _ _ _ ran vanished
  obtain rfl : journal' = journal := by
    rw [recorded] at again
    cases again
    rfl
  have met := meets first (by simp [begins]) least (by simp [split]) norm
  exact ⟨found, report, after, ran, vanished, status, journal', first, rest, earlier, least, later,
    begins, startsAt, split, leads, point, met, unjudged met⟩

def tiltedKink (x : Vector Float 1) : Float × Vector Float 1 :=
  let u := x.get ⟨0, Nat.one_pos⟩
  (Float.abs u - 2 * u, Vector.replicate 1 (u / Float.abs u - 2))

/-- The gradient that is returned as a success is undefined. -/
theorem zeroDirection_undefined_gradient :
    Yields
      (((minimize Settings.standard .inOrder
        (Caller.ofFunction tiltedKink : Caller (StateT Unit (Except Fault)) Float 1).recorded
        #v[0]).run []).run ())
      (fun outcome => outcome.1.1.2.status = .success ∧
        outcome.1.1.2.termination = .zeroDirection ∧ isNaN outcome.1.1.2.gradientNorm = true ∧
        ∃ first ∈ (Journal.evaluations outcome.1.2).head?, outcome.1.1.1 = first.point ∧
          isNaN first.gradient[0] = true ∧
          ¬ Meets (Kernels.shared Float 1 1 .inOrder) Settings.standard first first) := by
  decide +kernel

end Minimization

end Descent

import Descent.Proofs.Binary
import Descent.Proofs.Faithful
import Descent.Proofs.Mirror
import Descent.Proofs.Spread

/-!
What a minimization answers. The journal of a run lists every answer of the objective in order;
the point, value and gradient norm that are reported are those of the first evaluation with the
least value, and nothing that a fit predicted is among them.
-/

namespace Descent

open Scalar Execution

namespace Minimization

section General

variable {m : Type → Type} [Monad m] [MonadExceptOf Fault m] {World : Type} [Execution m World]
variable {F : Type} [Unbounded F] {n : Nat}
variable {kernels : Kernels F n} {settings : Settings F} {caller : Caller m F n}
variable {before after : Journal F n × World} {state : State F n} {x : Vector F n}

theorem start_faithful (fresh : before.1 = [])
    (ran : Returns (start kernels settings caller.recorded x) before state after) :
    ∃ first, first.point = x ∧
      Faithful kernels first [first] (Journal.evaluations after.1) state.position := by
  obtain ⟨value, gradient, answered, rfl⟩ := start_returns ran
  have begun := Caller.evaluations_of_evaluate answered
  rw [fresh, Journal.evaluations_nil, List.nil_append] at begun
  rw [begun]
  exact ⟨⟨x, value, gradient⟩, rfl, List.prefix_rfl, rfl, rfl,
    fun _ _ => List.mem_singleton_self _⟩

/-- What is answered, given the tally of all evaluations: a best value that is not finite
overrides the reason to stop. -/
def Answers (kernels : Kernels F n) (tally : Tally F n) (ended : Ended F n)
    (answer : Vector F n × Report F) : Prop :=
  ∃ termination,
    (isFinite tally.best.value = true ∧ termination = ended.termination ∨
      isFinite tally.best.value = false ∧ termination = .notFinite) ∧
    answer =
      (tally.best.point,
        { status := termination.status
          termination
          value := tally.best.value
          gradientNorm := sqrt (kernels.normSquared tally.best.gradient)
          iterations := ended.iterations
          evaluations := tally.evaluations })

theorem conclude_answers {first : Evaluation F n} {begun : List (Evaluation F n)}
    {ended : Ended F n} {answer : Vector F n × Report F}
    (faithful : Faithful kernels first begun (Journal.evaluations before.1) ended.state.position)
    (ran : Returns (conclude kernels caller.recorded ended) before answer after) :
    begun <+: Journal.evaluations after.1 ∧
    Answers kernels (.after first.point (Journal.evaluations after.1)) ended answer ∧
    (ended.state.real = true →
      Journal.evaluations after.1 = Journal.evaluations before.1) := by
  obtain ⟨final, middle, termination, settled, judged, rfl⟩ := conclude_returns ran
  have same : Journal.evaluations after.1 = Journal.evaluations middle.1 := by
    rcases judged with ⟨_, _, rfl⟩ | ⟨_, _, noted⟩
    · rfl
    · exact Caller.evaluations_of_note noted
  have reached : Faithful kernels first begun (Journal.evaluations middle.1) final.position := by
    rcases settled with ⟨_, rfl, rfl⟩ | ⟨_, answered⟩
    · exact faithful
    · exact evaluateIterate_faithful faithful answered
  have counted : final.tally = .after first.point (Journal.evaluations after.1) := by
    rw [same]
    exact reached.tally
  rw [← counted]
  refine ⟨same ▸ reached.kept, ⟨termination, ?_, rfl⟩, fun real => ?_⟩
  · rcases judged with ⟨finite, named, _⟩ | ⟨infinite, named, _⟩
    · exact Or.inl ⟨finite, named⟩
    · exact Or.inr ⟨infinite, named⟩
  · rcases settled with ⟨_, _, rfl⟩ | ⟨fitted, _⟩
    · exact same
    · exact absurd (real.symm.trans fitted) (by simp)

/-- The course of a whole run: it begins with the evaluation at the start, ends at a state that
is faithful to the evaluations until then, and answers from the tally of all of them. -/
structure Course (settings : Settings F) (runner : Runner) (caller : Caller m F n)
    (x : Vector F n) (before : Journal F n × World) (first : Evaluation F n) (ended : Ended F n)
    (middle : Journal F n × World) (answer : Vector F n × Report F)
    (after : Journal F n × World) : Prop where
  startsAt : first.point = x
  begins : ∃ rest, Journal.evaluations after.1 = first :: rest
  threads : 0 < settings.threads
  runs : ∃ started begun,
    Returns (start (Kernels.shared F n settings.threads runner) settings caller.recorded x)
      before started begun ∧
    Faithful (Kernels.shared F n settings.threads runner) first [first]
      (Journal.evaluations begun.1) started.position ∧
    Runs (Kernels.shared F n settings.threads runner) settings caller.recorded 0 started begun
      ended middle
  faithful : Faithful (Kernels.shared F n settings.threads runner) first [first]
    (Journal.evaluations middle.1) ended.state.position
  settled : ended.state.real = true →
    Journal.evaluations after.1 = Journal.evaluations middle.1
  grown : Journal.evaluations middle.1 <+: Journal.evaluations after.1
  answers : Answers (Kernels.shared F n settings.threads runner)
    (.after x (Journal.evaluations after.1)) ended answer

variable [LawfulMonad m] [Lawful F]

theorem minimize_course {runner : Runner} {answer : Vector F n × Report F}
    (fresh : before.1 = [])
    (ran : Returns (minimize settings runner caller.recorded x) before answer after) :
    ∃ first ended middle, Course settings runner caller x before first ended middle answer
      after := by
  obtain ⟨threads, started, begun, ended, middle, starts, runs, concludes⟩ :=
    minimize_returns ran
  obtain ⟨first, same, faithful⟩ := start_faithful fresh starts
  have reached := runs_faithful faithful runs
  obtain ⟨grown, answers, settled⟩ := conclude_answers reached.anew concludes
  obtain ⟨rest, begins⟩ := reached.kept.trans grown
  rw [same] at answers
  exact ⟨first, ended, middle,
    { startsAt := same
      begins := ⟨rest, begins.symm⟩
      threads
      runs := ⟨started, begun, starts, faithful, runs⟩
      faithful := reached
      settled
      grown
      answers }⟩

end General

/-- The number of evaluations is reported. If a value is below infinity, the answer is the first
evaluation with the least value; otherwise the start is given back with an infinite value. -/
theorem answer_of_first_least {σ F : Type} [Unbounded F] [Lawful F] {n : Nat}
    (settings : Settings F) (runner : Runner) (caller : Caller (StateT σ (Except Fault)) F n)
    (x found : Vector F n) (report : Report F) (before after : σ)
    (ran : (minimize settings runner caller x).run before = .ok ((found, report), after)) :
    ∃ journal,
      ((minimize settings runner caller.recorded x).run []).run before =
        .ok (((found, report), journal), after) ∧
      report.evaluations = (Journal.evaluations journal).length ∧
      ((∃ evaluation ∈ Journal.evaluations journal, evaluation.value < Unbounded.infinity) →
        ∃ earlier least later, Journal.evaluations journal = earlier ++ least :: later ∧
          Leads earlier least later ∧ found = least.point ∧ report.value = least.value ∧
          report.gradientNorm =
            sqrt ((Kernels.shared F n settings.threads runner).normSquared least.gradient)) ∧
      ((∀ evaluation ∈ Journal.evaluations journal,
          ¬ evaluation.value < Unbounded.infinity) →
        found = x ∧ report.value = Unbounded.infinity ∧ report.gradientNorm = 0) := by
  obtain ⟨journal, recorded⟩ := minimize_recorded_iff.mp ran
  have returned : Returns (minimize settings runner caller.recorded x) ([], before, ())
      (found, report) (journal, after, ()) := recorded
  obtain ⟨first, ended, middle, course⟩ := minimize_course rfl returned
  obtain ⟨termination, _, answered⟩ := course.answers
  obtain ⟨rfl, rfl⟩ := Prod.mk.inj answered
  refine ⟨journal, recorded, Tally.after_evaluations x _, ?_, ?_⟩
  · rintro ⟨evaluation, member, below⟩
    rcases Tally.after_best x (Journal.evaluations journal) with
      ⟨earlier, least, later, split, leads, _, best⟩ | ⟨none, _⟩
    · rw [best]
      exact ⟨earlier, least, later, split, leads, rfl, rfl, rfl⟩
    · exact absurd below (none evaluation member)
  · intro none
    rcases Tally.after_best x (Journal.evaluations journal) with
      ⟨earlier, least, later, split, _, below, _⟩ | ⟨_, best⟩
    · have member : least ∈ Journal.evaluations journal := by simp [split]
      exact absurd below (none least member)
    · rw [best]
      refine ⟨rfl, rfl, ?_⟩
      rw [Kernels.shared_normSquared_zeros, Lawful.sqrt_zero]

/-- A square that is raised so far that values near the minimum round to the same number. -/
def raisedSquare (x : Vector Float 1) : Float × Vector Float 1 :=
  let u := x.get ⟨0, Nat.one_pos⟩
  (1 + u * u, Vector.replicate 1 (2 * u))

def nearMinimum : Vector Float 1 := #v[Float.ofBits 0x3e10000000000000]

/-- All three values of this run are equal, and the first point is the answer. -/
theorem answer_of_first_least_raisedSquare :
    ∃ found report journal,
      (minimize Settings.standard .inOrder
        (Caller.ofFunction raisedSquare : Caller (StateT Unit (Except Fault)) Float 1)
        nearMinimum).run () = .ok ((found, report), ()) ∧
      report.evaluations = 3 ∧ (Journal.evaluations journal).length = 3 ∧
      ∃ earlier least later, Journal.evaluations journal = earlier ++ least :: later ∧
        Leads earlier least later ∧ found = least.point ∧ report.value = least.value ∧
        report.gradientNorm =
          sqrt ((Kernels.shared Float 1 1 .inOrder).normSquared least.gradient) := by
  obtain ⟨⟨⟨found, report⟩, _⟩, ran, three, finite⟩ :
      Yields
        ((minimize Settings.standard .inOrder
          (Caller.ofFunction raisedSquare : Caller (StateT Unit (Except Fault)) Float 1)
          nearMinimum).run ())
        (fun outcome => outcome.1.2.evaluations = 3 ∧
          outcome.1.2.value < Unbounded.infinity) := by
    decide +kernel
  obtain ⟨journal, _, counted, least, infinite⟩ := answer_of_first_least _ _ _ _ _ _ _ _ ran
  have below : ∃ evaluation ∈ Journal.evaluations journal,
      evaluation.value < Unbounded.infinity := by
    apply Classical.byContradiction
    intro none
    have value := (infinite fun evaluation member lower => none ⟨evaluation, member, lower⟩).2.1
    rw [value] at finite
    exact Lawful.not_infinity_lt _ finite
  exact ⟨found, report, journal, ran, three, counted ▸ three, least below⟩

end Minimization

end Descent

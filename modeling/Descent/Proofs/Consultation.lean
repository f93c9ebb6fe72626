import Descent.Proofs.Answer
import Descent.Proofs.Protocol

/-!
What the predicate of a run is asked. Every question follows its own poll of the token, counts the
questions before it, and tells the least value that was evaluated until then; so the values fall
from question to question, down to the reported one. A question that is answered with stop is the
last one, and after a value without bottom a run does not come to a second iteration.
-/

namespace Descent

open Scalar Execution

variable {F : Type} {n : Nat}

section Lowest

variable [Unbounded F]

/-- The least of the evaluated values below infinity, or infinity if there is none. -/
def IsLowest (evaluations : List (Evaluation F n)) (value : F) : Prop :=
  ((∃ evaluation ∈ evaluations, evaluation.value = value ∧ value < Unbounded.infinity) ∨
    value = Unbounded.infinity) ∧
  ∀ evaluation ∈ evaluations, isNaN evaluation.value = false → value ≤ evaluation.value

theorem Tally.after_lowest [Lawful F] (x : Vector F n) (evaluations : List (Evaluation F n)) :
    IsLowest evaluations (after x evaluations).best.value := by
  rcases after_best x evaluations with ⟨earlier, least, later, split, leads, below, best⟩ |
    ⟨none, best⟩
  · rw [best, split]
    refine ⟨.inl ⟨least, by simp, rfl, below⟩, fun other member defined => ?_⟩
    rcases List.mem_append.mp member with first | rest
    · exact Lawful.le_of_lt (leads.below other first defined)
    · rcases List.mem_cons.mp rest with rfl | last
      · exact Lawful.isNaN_eq_false_iff.mp defined
      · exact leads.atMost other last defined
  · rw [best]
    refine ⟨.inr rfl, fun other member defined => ?_⟩
    exact Lawful.le_of_not_lt (Lawful.isNaN_eq_false_iff.mp defined) Lawful.infinity_defined
      (none other member)

theorem Tally.best_defined [Lawful F] (x : Vector F n) (evaluations : List (Evaluation F n)) :
    (after x evaluations).best.value ≤ (after x evaluations).best.value := by
  have same := after_best_le x evaluations []
  rw [List.append_nil] at same
  exact same

end Lowest

namespace Journal

theorem split_append {journal more earlier later : Journal F n} {entry : Entry F n}
    (same : journal ++ more = earlier ++ entry :: later) :
    (∃ rest, journal = earlier ++ entry :: rest ∧ later = rest ++ more) ∨
      ∃ begun, earlier = journal ++ begun ∧ more = begun ++ entry :: later := by
  rcases List.append_eq_append_iff.mp same with ⟨begun, first, second⟩ | ⟨rest, first, second⟩
  · exact .inr ⟨begun, first, second⟩
  · cases rest with
    | nil => exact .inr ⟨[], by rw [first, List.append_nil, List.append_nil], second.symm⟩
    | cons head rest =>
      obtain ⟨rfl, rfl⟩ := List.cons.inj second
      exact .inl ⟨rest, first, rfl⟩

end Journal

section Consulted

variable [Unbounded F]

/-- A run from `x` with this journal has asked one question after each poll, with the number of
those before it and the best value until then. -/
structure Consulted (x : Vector F n) (journal : Journal F n) : Prop where
  asks (earlier later : Journal F n) (y : Vector F n) (best : F) (count : Nat) (stop : Bool) :
    journal = earlier ++ .asked y best count stop :: later →
      (∃ begun, earlier = begun ++ [.polled false]) ∧
      best = (Tally.after x (Journal.evaluations earlier)).best.value
  counts : journal.questions.map (·.iterations) = List.range journal.questions.length
  falls : journal.questions.Pairwise fun first second => second.best ≤ first.best
  least (question : Question F n) : question ∈ journal.questions →
    (Tally.after x (Journal.evaluations journal)).best.value ≤ question.best

variable {x : Vector F n} {journal more : Journal F n}

theorem consulted_begun (evaluation : Evaluation F n) :
    Consulted x [.evaluated evaluation] where
  asks := by
    intro earlier later y best count stop split
    have member : Entry.asked y best count stop ∈ [.evaluated evaluation] := by simp [split]
    cases List.mem_singleton.mp member
  counts := rfl
  falls := .nil
  least := nofun

variable [Lawful F]

namespace Consulted

theorem quiet (consulted : Consulted x journal) (quiet : more.questions = []) :
    Consulted x (journal ++ more) := by
  have same : (journal ++ more).questions = journal.questions := by
    rw [Journal.questions_append, quiet, List.append_nil]
  constructor
  · intro earlier later y best count stop split
    rcases Journal.split_append split with ⟨rest, first, _⟩ | ⟨begun, _, second⟩
    · exact consulted.asks _ _ _ _ _ _ first
    · have member : ⟨y, best, count, stop⟩ ∈ more.questions :=
        Journal.mem_questions.mpr (by simp [second])
      rw [quiet] at member
      exact nomatch member
  · rw [same]
    exact consulted.counts
  · rw [same]
    exact consulted.falls
  · intro question member
    rw [same] at member
    rw [Journal.evaluations_append]
    exact Lawful.le_trans (Tally.after_best_le x _ _) (consulted.least question member)

theorem ask (consulted : Consulted x journal) {state : State F n} {done : Nat}
    (stop : Bool) (counted : journal.questions.length = done)
    (best : state.tally = Tally.after x (Journal.evaluations journal)) :
    Consulted x (journal ++ Minimization.asking state done stop) := by
  have grown : (journal ++ Minimization.asking state done stop).questions =
      journal.questions ++ [⟨state.x, state.tally.best.value, done, stop⟩] :=
    Journal.questions_append _ _
  have still : Journal.evaluations (journal ++ Minimization.asking state done stop) =
      Journal.evaluations journal := by
    rw [Journal.evaluations_append]
    exact List.append_nil _
  constructor
  · intro earlier later y value count stop' split
    rcases Journal.split_append split with ⟨rest, first, _⟩ | ⟨begun, first, second⟩
    · exact consulted.asks _ _ _ _ _ _ first
    · -- of the two new entries only the second one is a question
      rcases begun with _ | ⟨polled, _ | ⟨_, tail⟩⟩
      · simp [Minimization.asking] at second
      · obtain ⟨rfl, ⟨_, rfl, _⟩, _⟩ : polled = .polled false ∧
            (state.x = y ∧ state.tally.best.value = value ∧ done = count ∧ stop = stop') ∧
            later = [] := by
          simpa [Minimization.asking, eq_comm] using second
        refine ⟨⟨journal, first⟩, ?_⟩
        rw [best, first, Journal.evaluations_append, Journal.evaluations_polled, List.append_nil]
      · simp [Minimization.asking] at second
  · rw [grown, List.map_append, consulted.counts, List.length_append, counted]
    exact List.range_succ.symm
  · rw [grown, List.pairwise_append]
    refine ⟨consulted.falls, List.pairwise_singleton _ _, ?_⟩
    intro first member last only
    obtain rfl := List.mem_singleton.mp only
    rw [best]
    exact consulted.least first member
  · intro question member
    rw [still]
    rw [grown] at member
    rcases List.mem_append.mp member with old | new
    · exact consulted.least question old
    · obtain rfl := List.mem_singleton.mp new
      rw [best]
      exact Tally.best_defined x _

end Consulted

/-! Values without bottom. -/

theorem Tally.bottom_of_mem {evaluations : List (Evaluation F n)} {evaluation : Evaluation F n}
    (member : evaluation ∈ evaluations)
    (bottom : (evaluation.value == -Unbounded.infinity) = true) :
    ((after x evaluations).best.value == -Unbounded.infinity) = true := by
  have low := (Lawful.beq_iff.mp bottom).1
  have defined := Lawful.isNaN_eq_false_iff.mpr (Lawful.defined_of_le low).1
  have atMost := (Tally.after_lowest x evaluations).2 evaluation member defined
  have best := Lawful.le_trans atMost low
  refine Lawful.beq_iff.mpr ⟨best, ?_⟩
  have least := Lawful.le_of_beq_neg_infinity bottom (Lawful.defined_of_le best).1
  exact Lawful.le_trans (Lawful.beq_iff.mp bottom).2 least

/-- After a value without bottom at most one iteration is reported. -/
def Bottoms (journal : Journal F n) : Prop :=
  ∀ (earlier later : Journal F n) (evaluation : Evaluation F n),
    journal = earlier ++ .evaluated evaluation :: later →
    (evaluation.value == -Unbounded.infinity) = true → later.iterations ≤ 1

omit [Lawful F] in
theorem bottoms_nil : Bottoms ([] : Journal F n) := by
  intro earlier later evaluation split
  simp at split

omit [Lawful F] in
theorem Bottoms.quiet (bottoms : Bottoms journal) (quiet : more.iterations = 0) :
    Bottoms (journal ++ more) := by
  intro earlier later evaluation split bottom
  rcases Journal.split_append split with ⟨rest, first, rfl⟩ | ⟨begun, _, rfl⟩
  · rw [Journal.iterations_append, quiet]
    exact bottoms earlier rest evaluation first bottom
  · rw [Journal.iterations_append, Journal.iterations_cons] at quiet
    omega

/-- A check looks at the best value first, so there is none when an iteration begins. -/
theorem bottoms_of_bounded
    (bounded : ((Tally.after x (Journal.evaluations journal)).best.value ==
      -Unbounded.infinity) = false)
    (once : more.iterations ≤ 1) : Bottoms (journal ++ more) := by
  intro earlier later evaluation split bottom
  rcases Journal.split_append split with ⟨rest, rfl, _⟩ | ⟨begun, _, rfl⟩
  · have member : evaluation ∈ Journal.evaluations (earlier ++ .evaluated evaluation :: rest) := by
      rw [← List.singleton_append, Journal.evaluations_append, Journal.evaluations_append]
      exact List.mem_append_right _ (List.mem_append_left _ (List.mem_singleton_self _))
    rw [Tally.bottom_of_mem member bottom] at bounded
    exact nomatch bounded
  · rw [Journal.iterations_append, Journal.iterations_cons] at once
    omega

namespace Minimization

variable {m : Type → Type} [Monad m] [MonadExceptOf Fault m] {World : Type} [Execution m World]
variable {kernels : Kernels F n} {settings : Settings F} {caller : Caller m F n}
variable {before after : Journal F n × World} {done : Nat} {state next : State F n}
variable {first : Evaluation F n} {begun : List (Evaluation F n)}

/-- The journal before the check that follows so many iterations. -/
structure Dialogue (x : Vector F n) (done : Nat) (journal : Journal F n) : Prop where
  consulted : Consulted x journal
  asked : journal.questions.length = done
  reported : journal.iterations = done
  bottoms : Bottoms journal

theorem Dialogue.pass {work : Journal F n} (dialogue : Dialogue x done journal)
    (tallied : state.tally = Tally.after x (Journal.evaluations journal))
    (bounded : (state.tally.best.value == -Unbounded.infinity) = false) (works : work.Works) :
    Dialogue x (done + 1) (journal ++ (asking state done false ++ work ++ reporting done next)) where
  consulted := by
    rw [← List.append_assoc, ← List.append_assoc]
    have asked := dialogue.consulted.ask false dialogue.asked tallied
    exact (asked.quiet works.questions).quiet rfl
  asked := by
    rw [Journal.questions_append, Journal.questions_append, Journal.questions_append,
      works.questions, List.length_append, dialogue.asked]
    rfl
  reported := by
    rw [Journal.iterations_append, Journal.iterations_append, Journal.iterations_append,
      works.iterations, dialogue.reported]
    rfl
  bottoms := by
    rw [tallied] at bounded
    refine bottoms_of_bounded bounded ?_
    rw [Journal.iterations_append, Journal.iterations_append, works.iterations]
    exact Nat.le_refl _

theorem Dialogue.closes {ended : Ended F n} {written work : Journal F n}
    (dialogue : Dialogue x ended.iterations journal)
    (tallied : state.tally = Tally.after x (Journal.evaluations journal))
    (closes : Closes kernels settings state ended written) (works : work.Works) :
    Consulted x (journal ++ written ++ work) ∧
      (journal ++ written ++ work).iterations = ended.iterations ∧
      Bottoms (journal ++ written ++ work) := by
  obtain ⟨unreported, asks⟩ := closes.asks
  refine ⟨Consulted.quiet ?_ works.questions, ?_,
    (dialogue.bottoms.quiet unreported).quiet works.iterations⟩
  · rcases asks with silent | ⟨stop, rest, rfl, silent⟩
    · exact dialogue.consulted.quiet silent
    · rw [← List.append_assoc]
      exact (dialogue.consulted.ask stop dialogue.asked tallied).quiet silent
  · rw [Journal.iterations_append, Journal.iterations_append, unreported, works.iterations]
    exact dialogue.reported

theorem passes_dialogue {last : Nat} {left : State F n}
    (faithful : Faithful kernels first begun (Journal.evaluations before.1) state.position)
    (dialogue : Dialogue first.point done before.1)
    (passes : Passes kernels settings caller.recorded done state before last left after) :
    left.tally = Tally.after first.point (Journal.evaluations after.1) ∧
      Dialogue first.point last after.1 := by
  -- what the question tells is the best value of the evaluations so far, as the state is faithful
  obtain ⟨faithful, dialogue⟩ := passes_invariant
    (fun done state world =>
      Faithful kernels first begun (Journal.evaluations world.1) state.position ∧
        Dialogue first.point done world.1)
    (by
      rintro done state before next after ⟨faithful, dialogue⟩ pass
      obtain ⟨_, bounded, work, works, written⟩ := pass_journal pass
      refine ⟨passes_faithful faithful (.next pass (.refl _ _ _)), ?_⟩
      rw [written]
      exact dialogue.pass faithful.tally bounded works)
    passes ⟨faithful, dialogue⟩
  exact ⟨faithful.tally, dialogue⟩

variable [LawfulMonad m] {runner : Runner} {world : World}

theorem minimize_dialogue {answer : Vector F n × Report F}
    (ran : Returns (minimize settings runner caller.recorded x) ([], world) answer after) :
    Consulted x after.1 ∧ after.1.iterations = answer.2.iterations ∧ Bottoms after.1 ∧
      answer.2.value = (Tally.after x (Journal.evaluations after.1)).best.value := by
  obtain ⟨_, started, begun, ended, stopped, starts, runs, concludes⟩ := minimize_returns ran
  obtain ⟨first, rfl, faithful⟩ := start_faithful rfl starts
  obtain ⟨value, gradient, opened⟩ := start_journal starts
  have opening : Dialogue first.point 0 begun.1 := by
    rw [opened]
    exact ⟨consulted_begun _, rfl, rfl, bottoms_nil.quiet rfl⟩
  obtain ⟨last, middle, passes, ends⟩ := runs
  obtain ⟨tallied, dialogue⟩ := passes_dialogue faithful opening passes
  obtain ⟨written, grown, closes⟩ := ends_journal ends
  obtain ⟨work, concluded, works, _⟩ := conclude_journal concludes
  obtain ⟨_, answers, _⟩ := conclude_answers (runs_faithful faithful ⟨last, middle, passes, ends⟩)
    concludes
  obtain ⟨termination, _, rfl⟩ := answers
  rw [concluded, grown]
  obtain ⟨consulted, iterations, bottoms⟩ := dialogue.closes tallied closes works
  refine ⟨consulted, iterations, bottoms, ?_⟩
  rw [← grown, ← concluded]

omit [Lawful F] [LawfulMonad m] in
/-- After the predicate said stop it is not asked again, and no iteration follows. -/
theorem stop_last {iterations count : Nat} {termination : Termination}
    {earlier later : Journal F n} {y : Vector F n} {best : F}
    (finishes : Finishes settings runner caller x world journal iterations termination)
    (split : journal = earlier ++ .asked y best count true :: later) :
    later.questions = [] ∧ later.iterations = 0 ∧ count = iterations := by
  have stopped : ∃ question ∈ journal.questions, question.stop = true :=
    ⟨⟨y, best, count, true⟩, Journal.mem_questions.mpr (by simp [split]), rfl⟩
  obtain rfl := finishes.stopped_iff.mp stopped
  cases finishes with
  | settled _ success => exact nomatch success
  | @fired before rest _ _ goesOn works same =>
    rw [split] at same
    rcases Journal.split_append same.symm with ⟨rest, first, _⟩ | ⟨begun, _, second⟩
    · have member := goesOn (.asked y best count true) (by simp [first])
      exact nomatch member
    · cases begun with
      | nil =>
        obtain ⟨⟨_, _, rfl, _⟩, rfl⟩ := by simpa using second
        exact ⟨works.questions, works.iterations, rfl⟩
      | cons entry begun =>
        obtain ⟨_, second⟩ := List.cons.inj second
        have member : .asked y best count true ∈ .cancelled :: rest := by simp [second]
        rcases List.mem_cons.mp member with impossible | working
        · exact nomatch impossible
        · exact nomatch works _ working

omit [Lawful F] [LawfulMonad m] in
theorem last_stops {iterations : Nat}
    (finishes : Finishes settings runner caller x world journal iterations .terminated) :
    ∃ earlier last, journal.questions = earlier ++ [last] ∧ last.stop = true ∧
      ∀ question ∈ earlier, question.stop = false := by
  cases finishes with
  | settled _ success => exact nomatch success
  | @fired begun rest y best goesOn works same =>
    refine ⟨begun.questions, ⟨y, best, iterations, true⟩, ?_, rfl, goesOn.not_stopped⟩
    rw [same, Journal.questions_append, Journal.questions_cons _ (.cancelled :: rest),
      Journal.questions_cons _ rest, works.questions]
    rfl

omit [LawfulMonad m] in
theorem unbounded_iff [Enclosed F] {answer : Vector F n × Report F} {termination : Termination}
    (consulted : Consulted x journal)
    (value : answer.2.value = (Tally.after x (Journal.evaluations journal)).best.value)
    (finishes : Finishes settings runner caller x world journal answer.2.iterations termination)
    (judged : isFinite answer.2.value = true ∧ answer.2.termination = termination ∨
      isFinite answer.2.value = false ∧ answer.2.termination = .notFinite)
    (status : answer.2.status = answer.2.termination.status) :
    answer.2.status = .unbounded ↔ isFinite answer.2.value = false := by
  rcases judged with ⟨finite, named⟩ | ⟨infinite, named⟩
  · rw [finite]
    refine iff_of_false ?_ nofun
    rw [status, named]
    cases finishes with
    | obeyed | fired | capped => exact nofun
    | settled _ success =>
      rw [success]
      exact nofun
    | @bottom begun rest y best _ split low =>
      -- the question told a value without bottom, and the answer is not above it
      have asked : ⟨y, best, answer.2.iterations, false⟩ ∈ journal.questions :=
        Journal.mem_questions.mpr (by simp [split])
      have atMost : answer.2.value ≤ best := by
        rw [value]
        exact consulted.least _ asked
      have bounds := Enclosed.isFinite_iff.mp finite
      exact absurd (Lawful.le_trans atMost (Lawful.beq_iff.mp low).1)
        (Lawful.not_le_of_lt bounds.1)
  · rw [infinite, status, named]
    exact iff_of_true rfl rfl

/-- What holds of the questions to the predicate of a run, of its report, and of both together. -/
structure Consults (settings : Settings F) (journal : Journal F n) (report : Report F) : Prop where
  /-- A question follows a poll of its own, and tells the least value evaluated until then. -/
  asks (earlier later : Journal F n) (y : Vector F n) (best : F) (count : Nat) (stop : Bool) :
    journal = earlier ++ .asked y best count stop :: later →
      (∃ begun, earlier = begun ++ [.polled false]) ∧
      IsLowest (Journal.evaluations earlier) best
  counts : journal.questions.map (·.iterations) = List.range journal.questions.length
  falls : journal.questions.Pairwise fun first second => second.best ≤ first.best
  least (question : Question F n) : question ∈ journal.questions → report.value ≤ question.best
  stops (earlier later : Journal F n) (y : Vector F n) (best : F) (count : Nat) :
    journal = earlier ++ .asked y best count true :: later →
      later.questions = [] ∧ later.iterations = 0 ∧ count = report.iterations
  iterations : journal.iterations = report.iterations
  defined : isNaN report.value = false
  unbounded : report.status = .unbounded ↔ isFinite report.value = false
  terminated : report.termination = .terminated →
    ∃ earlier last, journal.questions = earlier ++ [last] ∧ last.stop = true ∧
      ∀ question ∈ earlier, question.stop = false
  capped : report.termination = .maxIterations → report.iterations = settings.maxIterations
  bottoms : Bottoms journal

theorem minimize_consulted [Enclosed F] {answer : Vector F n × Report F}
    (ran : Returns (minimize settings runner caller.recorded x) ([], world) answer after) :
    Consults settings after.1 answer.2 := by
  obtain ⟨consulted, iterations, bottoms, value⟩ := minimize_dialogue ran
  obtain ⟨termination, finishes, judged, status⟩ := minimize_finishes ran
  exact {
    asks := by
      intro earlier later y best count stop split
      obtain ⟨polled, rfl⟩ := consulted.asks _ _ _ _ _ _ split
      exact ⟨polled, Tally.after_lowest x _⟩
    counts := consulted.counts
    falls := consulted.falls
    least := by
      rw [value]
      exact consulted.least
    stops := fun _ _ _ _ _ split => stop_last finishes split
    iterations
    defined := by
      rw [value]
      exact Lawful.isNaN_eq_false_iff.mpr (Tally.best_defined x _)
    unbounded := unbounded_iff consulted value finishes judged status
    terminated := by
      intro terminated
      rcases judged with ⟨_, named⟩ | ⟨_, named⟩
      · rw [← named, terminated] at finishes
        exact last_stops finishes
      · exact nomatch terminated.symm.trans named
    capped := by
      intro capped
      rcases judged with ⟨_, named⟩ | ⟨_, named⟩
      · rw [← named, capped] at finishes
        cases finishes with
        | capped _ _ _ _ _ last => exact last
        | settled _ success => exact nomatch success
      · exact nomatch capped.symm.trans named
    bottoms }

end Minimization

end Consulted

namespace Minimization

/-- Every check puts at most one question, and the questions of a run count its iterations and tell
the least value so far. The report fits to them. -/
theorem minimize_consults {σ F : Type} [Unbounded F] [Lawful F] [Enclosed F] {n : Nat}
    (settings : Settings F) (runner : Runner) (caller : Caller (StateT σ (Except Fault)) F n)
    (x : Vector F n) (answer : Vector F n × Report F) (before after : σ)
    (ran : (minimize settings runner caller x).run before = .ok (answer, after)) :
    ∃ journal,
      ((minimize settings runner caller.recorded x).run []).run before =
        .ok ((answer, journal), after) ∧
      Consults settings journal answer.2 ∧
      ∀ done state reached termination? checked asked,
        Visits settings runner caller.recorded x ([], before, ()) done state reached →
        Returns
          (check (Kernels.shared F n settings.threads runner) settings caller.recorded done state)
          reached (termination?, checked) asked →
        ∃ written : Journal F n, asked.1 = reached.1 ++ written ∧ written.questions.length ≤ 1 := by
  obtain ⟨journal, recorded⟩ := minimize_recorded_iff.mp ran
  have returned : Returns (minimize settings runner caller.recorded x) ([], before, ())
      answer (journal, after, ()) := recorded
  refine ⟨journal, recorded, minimize_consulted returned, ?_⟩
  intro done state reached termination? checked asked _ checks
  obtain ⟨written, grown, shape⟩ := check_journal checks
  refine ⟨written, grown, ?_⟩
  rcases shape.asks.2 with silent | ⟨stop, rest, rfl, silent⟩
  · rw [silent]
    exact Nat.zero_le _
  · rw [Journal.questions_append, silent, List.append_nil]
    exact Nat.le_refl _

def impatient : Caller (StateT Unit (Except Fault)) Float 1 :=
  { Caller.ofFunction raisedSquare with shouldStop := fun _ _ done => pure (0 < done) }

/-- The predicate is asked twice, and its second answer ends the run. -/
theorem minimize_consults_impatient :
    ∃ answer journal,
      ((minimize Settings.standard .inOrder impatient.recorded #v[4]).run []).run () =
        .ok ((answer, journal), ()) ∧
      Consults Settings.standard journal answer.2 ∧
      journal.questions.map (·.iterations) = [0, 1] ∧ answer.2.iterations = 1 ∧
      ∃ earlier last, journal.questions = earlier ++ [last] ∧ last.stop = true ∧
        ∀ question ∈ earlier, question.stop = false := by
  obtain ⟨⟨⟨answer, journal⟩, _⟩, ran, terminated, twice, once⟩ :
      Yields (((minimize Settings.standard .inOrder impatient.recorded #v[4]).run []).run ())
        (fun outcome => outcome.1.1.2.termination = .terminated ∧
          outcome.1.2.questions.length = 2 ∧ outcome.1.1.2.iterations = 1) := by
    decide +kernel
  obtain ⟨_, again, consults, _⟩ := minimize_consults Settings.standard .inOrder impatient #v[4]
    answer () () (minimize_recorded_iff.mpr ⟨journal, ran⟩)
  obtain rfl := (Prod.mk.inj (Prod.mk.inj (Except.ok.inj (again.symm.trans ran))).1).2
  have counts := consults.counts
  rw [twice] at counts
  exact ⟨answer, _, ran, consults, counts, once, consults.terminated terminated⟩

end Minimization

end Descent

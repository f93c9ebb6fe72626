import Descent.Proofs.Mirror
import Descent.Proofs.Run

/-!
In which order a run asks its caller. A check polls the token, then puts one question to the
predicate, and may set the token or evaluate the iterate; an iteration evaluates and remarks, and
reports itself at its end. So the journal of a run is a chain of segments, one for each pass, then
what the last check writes, then at most one evaluation for the answer.
-/

namespace Descent

open Scalar Execution

variable {F : Type} {n : Nat}

/-! Kinds of entries. -/

def Entry.isWork : Entry F n → Bool
  | .evaluated _ => true
  | .noted (.iterated ..) => false
  | .noted _ => true
  | .asked .. | .polled _ | .cancelled => false

def Entry.goesOn : Entry F n → Bool
  | .polled answer => !answer
  | .asked _ _ _ stop => !stop
  | .cancelled => false
  | .evaluated _ | .noted _ => true

theorem Entry.goesOn_of_isWork {entry : Entry F n} (work : entry.isWork = true) :
    entry.goesOn = true := by
  cases entry with
  | evaluated | noted => simp only [goesOn]
  | asked | polled | cancelled => exact nomatch work

structure Question (F : Type) (n : Nat) where
  x : Vector F n
  best : F
  iterations : Nat
  stop : Bool

namespace Journal

def Works (journal : Journal F n) : Prop := ∀ entry ∈ journal, entry.isWork = true

def GoesOn (journal : Journal F n) : Prop := ∀ entry ∈ journal, entry.goesOn = true

def questions (journal : Journal F n) : List (Question F n) :=
  journal.filterMap fun
    | .asked x best iterations stop => some ⟨x, best, iterations, stop⟩
    | _ => none

def iterations (journal : Journal F n) : Nat :=
  journal.countP fun
    | .noted (.iterated ..) => true
    | _ => false

@[simp]
theorem questions_append (journal later : Journal F n) :
    questions (journal ++ later) = questions journal ++ questions later :=
  List.filterMap_append

@[simp]
theorem iterations_append (journal later : Journal F n) :
    iterations (journal ++ later) = iterations journal + iterations later :=
  List.countP_append

theorem goesOn_append {journal later : Journal F n} (first : GoesOn journal)
    (second : GoesOn later) : GoesOn (journal ++ later) :=
  fun entry member => (List.mem_append.mp member).elim (first entry) (second entry)

theorem questions_cons (entry : Entry F n) (journal : Journal F n) :
    questions (entry :: journal) = questions [entry] ++ questions journal :=
  questions_append [entry] journal

theorem iterations_cons (entry : Entry F n) (journal : Journal F n) :
    iterations (entry :: journal) = iterations [entry] + iterations journal :=
  iterations_append [entry] journal

theorem works_nil : Works ([] : Journal F n) := fun _ member => nomatch member

theorem works_singleton {entry : Entry F n} (work : entry.isWork = true) : Works [entry] :=
  fun _ member => List.mem_singleton.mp member ▸ work

theorem works_append {journal later : Journal F n} (first : Works journal)
    (second : Works later) : Works (journal ++ later) :=
  fun entry member => (List.mem_append.mp member).elim (first entry) (second entry)

theorem mem_questions {journal : Journal F n} {question : Question F n} :
    question ∈ questions journal ↔
      .asked question.x question.best question.iterations question.stop ∈ journal := by
  rw [questions, List.mem_filterMap]
  constructor
  · rintro ⟨entry, member, found⟩
    cases entry with
    | asked =>
      cases found
      exact member
    | evaluated | polled | cancelled | noted => exact nomatch found
  · exact fun member => ⟨_, member, rfl⟩

namespace GoesOn

variable {journal : Journal F n} (goesOn : GoesOn journal)

include goesOn

theorem not_cancelled : Entry.cancelled ∉ journal :=
  fun member => Bool.false_ne_true (goesOn _ member)

theorem not_stopped : ∀ question ∈ questions journal, question.stop = false := by
  intro question member
  have unset := goesOn _ (mem_questions.mp member)
  simpa [Entry.goesOn] using unset

end GoesOn

namespace Works

variable {journal : Journal F n} (works : Works journal)

include works

theorem goesOn : GoesOn journal :=
  fun entry member => Entry.goesOn_of_isWork (works entry member)

theorem questions : questions journal = [] := by
  apply List.filterMap_eq_nil_iff.mpr
  intro entry member
  have work := works entry member
  cases entry with
  | asked => exact nomatch work
  | evaluated | polled | cancelled | noted => simp only

theorem iterations : iterations journal = 0 := by
  apply List.countP_eq_zero.mpr
  intro entry member
  have work := works entry member
  cases entry with
  | noted event =>
    cases event with
    | iterated => exact nomatch work
    | _ => exact Bool.false_ne_true
  | evaluated | asked | polled | cancelled => exact Bool.false_ne_true

end Works

theorem not_stopped_append {begun rest : Journal F n} {entry : Entry F n} (goesOn : GoesOn begun)
    (works : Works rest) (plain : questions [entry] = []) :
    ∀ question ∈ questions (begun ++ entry :: rest), question.stop = false := by
  rw [questions_append, questions_cons, plain, works.questions, List.append_nil,
    List.append_nil]
  exact goesOn.not_stopped

end Journal

/-- A caller that is only there for the work: it hears neither questions nor reports. -/
def Caller.working {m : Type → Type} [Monad m] (caller : Caller m F n) : Caller m F n where
  evaluate := caller.evaluate
  shouldStop _ _ _ := pure false
  isCancelled := pure false
  cancel := pure ()
  note
    | .iterated .. => pure ()
    | event => caller.note event

section Adds

variable {m : Type → Type} [Monad m] [MonadExceptOf Fault m] {World : Type} [Execution m World]

def Adds {A : Type} (program : StateT (Journal F n) m A) : Prop :=
  Keeps (fun before after => ∃ work, after.1 = before.1 ++ work ∧ Journal.Works work) program

theorem adds_lasting :
    Lasting fun before after : Journal F n × World =>
      ∃ work, after.1 = before.1 ++ work ∧ Journal.Works work where
  refl world := ⟨[], (List.append_nil _).symm, Journal.works_nil⟩
  trans := by
    rintro before middle after ⟨work, first, works⟩ ⟨more, second, further⟩
    exact ⟨work ++ more, by rw [second, first, List.append_assoc],
      Journal.works_append works further⟩

theorem adds_congruent : Congruent fun A (program _ : StateT (Journal F n) m A) => Adds program :=
  adds_lasting.congruent

theorem record_adds {A : Type} {program : m A} {entry : A → Entry F n}
    (work : ∀ answer, (entry answer).isWork = true) : Adds (Caller.record program entry) := by
  intro before answer after ran
  exact ⟨[entry answer], (Caller.returns_record.mp ran).2, Journal.works_singleton (work answer)⟩

theorem working_adds (caller : Caller m F n) :
    caller.recorded.working.Corresponds (fun _ program _ => Adds program)
      caller.recorded.working where
  evaluate _ := record_adds fun _ => rfl
  shouldStop _ _ _ := adds_congruent.pure false
  isCancelled := adds_congruent.pure false
  cancel := adds_congruent.pure ()
  note event := by
    cases event with
    | iterated => exact adds_congruent.pure ()
    | _ => exact record_adds fun _ => rfl

end Adds

namespace Minimization

variable {m : Type → Type} [Monad m] [MonadExceptOf Fault m] {World : Type} [Execution m World]
variable [Unbounded F] {kernels : Kernels F n} {settings : Settings F} {caller : Caller m F n}
variable {before after : Journal F n × World} {iteration done : Nat} {state left : State F n}

/-! An iteration puts no questions and leaves its report to the run; a check that looks at the
state only evaluates. Neither needs more of its caller than the work. -/

theorem iterate_adds : Adds (iterate kernels settings caller.recorded iteration state) := by
  have same : iterate kernels settings caller.recorded.working iteration state =
      iterate kernels settings caller.recorded iteration state := rfl
  rw [← same]
  exact iterate_corresponds adds_congruent (working_adds caller)

theorem confirm_adds : Adds (confirm kernels settings caller.recorded state) := by
  have same : confirm kernels settings caller.recorded.working state =
      confirm kernels settings caller.recorded state := rfl
  rw [← same]
  exact confirm_corresponds adds_congruent (working_adds caller)

theorem evaluateIterate_journal
    (ran : Returns (evaluateIterate caller.recorded state) before left after) :
    ∃ value gradient, after.1 = before.1 ++ [.evaluated ⟨state.x, value, gradient⟩] := by
  obtain ⟨value, gradient, answered, _⟩ := evaluateIterate_returns ran
  exact ⟨value, gradient, (Caller.returns_record.mp answered).2⟩

def asking (state : State F n) (done : Nat) (stop : Bool) : Journal F n :=
  [.polled false, .asked state.x state.tally.best.value done stop]

omit [Unbounded F] in
theorem asking_goesOn (state : State F n) (done : Nat) : (asking state done false).GoesOn := by
  simp [Journal.GoesOn, asking, Entry.goesOn]

/-- What a check writes, with its verdict and the state that it leaves. -/
inductive Checked (kernels : Kernels F n) (settings : Settings F) (done : Nat)
    (state : State F n) : Option Termination → State F n → Journal F n → Prop where
  | cancelled : Checked kernels settings done state (some .cancelled) state [.polled true]
  | terminated :
      Checked kernels settings done state (some .terminated) state
        (asking state done true ++ [.cancelled])
  | bottom : (state.tally.best.value == -Unbounded.infinity) = true →
      Checked kernels settings done state (some .notFinite) state (asking state done false)
  | judged {termination? : Option Termination} {left : State F n} {work : Journal F n} :
      (state.tally.best.value == -Unbounded.infinity) = false → work.Works →
      termination? = verdict? kernels settings left →
      Checked kernels settings done state termination? left (asking state done false ++ work)

theorem check_journal {termination? : Option Termination}
    (ran : Returns (check kernels settings caller.recorded done state) before
      (termination?, left) after) :
    ∃ written, after.1 = before.1 ++ written ∧
      Checked kernels settings done state termination? left written := by
  rcases check_returns ran with ⟨polls, rfl, rfl⟩ | ⟨polled, asked, stop, polls, asks, ends⟩
  · exact ⟨_, (Caller.returns_record.mp polls).2, .cancelled⟩
  · have begun : asked.1 = before.1 ++ asking state done stop := by
      rw [(Caller.returns_record.mp asks).2, (Caller.returns_record.mp polls).2,
        List.append_assoc]
      rfl
    rcases ends with ⟨rfl, cancels, rfl, rfl⟩ | ⟨rfl, bottom, rfl, rfl, rfl⟩ |
      ⟨rfl, bounded, confirms, named⟩
    · refine ⟨_, ?_, .terminated⟩
      rw [(Caller.returns_record.mp cancels).2, begun, List.append_assoc]
    · exact ⟨_, begun, .bottom bottom⟩
    · obtain ⟨work, written, works⟩ := confirm_adds _ _ _ confirms
      refine ⟨_, ?_, .judged bounded works named⟩
      rw [written, begun, List.append_assoc]

theorem Checked.asks {termination? : Option Termination} {written : Journal F n}
    (shape : Checked kernels settings done state termination? left written) :
    written.iterations = 0 ∧ (written.questions = [] ∨
      ∃ stop rest, written = asking state done stop ++ rest ∧ rest.questions = []) := by
  cases shape with
  | cancelled => exact ⟨rfl, .inl rfl⟩
  | terminated => exact ⟨rfl, .inr ⟨true, _, rfl, rfl⟩⟩
  | bottom => exact ⟨rfl, .inr ⟨false, [], (List.append_nil _).symm, rfl⟩⟩
  | judged _ works _ =>
    refine ⟨?_, .inr ⟨false, _, rfl, works.questions⟩⟩
    rw [Journal.iterations_append, works.iterations]
    rfl

def reporting (done : Nat) (next : State F n) : Journal F n :=
  [.noted (.iterated (done + 1) next.value next.tally.best.value next.step)]

omit [Unbounded F] in
theorem reporting_goesOn (done : Nat) (next : State F n) : (reporting done next).GoesOn := by
  simp [Journal.GoesOn, reporting, Entry.goesOn]

theorem pass_journal
    (pass : Pass kernels settings caller.recorded done state before left after) :
    done < settings.maxIterations ∧ (state.tally.best.value == -Unbounded.infinity) = false ∧
      ∃ work, work.Works ∧
        after.1 = before.1 ++ (asking state done false ++ work ++ reporting done left) := by
  obtain ⟨checked, middle, checks, iterated, goesOn, iterates, notes⟩ := pass
  obtain ⟨asked, begun, shape⟩ := check_journal checks
  obtain ⟨more, worked, further⟩ := iterate_adds _ _ _ iterates
  cases shape with
  | judged bounded works _ =>
    refine ⟨goesOn, bounded, _, Journal.works_append works further, ?_⟩
    rw [(Caller.returns_record.mp notes).2, worked, begun]
    simp only [List.append_assoc, reporting]

inductive Closes (kernels : Kernels F n) (settings : Settings F) (state : State F n)
    (ended : Ended F n) : Journal F n → Prop where
  | stopped {written : Journal F n} :
      Checked kernels settings ended.iterations state (some ended.termination) ended.state
        written →
      Closes kernels settings state ended written
  | capped {work : Journal F n} : ended.termination = .maxIterations →
      ¬ ended.iterations < settings.maxIterations →
      (state.tally.best.value == -Unbounded.infinity) = false → work.Works →
      Closes kernels settings state ended
        (asking state ended.iterations false ++ work ++ [.cancelled])

theorem Closes.asks {ended : Ended F n} {written : Journal F n}
    (closes : Closes kernels settings state ended written) :
    written.iterations = 0 ∧ (written.questions = [] ∨
      ∃ stop rest, written = asking state ended.iterations stop ++ rest ∧
        rest.questions = []) := by
  cases closes with
  | stopped shape => exact shape.asks
  | @capped work _ _ _ works =>
    refine ⟨?_, .inr ⟨false, work ++ [.cancelled], List.append_assoc _ _ _, ?_⟩⟩
    · rw [Journal.iterations_append, Journal.iterations_append, works.iterations]
      rfl
    · rw [Journal.questions_append, works.questions]
      rfl

theorem ends_journal {ended : Ended F n}
    (ends : Ends kernels settings caller.recorded state before ended after) :
    ∃ written, after.1 = before.1 ++ written ∧ Closes kernels settings state ended written := by
  rcases ends with checks | ⟨middle, checks, capped, cancels, named⟩
  · obtain ⟨written, grown, shape⟩ := check_journal checks
    exact ⟨written, grown, .stopped shape⟩
  · obtain ⟨written, grown, shape⟩ := check_journal checks
    cases shape with
    | judged bounded works _ =>
      refine ⟨_, ?_, .capped named capped bounded works⟩
      rw [(Caller.returns_record.mp cancels).2, grown, List.append_assoc]

/-- Up to the last check nothing stops the run. -/
theorem passes_goOn {last : Nat}
    (passes : Passes kernels settings caller.recorded done state before last left after)
    (goesOn : before.1.GoesOn) : after.1.GoesOn := by
  refine passes_invariant (fun _ _ world => world.1.GoesOn) ?_ passes goesOn
  intro done state before next after kept pass
  obtain ⟨_, _, work, works, written⟩ := pass_journal pass
  rw [written]
  exact Journal.goesOn_append kept (Journal.goesOn_append
    (Journal.goesOn_append (asking_goesOn state done) works.goesOn) (reporting_goesOn done next))

theorem start_journal {x : Vector F n}
    (ran : Returns (start kernels settings caller.recorded x) before state after) :
    ∃ value gradient, after.1 = before.1 ++ [.evaluated ⟨x, value, gradient⟩] := by
  obtain ⟨value, gradient, answered, _⟩ := start_returns ran
  exact ⟨value, gradient, (Caller.returns_record.mp answered).2⟩

theorem conclude_journal {ended : Ended F n} {answer : Vector F n × Report F}
    (ran : Returns (conclude kernels caller.recorded ended) before answer after) :
    ∃ work, after.1 = before.1 ++ work ∧ work.Works ∧
      ((ended.state.real = true ∧ Journal.evaluations work = []) ∨
        (ended.state.real = false ∧ ∃ value gradient,
          Journal.evaluations work = [⟨ended.state.x, value, gradient⟩])) := by
  obtain ⟨final, middle, termination, settled, judged, _⟩ := conclude_returns ran
  obtain ⟨remarks, remarked, works, silent⟩ : ∃ remarks, after.1 = middle.1 ++ remarks ∧
      remarks.Works ∧ Journal.evaluations remarks = [] := by
    rcases judged with ⟨_, _, rfl⟩ | ⟨_, _, notes⟩
    · exact ⟨[], (List.append_nil _).symm, Journal.works_nil, rfl⟩
    · exact ⟨_, (Caller.returns_record.mp notes).2, Journal.works_singleton rfl, rfl⟩
  rcases settled with ⟨real, rfl, rfl⟩ | ⟨fitted, evaluates⟩
  · exact ⟨remarks, remarked, works, .inl ⟨real, silent⟩⟩
  · obtain ⟨value, gradient, written⟩ := evaluateIterate_journal evaluates
    refine ⟨.evaluated ⟨ended.state.x, value, gradient⟩ :: remarks, ?_, ?_, .inr ⟨fitted, value,
      gradient, ?_⟩⟩
    · rw [remarked, written, List.append_assoc]
      rfl
    · exact List.forall_mem_cons.mpr ⟨rfl, works⟩
    · rw [← List.singleton_append, Journal.evaluations_append, silent]
      rfl

/-! A recorded run comes to the states that the run itself comes to. -/

section Recorded

variable {caller : Caller m F n} {runner : Runner} {x : Vector F n} {world reached : World}

theorem pass_of_recorded
    (pass : Pass kernels settings caller.recorded done state before left after) :
    Pass kernels settings caller done state before.2 left after.2 := by
  have mirrors := recorded_mirrors caller
  obtain ⟨checked, middle, checks, iterated, goesOn, iterates, notes⟩ := pass
  exact ⟨checked, middle.2, (check_corresponds mirrors_congruent mirrors _ _ _ _).mpr ⟨_, checks⟩,
    iterated.2, goesOn, (iterate_corresponds mirrors_congruent mirrors _ _ _ _).mpr ⟨_, iterates⟩,
    (mirrors.note _ _ _ _ _).mpr ⟨_, notes⟩⟩

theorem recorded_of_pass (journal : Journal F n)
    (pass : Pass kernels settings caller done state world left reached) :
    ∃ written, Pass kernels settings caller.recorded done state (journal, world) left
      (written, reached) := by
  have mirrors := recorded_mirrors caller
  obtain ⟨checked, _, checks, _, goesOn, iterates, notes⟩ := pass
  obtain ⟨asked, checks⟩ := (check_corresponds mirrors_congruent mirrors _ _ _ _).mp checks
  obtain ⟨worked, iterates⟩ := (iterate_corresponds mirrors_congruent mirrors _ _ _ _).mp iterates
  obtain ⟨written, notes⟩ := (mirrors.note _ _ _ _ _).mp notes
  exact ⟨written, checked, (asked, _), checks, (worked, _), goesOn, iterates, notes⟩

theorem passes_of_recorded {last : Nat}
    (passes : Passes kernels settings caller.recorded done state before last left after) :
    Passes kernels settings caller done state before.2 last left after.2 := by
  induction passes with
  | refl => exact .refl _ _ _
  | next pass _ ih => exact .next (pass_of_recorded pass) ih

theorem recorded_of_passes (journal : Journal F n) {last : Nat}
    (passes : Passes kernels settings caller done state world last left reached) :
    ∃ written, Passes kernels settings caller.recorded done state (journal, world) last left
      (written, reached) := by
  induction passes generalizing journal with
  | refl => exact ⟨journal, .refl _ _ _⟩
  | next pass _ ih =>
    obtain ⟨grown, pass⟩ := recorded_of_pass journal pass
    obtain ⟨written, passes⟩ := ih grown
    exact ⟨written, .next pass passes⟩

theorem visits_recorded_iff :
    Visits settings runner caller x world done state reached ↔
      ∃ journal,
        Visits settings runner caller.recorded x ([], world) done state (journal, reached) := by
  have mirrors := recorded_mirrors caller
  constructor
  · rintro ⟨threads, started, begun, starts, passes⟩
    obtain ⟨opened, starts⟩ := (start_corresponds mirrors_congruent mirrors _ _ _ _).mp starts
    obtain ⟨journal, passes⟩ := recorded_of_passes opened passes
    exact ⟨journal, threads, started, (opened, begun), starts, passes⟩
  · rintro ⟨journal, threads, started, begun, starts, passes⟩
    exact ⟨threads, started, begun.2,
      (start_corresponds mirrors_congruent mirrors _ _ _ _).mpr ⟨_, starts⟩,
      passes_of_recorded passes⟩

end Recorded

variable {runner : Runner} {x : Vector F n} {world : World}

theorem visits_goOn
    (visits : Visits settings runner caller.recorded x ([], world) done state after) :
    after.1.GoesOn := by
  obtain ⟨_, started, begun, starts, passes⟩ := visits
  obtain ⟨value, gradient, written⟩ := start_journal starts
  apply passes_goOn passes
  rw [written]
  exact (Journal.works_singleton rfl).goesOn

/-- The ways in which a recorded minimization ends: with its journal, the number of iterations, and
the reason that the last check gives. -/
inductive Finishes (settings : Settings F) (runner : Runner) (caller : Caller m F n)
    (x : Vector F n) (world : World) (journal : Journal F n) (iterations : Nat) :
    Termination → Prop where
  | obeyed {begun rest : Journal F n} :
      begun.GoesOn → rest.Works → journal = begun ++ .polled true :: rest →
      Finishes settings runner caller x world journal iterations .cancelled
  | fired {begun rest : Journal F n} {y : Vector F n} {best : F} :
      begun.GoesOn → rest.Works →
      journal = begun ++ .asked y best iterations true :: .cancelled :: rest →
      Finishes settings runner caller x world journal iterations .terminated
  /-- A check after the last iteration there may be found no other reason to stop. -/
  | capped {state checked : State F n} {reached asked : Journal F n × World}
      {rest : Journal F n} :
      Visits settings runner caller.recorded x ([], world) settings.maxIterations state reached →
      Returns
        (check (Kernels.shared F n settings.threads runner) settings caller.recorded
          settings.maxIterations state)
        reached (none, checked) asked →
      asked.1.GoesOn → rest.Works → journal = asked.1 ++ .cancelled :: rest →
      iterations = settings.maxIterations →
      Finishes settings runner caller x world journal iterations .maxIterations
  /-- A value without bottom was found before the last question. -/
  | bottom {begun rest : Journal F n} {y : Vector F n} {best : F} :
      journal.GoesOn → journal = begun ++ .asked y best iterations false :: rest →
      (best == -Unbounded.infinity) = true →
      Finishes settings runner caller x world journal iterations .notFinite
  | settled {termination : Termination} :
      journal.GoesOn → termination.status = .success →
      Finishes settings runner caller x world journal iterations termination

theorem checked_finish {termination : Termination} {begun written work : Journal F n}
    (shape : Checked kernels settings done state (some termination) left written)
    (goesOn : begun.GoesOn) (works : work.Works) :
    Finishes settings runner caller x world (begun ++ written ++ work) done termination := by
  have asked := Journal.goesOn_append goesOn (asking_goesOn state done)
  cases shape with
  | cancelled => exact .obeyed goesOn works (by simp)
  | terminated =>
    have split : begun ++ (asking state done true ++ [.cancelled]) ++ work =
        (begun ++ [.polled false]) ++
          .asked state.x state.tally.best.value done true :: .cancelled :: work := by
      simp [asking]
    have polled : Journal.GoesOn [(.polled false : Entry F n)] := by
      simp [Journal.GoesOn, Entry.goesOn]
    exact .fired (Journal.goesOn_append goesOn polled) works split
  | bottom bottom =>
    have split : begun ++ asking state done false ++ work =
        (begun ++ [.polled false]) ++ .asked state.x state.tally.best.value done false :: work := by
      simp [asking]
    exact .bottom (Journal.goesOn_append asked works.goesOn) split bottom
  | judged _ worked named =>
    refine .settled ?_ (verdict?_success named.symm)
    rw [← List.append_assoc]
    exact Journal.goesOn_append (Journal.goesOn_append asked worked.goesOn) works.goesOn

theorem ends_finish {ended : Ended F n} {middle : Journal F n × World} {work : Journal F n}
    (visits : Visits settings runner caller.recorded x ([], world) ended.iterations state middle)
    (ends : Ends (Kernels.shared F n settings.threads runner) settings caller.recorded state middle
      ended after) (works : work.Works) :
    Finishes settings runner caller x world (after.1 ++ work) ended.iterations
      ended.termination := by
  have goesOn := visits_goOn visits
  rcases ends with checks | ⟨asked, checks, capped, cancels, named⟩
  · obtain ⟨written, grown, shape⟩ := check_journal checks
    rw [grown]
    exact checked_finish shape goesOn works
  · have last : ended.iterations = settings.maxIterations := by
      obtain ⟨_, _, _, _, passes⟩ := visits
      exact Nat.le_antisymm (passes_within (Nat.zero_le _) passes) (Nat.le_of_not_lt capped)
    obtain ⟨written, grown, shape⟩ := check_journal checks
    rw [named]
    rw [last] at visits checks
    refine .capped visits checks ?_ works ?_ last
    · cases shape with
      | judged _ worked _ =>
        rw [grown]
        exact Journal.goesOn_append goesOn
          (Journal.goesOn_append (asking_goesOn state _) worked.goesOn)
    · rw [(Caller.returns_record.mp cancels).2, List.append_assoc]
      rfl

theorem Finishes.stopped_iff {journal : Journal F n} {iterations : Nat} {termination : Termination}
    (finishes : Finishes settings runner caller x world journal iterations termination) :
    (∃ question ∈ journal.questions, question.stop = true) ↔ termination = .terminated := by
  have never (unstopped : ∀ question ∈ journal.questions, question.stop = false) :
      ¬ ∃ question ∈ journal.questions, question.stop = true := by
    rintro ⟨question, member, stop⟩
    exact nomatch stop.symm.trans (unstopped question member)
  cases finishes with
  | obeyed goesOn works same =>
    exact iff_of_false (never (same ▸ Journal.not_stopped_append goesOn works rfl)) nofun
  | @fired begun rest y best _ _ same =>
    refine iff_of_true ⟨⟨y, best, iterations, true⟩, Journal.mem_questions.mpr ?_, rfl⟩ rfl
    simp [same]
  | capped _ _ goesOn works same _ =>
    exact iff_of_false (never (same ▸ Journal.not_stopped_append goesOn works rfl)) nofun
  | bottom goesOn => exact iff_of_false (never goesOn.not_stopped) nofun
  | settled goesOn success =>
    refine iff_of_false (never goesOn.not_stopped) ?_
    rintro rfl
    exact nomatch success

/-- What is reported of the end: the reason of the last check, unless the best value is not
finite. -/
theorem minimize_finishes [LawfulMonad m] {answer : Vector F n × Report F}
    (ran : Returns (minimize settings runner caller.recorded x) ([], world) answer after) :
    ∃ termination,
      Finishes settings runner caller x world after.1 answer.2.iterations termination ∧
      (isFinite answer.2.value = true ∧ answer.2.termination = termination ∨
        isFinite answer.2.value = false ∧ answer.2.termination = .notFinite) ∧
      answer.2.status = answer.2.termination.status := by
  obtain ⟨threads, started, begun, ended, stopped, starts, ⟨last, middle, passes, ends⟩,
    concludes⟩ := minimize_returns ran
  obtain ⟨work, written, works, _⟩ := conclude_journal concludes
  obtain ⟨final, _, termination, _, judged, rfl⟩ := conclude_returns concludes
  refine ⟨ended.termination, ?_, ?_, rfl⟩
  · rw [written]
    exact ends_finish ⟨threads, started, begun, starts, passes⟩ ends works
  · rcases judged with ⟨finite, named, _⟩ | ⟨infinite, named, _⟩
    · exact .inl ⟨finite, named⟩
    · exact .inr ⟨infinite, named⟩

end Minimization

end Descent

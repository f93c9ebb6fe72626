import Descent.Proofs.Correspondence

/-!
A whole run as a chain of passes. A pass is a check that lets the run go on and the iteration
after it; the run ends with a check that does not, or with the cap on iterations. What every pass
keeps therefore holds at the last check, and `passes_invariant` is the only induction over runs
that is needed.
-/

namespace Descent

open Scalar Execution

namespace Minimization

variable {m : Type → Type} [Monad m] [MonadExceptOf Fault m] {World : Type} [Execution m World]
variable {F : Type} [Unbounded F] {n : Nat}
variable {kernels : Kernels F n} {settings : Settings F} {caller : Caller m F n}
variable {before after : World} {done : Nat} {state left : State F n}

theorem confirm_returns
    (ran : Returns (confirm kernels settings caller state) before left after) :
    (state.real = false ∧ kernels.normSquared state.gradient ≤ toleranceSquared settings state ∧
      Returns (evaluateIterate caller state) before left after) ∨
    (¬ (state.real = false ∧
        kernels.normSquared state.gradient ≤ toleranceSquared settings state) ∧
      left = state ∧ after = before) := by
  simp only [confirm, Bool.not_eq_true] at ran
  split at ran
  · next unsure => exact Or.inl ⟨unsure.1, unsure.2, ran⟩
  · next sure =>
    obtain ⟨rfl, rfl⟩ := returns_pure.mp ran
    exact Or.inr ⟨sure, rfl, rfl⟩

/-- The token comes first, then the predicate, then the best value, then the state. -/
theorem check_returns {termination? : Option Termination}
    (ran : Returns (check kernels settings caller done state) before (termination?, left)
      after) :
    (Returns caller.isCancelled before true after ∧
      termination? = some .cancelled ∧ left = state) ∨
    ∃ polled asked stop, Returns caller.isCancelled before false polled ∧
      Returns (caller.shouldStop state.x state.tally.best.value done) polled stop asked ∧
      ((stop = true ∧ Returns caller.cancel asked () after ∧
          termination? = some .terminated ∧ left = state) ∨
        (stop = false ∧ (state.tally.best.value == -Unbounded.infinity) = true ∧
          termination? = some .notFinite ∧ left = state ∧ after = asked) ∨
        (stop = false ∧ (state.tally.best.value == -Unbounded.infinity) = false ∧
          Returns (confirm kernels settings caller state) asked left after ∧
          termination? = verdict? kernels settings left)) := by
  simp only [check] at ran
  obtain ⟨cancelled, polled, first, rest⟩ := returns_bind.mp ran
  cases cancelled with
  | true =>
    obtain ⟨same, rfl⟩ := returns_pure.mp rest
    obtain ⟨rfl, rfl⟩ := Prod.mk.inj same
    exact Or.inl ⟨first, rfl, rfl⟩
  | false =>
    obtain ⟨stop, asked, second, rest⟩ := returns_bind.mp rest
    refine Or.inr ⟨polled, asked, stop, first, second, ?_⟩
    cases stop with
    | true =>
      obtain ⟨_, _, set, last⟩ := returns_bind.mp rest
      obtain ⟨same, rfl⟩ := returns_pure.mp last
      obtain ⟨rfl, rfl⟩ := Prod.mk.inj same
      exact Or.inl ⟨rfl, set, rfl, rfl⟩
    | false =>
      simp only [Bool.false_eq_true, if_false] at rest
      split at rest
      · next bottom =>
        obtain ⟨same, rfl⟩ := returns_pure.mp rest
        obtain ⟨rfl, rfl⟩ := Prod.mk.inj same
        exact Or.inr (Or.inl ⟨rfl, bottom, rfl, rfl, rfl⟩)
      · next bounded =>
        obtain ⟨confirmed, _, confirms, last⟩ := returns_bind.mp rest
        obtain ⟨same, rfl⟩ := returns_pure.mp last
        obtain ⟨rfl, rfl⟩ := Prod.mk.inj same
        exact Or.inr (Or.inr ⟨rfl, by simpa using bounded, confirms, rfl⟩)

theorem check_left {termination? : Option Termination}
    (ran : Returns (check kernels settings caller done state) before (termination?, left)
      after) :
    left = state ∨
      state.real = false ∧ ∃ asked, Returns (evaluateIterate caller state) asked left after := by
  rcases check_returns ran with ⟨_, _, rfl⟩ | ⟨_, asked, _, _, _, ends⟩
  · exact .inl rfl
  · rcases ends with ⟨_, _, _, rfl⟩ | ⟨_, _, _, rfl, _⟩ | ⟨_, _, confirms, _⟩
    · exact .inl rfl
    · exact .inl rfl
    · rcases confirm_returns confirms with ⟨fitted, _, evaluates⟩ | ⟨_, rfl, _⟩
      · exact .inr ⟨fitted, asked, evaluates⟩
      · exact .inl rfl

/-- The iteration after a check that leaves `checked` and does not stop the run. -/
def Advances (kernels : Kernels F n) (settings : Settings F) (caller : Caller m F n) (done : Nat)
    (checked : State F n) (before : World) (next : State F n) (after : World) : Prop :=
  ∃ iterated, done < settings.maxIterations ∧
    Returns (iterate kernels settings caller (done + 1) checked) before next iterated ∧
    Returns (caller.note (.iterated (done + 1) next.value next.tally.best.value next.step))
      iterated () after

def Pass (kernels : Kernels F n) (settings : Settings F) (caller : Caller m F n) (done : Nat)
    (state : State F n) (before : World) (next : State F n) (after : World) : Prop :=
  ∃ checked middle,
    Returns (check kernels settings caller done state) before (none, checked) middle ∧
    Advances kernels settings caller done checked middle next after

inductive Passes (kernels : Kernels F n) (settings : Settings F) (caller : Caller m F n) :
    Nat → State F n → World → Nat → State F n → World → Prop where
  | refl (done state world) : Passes kernels settings caller done state world done state world
  | next {done state before middle world last left after} :
      Pass kernels settings caller done state before middle world →
      Passes kernels settings caller (done + 1) middle world last left after →
      Passes kernels settings caller done state before last left after

theorem passes_invariant (Kept : Nat → State F n → World → Prop)
    (step : ∀ done state before next after, Kept done state before →
      Pass kernels settings caller done state before next after → Kept (done + 1) next after)
    {last : Nat} (passes : Passes kernels settings caller done state before last left after)
    (kept : Kept done state before) : Kept last left after := by
  induction passes with
  | refl => exact kept
  | next pass _ ih => exact ih (step _ _ _ _ _ kept pass)

/-- The last check of a run, or the cap after it. -/
def Ends (kernels : Kernels F n) (settings : Settings F) (caller : Caller m F n)
    (state : State F n) (before : World) (ended : Ended F n) (after : World) : Prop :=
  Returns (check kernels settings caller ended.iterations state) before
    (some ended.termination, ended.state) after ∨
  ∃ middle,
    Returns (check kernels settings caller ended.iterations state) before
      (none, ended.state) middle ∧
    ¬ ended.iterations < settings.maxIterations ∧ Returns caller.cancel middle () after ∧
    ended.termination = .maxIterations

def Runs (kernels : Kernels F n) (settings : Settings F) (caller : Caller m F n) (done : Nat)
    (state : State F n) (before : World) (ended : Ended F n) (after : World) : Prop :=
  ∃ last middle,
    Passes kernels settings caller done state before ended.iterations last middle ∧
    Ends kernels settings caller last middle ended after

theorem pass_unique {next next' : State F n} {after' : World}
    (pass : Pass kernels settings caller done state before next after)
    (pass' : Pass kernels settings caller done state before next' after') :
    next' = next ∧ after' = after := by
  obtain ⟨checked, middle, checks, iterated, _, iterates, notes⟩ := pass
  obtain ⟨checked', middle', checks', iterated', _, iterates', notes'⟩ := pass'
  obtain ⟨same, rfl⟩ := returns_unique checks checks'
  obtain ⟨_, rfl⟩ := Prod.mk.inj same
  obtain ⟨rfl, rfl⟩ := returns_unique iterates iterates'
  exact ⟨rfl, (returns_unique notes notes').2⟩

-- Where a run ends, no pass goes on: its check stops the run, or the cap does.
theorem ends_not_pass {ended : Ended F n} {next : State F n} {world : World}
    (ends : Ends kernels settings caller state before ended after)
    (pass : Pass kernels settings caller ended.iterations state before next world) : False := by
  obtain ⟨checked, middle, checks, _, goesOn, _⟩ := pass
  rcases ends with stops | ⟨_, _, capped, _⟩
  · obtain ⟨same, _⟩ := returns_unique stops checks
    exact nomatch (Prod.mk.inj same).1
  · exact capped goesOn

theorem passes_le {last : Nat}
    (passes : Passes kernels settings caller done state before last left after) : done ≤ last := by
  induction passes with
  | refl => exact Nat.le_refl _
  | next _ _ ih => exact Nat.le_of_succ_le ih

theorem passes_append {first last : Nat} {begun : State F n} {middle : World}
    (passes : Passes kernels settings caller first begun before done state middle)
    (rest : Passes kernels settings caller done state middle last left after) :
    Passes kernels settings caller first begun before last left after := by
  induction passes with
  | refl => exact rest
  | next earlier _ ih => exact .next earlier (ih rest)

theorem passes_within {last : Nat} (within : done ≤ settings.maxIterations)
    (passes : Passes kernels settings caller done state before last left after) :
    last ≤ settings.maxIterations := by
  refine passes_invariant (fun done _ _ => done ≤ settings.maxIterations) ?_ passes within
  rintro done state before next after _ ⟨_, _, _, _, goesOn, _⟩
  exact goesOn

/-- Of two chains of passes from one state the longer one goes on where the shorter one ends. -/
theorem passes_resume {first last : Nat} {middle : State F n} {reached : World}
    (passes : Passes kernels settings caller first state before done middle reached)
    (longer : Passes kernels settings caller first state before last left after)
    (ordered : done ≤ last) :
    Passes kernels settings caller done middle reached last left after := by
  induction passes with
  | refl => exact longer
  | next pass rest ih =>
    cases longer with
    | refl => exact absurd (Nat.le_trans (passes_le rest) ordered) (Nat.not_succ_le_self _)
    | next pass' rest' =>
      obtain ⟨rfl, rfl⟩ := pass_unique pass pass'
      exact ih rest' ordered

theorem passes_split {first last : Nat} {begun : State F n} (atLeast : first ≤ done)
    (atMost : done ≤ last)
    (passes : Passes kernels settings caller first begun before last left after) :
    ∃ middle reached, Passes kernels settings caller first begun before done middle reached ∧
      Passes kernels settings caller done middle reached last left after := by
  induction passes with
  | refl =>
    obtain rfl := Nat.le_antisymm atLeast atMost
    exact ⟨_, _, .refl _ _ _, .refl _ _ _⟩
  | next pass rest ih =>
    rcases Nat.eq_or_lt_of_le atLeast with rfl | further
    · exact ⟨_, _, .refl _ _ _, .next pass rest⟩
    · obtain ⟨middle, reached, opened, closed⟩ := ih further atMost
      exact ⟨middle, reached, .next pass opened, closed⟩

theorem check_none {checked : State F n}
    (checks : Returns (check kernels settings caller done state) before (none, checked) after) :
    verdict? kernels settings checked = none := by
  rcases check_returns checks with ⟨_, impossible, _⟩ | ⟨_, _, _, _, _, ends⟩
  · exact nomatch impossible
  · rcases ends with ⟨_, _, impossible, _⟩ | ⟨_, _, impossible, _⟩ | ⟨_, _, _, none⟩
    · exact nomatch impossible
    · exact nomatch impossible
    · exact none.symm

theorem runs_resume {ended : Ended F n} {done' : Nat} {state' : State F n} {reached : World}
    (runs : Runs kernels settings caller done state before ended after)
    (reaches : Passes kernels settings caller done state before done' state' reached) :
    Runs kernels settings caller done' state' reached ended after := by
  -- both chains start at one state, so they share their passes until the shorter one is over
  induction reaches with
  | refl => exact runs
  | next pass reaches ih =>
    obtain ⟨last, middle, passes, ends⟩ := runs
    cases passes with
    | refl => exact absurd pass (ends_not_pass ends)
    | next pass' rest =>
      obtain ⟨rfl, rfl⟩ := pass_unique pass' pass
      exact ih ⟨last, middle, rest, ends⟩

theorem runs_cases {ended : Ended F n}
    (runs : Runs kernels settings caller done state before ended after) :
    (ended.iterations = done ∧ Ends kernels settings caller state before ended after) ∨
      ∃ next world, Pass kernels settings caller done state before next world ∧
        Runs kernels settings caller (done + 1) next world ended after := by
  obtain ⟨last, middle, passes, ends⟩ := runs
  cases passes with
  | refl => exact .inl ⟨rfl, ends⟩
  | next pass rest => exact .inr ⟨_, _, pass, last, middle, rest, ends⟩

/-- A check that is reached on the way belongs to the run: it is the last one, or the run goes
on from what it leaves. -/
theorem check_of_runs {ended : Ended F n} {done' : Nat} {state' checked : State F n}
    {reached asked : World} {termination? : Option Termination}
    (runs : Runs kernels settings caller done state before ended after)
    (reaches : Passes kernels settings caller done state before done' state' reached)
    (checks : Returns (check kernels settings caller done' state') reached
      (termination?, checked) asked) :
    checked = ended.state ∨
      ∃ next world, termination? = none ∧
        Advances kernels settings caller done' checked asked next world ∧
        Runs kernels settings caller (done' + 1) next world ended after := by
  rcases runs_cases (runs_resume runs reaches) with ⟨rfl, ends⟩ | ⟨next, world, pass, rest⟩
  · left
    rcases ends with stops | ⟨_, stops, _⟩
    · exact (Prod.mk.inj (returns_unique stops checks).1).2
    · exact (Prod.mk.inj (returns_unique stops checks).1).2
  · right
    obtain ⟨checked', asked', checks', advances⟩ := pass
    obtain ⟨same, rfl⟩ := returns_unique checks' checks
    obtain ⟨rfl, rfl⟩ := Prod.mk.inj same
    exact ⟨next, world, rfl, advances, rest⟩

theorem ends_verdict {ended : Ended F n}
    (ends : Ends kernels settings caller state before ended after)
    (success : ended.termination.status = .success) :
    verdict? kernels settings ended.state = some ended.termination := by
  rcases ends with checks | ⟨_, _, _, _, capped⟩
  · rcases check_returns checks with ⟨_, named, _⟩ | ⟨_, _, _, _, _, ends⟩
    · rw [Option.some.inj named] at success
      exact nomatch success
    · rcases ends with ⟨_, _, named, _⟩ | ⟨_, _, named, _⟩ | ⟨_, _, _, named⟩
      · rw [Option.some.inj named] at success
        exact nomatch success
      · rw [Option.some.inj named] at success
        exact nomatch success
      · exact named.symm
  · rw [capped] at success
    exact nomatch success

theorem verdict?_success {termination : Termination}
    (judged : verdict? kernels settings state = some termination) :
    termination.status = .success := by
  unfold verdict? at judged
  split at judged
  · cases judged
    rfl
  · split at judged
    · cases judged
      rfl
    · split at judged
      · cases judged
        rfl
      · exact nomatch judged

theorem verdict?_eq_converged_iff :
    verdict? kernels settings state = some .converged ↔
      state.real = true ∧ state.value ≤ state.tally.best.value ∧
        kernels.normSquared state.gradient ≤ toleranceSquared settings state := by
  unfold verdict?
  constructor
  · intro judged
    split at judged
    · next met => exact met
    · split at judged
      · exact nomatch judged
      · split at judged
        · exact nomatch judged
        · exact nomatch judged
  · intro met
    rw [if_pos met]

theorem directed_of_verdict? (goesOn : verdict? kernels settings state = none) :
    ¬ isZero state.directionNormSquared = true := by
  unfold verdict? at goesOn
  split at goesOn
  · exact nomatch goesOn
  · split at goesOn
    · exact nomatch goesOn
    · next directed => exact directed

theorem run_returns {ended : Ended F n}
    (ran : Returns (run kernels settings caller done state) before ended after) :
    Runs kernels settings caller done state before ended after := by
  -- the recursion of the run itself; `before` varies because every pass leaves another world
  induction done, state using run.induct settings generalizing before with
  | case1 done state ih =>
    rw [run] at ran
    obtain ⟨⟨termination?, checked⟩, middle, checks, rest⟩ := returns_bind.mp ran
    cases termination? with
    | some termination =>
      obtain ⟨rfl, rfl⟩ := returns_pure.mp rest
      exact ⟨state, before, .refl _ _ _, Or.inl checks⟩
    | none =>
      simp only at rest
      split at rest
      · next goesOn =>
        obtain ⟨next, iterated, iterates, rest⟩ := returns_bind.mp rest
        obtain ⟨_, noted, notes, rest⟩ := returns_bind.mp rest
        obtain ⟨last, final, passes, ends⟩ := ih goesOn next rest
        have pass : Pass kernels settings caller done state before next noted :=
          ⟨checked, middle, checks, iterated, goesOn, iterates, notes⟩
        exact ⟨last, final, .next pass passes, ends⟩
      · next capped =>
        obtain ⟨_, _, cancels, last⟩ := returns_bind.mp rest
        obtain ⟨rfl, rfl⟩ := returns_pure.mp last
        exact ⟨state, before, .refl _ _ _, Or.inr ⟨middle, checks, capped, cancels, rfl⟩⟩

/-- Some passes and an end are what the loop returns. -/
theorem returns_run {ended : Ended F n}
    (runs : Runs kernels settings caller done state before ended after) :
    Returns (run kernels settings caller done state) before ended after := by
  obtain ⟨last, middle, passes, ends⟩ := runs
  generalize reached : ended.iterations = count at passes
  induction passes with
  | refl =>
    obtain rfl := reached
    rw [run]
    rcases ends with checks | ⟨world, checks, capped, cancels, named⟩
    · exact returns_bind.mpr ⟨_, _, checks, returns_pure.mpr ⟨rfl, rfl⟩⟩
    · refine returns_bind.mpr ⟨_, _, checks, ?_⟩
      dsimp only
      rw [if_neg capped]
      refine returns_bind.mpr ⟨_, _, cancels, returns_pure.mpr ⟨?_, rfl⟩⟩
      rw [← named]
  | next pass rest ih =>
    obtain ⟨checked, asked, checks, iterated, goesOn, iterates, notes⟩ := pass
    rw [run]
    refine returns_bind.mpr ⟨_, _, checks, ?_⟩
    dsimp only
    rw [if_pos goesOn]
    exact returns_bind.mpr ⟨_, _, iterates, returns_bind.mpr ⟨_, _, notes, ih ends reached⟩⟩

theorem start_returns {x : Vector F n}
    (ran : Returns (start kernels settings caller x) before state after) :
    ∃ value gradient, Returns (caller.evaluate x) before (value, gradient) after ∧
      state = .create kernels settings x value gradient
        ((Tally.create x).add x value gradient) := by
  simp only [start] at ran
  obtain ⟨⟨value, gradient⟩, _, answered, rest⟩ := returns_bind.mp ran
  obtain ⟨_, _, reserved, last⟩ := returns_bind.mp rest
  obtain ⟨_, rfl⟩ := returns_ofExcept.mp reserved
  obtain ⟨rfl, rfl⟩ := returns_pure.mp last
  exact ⟨value, gradient, answered, rfl⟩

-- The verdict is followed by the same program on both ways, which need not be opened.
theorem judge_returns {A : Type} {ended : Ended F n} {best : F} {next : Termination → m A}
    {answer : A}
    (ran : Returns
      (if isFinite best = true then do
          let termination ← pure ended.termination
          next termination
        else do
          caller.note (.unbounded ended.iterations best)
          let termination ← pure Termination.notFinite
          next termination) before answer after) :
    ∃ termination middle,
      ((isFinite best = true ∧ termination = ended.termination ∧ middle = before) ∨
        (isFinite best = false ∧ termination = .notFinite ∧
          Returns (caller.note (.unbounded ended.iterations best)) before () middle)) ∧
      Returns (next termination) middle answer after := by
  split at ran
  · next finite =>
    obtain ⟨_, _, same, rest⟩ := returns_bind.mp ran
    obtain ⟨rfl, rfl⟩ := returns_pure.mp same
    exact ⟨_, _, Or.inl ⟨finite, rfl, rfl⟩, rest⟩
  · next infinite =>
    obtain ⟨_, _, noted, rest⟩ := returns_bind.mp ran
    obtain ⟨_, _, same, last⟩ := returns_bind.mp rest
    obtain ⟨rfl, rfl⟩ := returns_pure.mp same
    exact ⟨_, _, Or.inr ⟨by simpa using infinite, rfl, noted⟩, last⟩

theorem conclude_returns {ended : Ended F n} {answer : Vector F n × Report F}
    (ran : Returns (conclude kernels caller ended) before answer after) :
    ∃ final middle termination,
      ((ended.state.real = true ∧ final = ended.state ∧ middle = before) ∨
        (ended.state.real = false ∧
          Returns (evaluateIterate caller ended.state) before final middle)) ∧
      ((isFinite final.tally.best.value = true ∧ termination = ended.termination ∧
          after = middle) ∨
        (isFinite final.tally.best.value = false ∧ termination = .notFinite ∧
          Returns (caller.note (.unbounded ended.iterations final.tally.best.value)) middle ()
            after)) ∧
      answer =
        (final.tally.best.point,
          { status := termination.status
            termination
            value := final.tally.best.value
            gradientNorm := sqrt (kernels.normSquared final.tally.best.gradient)
            iterations := ended.iterations
            evaluations := final.tally.evaluations }) := by
  simp only [conclude] at ran
  split at ran
  · next real =>
    obtain ⟨final, middle, settled, rest⟩ := returns_bind.mp ran
    obtain ⟨rfl, rfl⟩ := returns_pure.mp settled
    obtain ⟨termination, _, judged, last⟩ := judge_returns rest
    obtain ⟨rfl, rfl⟩ := returns_pure.mp last
    exact ⟨_, _, termination, Or.inl ⟨real, rfl, rfl⟩, judged, rfl⟩
  · next fitted =>
    obtain ⟨final, middle, settled, rest⟩ := returns_bind.mp ran
    obtain ⟨termination, _, judged, last⟩ := judge_returns rest
    obtain ⟨rfl, rfl⟩ := returns_pure.mp last
    exact ⟨final, middle, termination, Or.inr ⟨by simpa using fitted, settled⟩, judged, rfl⟩

theorem threads_of_create {threads length : Nat} {context : Context}
    (accepted : Context.create threads length = .ok context) : 0 < threads := by
  cases threads with
  | zero => exact nomatch accepted
  | succ threads => exact Nat.succ_pos threads

variable [LawfulMonad m] {runner : Runner} {x : Vector F n}

/-- A minimization is its parts one after the other, once the threads are accepted. -/
theorem minimize_returns_iff {answer : Vector F n × Report F} :
    Returns (minimize settings runner caller x) before answer after ↔
      (∃ context, Context.create settings.threads n = .ok context) ∧
      ∃ started begun ended middle,
        Returns (start (Kernels.shared F n settings.threads runner) settings caller x) before
          started begun ∧
        Runs (Kernels.shared F n settings.threads runner) settings caller 0 started begun ended
          middle ∧
        Returns (conclude (Kernels.shared F n settings.threads runner) caller ended) middle answer
          after := by
  simp only [minimize, discard, Functor.discard, LawfulFunctor.map_const]
  constructor
  · intro ran
    obtain ⟨_, _, created, rest⟩ := returns_bind.mp ran
    obtain ⟨started, begun, starts, rest⟩ := returns_bind.mp rest
    obtain ⟨ended, middle, runs, concludes⟩ := returns_bind.mp rest
    obtain ⟨context, creates, _⟩ := returns_map.mp created
    obtain ⟨accepted, rfl⟩ := returns_ofExcept.mp creates
    exact ⟨⟨context, accepted⟩, started, begun, ended, middle, starts, run_returns runs,
      concludes⟩
  · rintro ⟨⟨context, accepted⟩, started, begun, ended, middle, starts, runs, concludes⟩
    have created : Returns
        (Function.const _ () <$>
          (MonadExcept.ofExcept (Context.create settings.threads n) : m Context))
        before () before :=
      returns_map.mpr ⟨context, returns_ofExcept.mpr ⟨accepted, rfl⟩, rfl⟩
    exact returns_bind.mpr ⟨_, before, created, returns_bind.mpr ⟨started, begun, starts,
      returns_bind.mpr ⟨ended, middle, returns_run runs, concludes⟩⟩⟩

theorem minimize_returns {answer : Vector F n × Report F}
    (ran : Returns (minimize settings runner caller x) before answer after) :
    0 < settings.threads ∧ ∃ started begun ended middle,
      Returns (start (Kernels.shared F n settings.threads runner) settings caller x) before
        started begun ∧
      Runs (Kernels.shared F n settings.threads runner) settings caller 0 started begun ended
        middle ∧
      Returns (conclude (Kernels.shared F n settings.threads runner) caller ended) middle answer
        after := by
  obtain ⟨⟨_, accepted⟩, parts⟩ := minimize_returns_iff.mp ran
  exact ⟨threads_of_create accepted, parts⟩

theorem minimize_iterations_le {answer : Vector F n × Report F}
    (ran : Returns (minimize settings runner caller x) before answer after) :
    answer.2.iterations ≤ settings.maxIterations := by
  obtain ⟨_, _, _, ended, _, _, ⟨_, _, passes, _⟩, concludes⟩ := minimize_returns ran
  obtain ⟨_, _, _, _, _, rfl⟩ := conclude_returns concludes
  exact passes_within (Nat.zero_le _) passes

end Minimization

/-! What the questions of a caller keep, every part of a run keeps. -/

namespace Minimization

section Kept

variable {m : Type → Type} [Monad m] [MonadExceptOf Fault m] {World : Type} [Execution m World]
variable {F : Type} [Unbounded F] {n : Nat}
variable {kernels : Kernels F n} {settings : Settings F} {caller : Caller m F n}
variable {before after : World} {done : Nat} {state left : State F n}
variable {Holds : World → World → Prop} (lasting : Lasting Holds)
variable (questions : caller.Corresponds (fun _ program _ => Keeps Holds program) caller)

include lasting questions

theorem pass_keeps (pass : Pass kernels settings caller done state before left after) :
    Holds before after := by
  have rules := lasting.congruent (m := m)
  obtain ⟨checked, middle, checks, iterated, _, iterates, notes⟩ := pass
  have asked : Holds before middle := check_corresponds rules questions _ _ _ checks
  have moved : Holds middle iterated := iterate_corresponds rules questions _ _ _ iterates
  exact lasting.trans asked (lasting.trans moved (questions.note _ _ _ _ notes))

theorem passes_keep {last : Nat}
    (passes : Passes kernels settings caller done state before last left after) :
    Holds before after := by
  induction passes with
  | refl => exact lasting.refl _
  | next pass _ ih => exact lasting.trans (pass_keeps lasting questions pass) ih

theorem ends_keep {ended : Ended F n}
    (ends : Ends kernels settings caller state before ended after) : Holds before after := by
  have rules := lasting.congruent (m := m)
  rcases ends with checks | ⟨middle, checks, _, cancels, _⟩
  · exact check_corresponds rules questions _ _ _ checks
  · have asked : Holds before middle := check_corresponds rules questions _ _ _ checks
    exact lasting.trans asked (questions.cancel _ _ _ cancels)

theorem runs_keep {ended : Ended F n}
    (runs : Runs kernels settings caller done state before ended after) : Holds before after := by
  obtain ⟨last, middle, passes, ends⟩ := runs
  exact lasting.trans (passes_keep lasting questions passes) (ends_keep lasting questions ends)

end Kept

end Minimization

/-! The states that a minimization comes to. -/

namespace Minimization

variable {m : Type → Type} [Monad m] [MonadExceptOf Fault m] {World : Type} [Execution m World]
variable {F : Type} {n : Nat} {caller : Caller m F n} {before after : World}
variable [Unbounded F] {settings : Settings F} {runner : Runner} {x : Vector F n}

/-- A minimization from `x` comes to this state after so many iterations. -/
def Visits (settings : Settings F) (runner : Runner) (caller : Caller m F n)
    (x : Vector F n) (before : World) (done : Nat) (state : State F n) (after : World) : Prop :=
  0 < settings.threads ∧ ∃ started begun,
    Returns (start (Kernels.shared F n settings.threads runner) settings caller x) before
      started begun ∧
    Passes (Kernels.shared F n settings.threads runner) settings caller 0 started begun done state
      after

theorem visits_keep {Holds : World → World → Prop} (lasting : Lasting Holds)
    (questions : caller.Corresponds (fun _ program _ => Keeps Holds program) caller) {done : Nat}
    {state : State F n} (visits : Visits settings runner caller x before done state after) :
    Holds before after := by
  obtain ⟨_, started, begun, starts, passes⟩ := visits
  have opened : Holds before begun :=
    start_corresponds lasting.congruent questions _ _ _ starts
  exact lasting.trans opened (passes_keep lasting questions passes)

theorem visits_unique {done : Nat} {state state' : State F n} {after' : World}
    (visits : Visits settings runner caller x before done state after)
    (visits' : Visits settings runner caller x before done state' after') :
    state' = state ∧ after' = after := by
  obtain ⟨_, _, _, starts, passes⟩ := visits
  obtain ⟨_, _, _, starts', passes'⟩ := visits'
  obtain ⟨rfl, rfl⟩ := returns_unique starts starts'
  cases passes_resume passes passes' (Nat.le_refl done) with
  | refl => exact ⟨rfl, rfl⟩
  | next _ rest => exact absurd (passes_le rest) (Nat.not_succ_le_self done)

theorem visits_earlier {done earlier : Nat} {state : State F n} (ordered : earlier ≤ done)
    (visits : Visits settings runner caller x before done state after) :
    ∃ state' reached, Visits settings runner caller x before earlier state' reached ∧
      Passes (Kernels.shared F n settings.threads runner) settings caller earlier state' reached
        done state after := by
  obtain ⟨threads, started, begun, starts, passes⟩ := visits
  obtain ⟨state', reached, first, rest⟩ := passes_split (Nat.zero_le _) ordered passes
  exact ⟨state', reached, ⟨threads, started, begun, starts, first⟩, rest⟩

theorem visits_extend {done last : Nat} {state next : State F n} {middle : World}
    (visits : Visits settings runner caller x before done state middle)
    (passes : Passes (Kernels.shared F n settings.threads runner) settings caller done state middle
      last next after) : Visits settings runner caller x before last next after := by
  obtain ⟨threads, started, begun, starts, opened⟩ := visits
  exact ⟨threads, started, begun, starts, passes_append opened passes⟩

theorem visits_next {done : Nat} {state next : State F n} {middle : World}
    (visits : Visits settings runner caller x before done state middle)
    (pass : Pass (Kernels.shared F n settings.threads runner) settings caller done state middle next
      after) : Visits settings runner caller x before (done + 1) next after :=
  visits_extend visits (.next pass (.refl _ _ _))

/-- What the first state has, and every pass of the run keeps, all states have. -/
theorem visits_invariant (Kept : Nat → State F n → World → Prop) {done : Nat} {state : State F n}
    (begins : ∀ started begun,
      Returns (start (Kernels.shared F n settings.threads runner) settings caller x) before started
        begun →
      Visits settings runner caller x before 0 started begun → Kept 0 started begun)
    (step : ∀ done state middle next after,
      Visits settings runner caller x before done state middle → Kept done state middle →
      Pass (Kernels.shared F n settings.threads runner) settings caller done state middle next
        after →
      Kept (done + 1) next after)
    (visits : Visits settings runner caller x before done state after) : Kept done state after := by
  obtain ⟨threads, started, begun, starts, passes⟩ := visits
  have opened : Visits settings runner caller x before 0 started begun :=
    ⟨threads, started, begun, starts, .refl _ _ _⟩
  refine (passes_invariant (fun done state world =>
    Visits settings runner caller x before done state world ∧ Kept done state world) ?_ passes
      ⟨opened, begins started begun starts opened⟩).2
  rintro done state middle next after ⟨visits, kept⟩ pass
  exact ⟨visits_next visits pass, step done state middle next after visits kept pass⟩

theorem visits_of_minimize [LawfulMonad m] {answer : Vector F n × Report F}
    (ran : Returns (minimize settings runner caller x) before answer after) :
    ∃ last middle, Visits settings runner caller x before answer.2.iterations last middle := by
  obtain ⟨threads, started, begun, _, _, starts, ⟨last, middle, passes, _⟩, concludes⟩ :=
    minimize_returns ran
  obtain ⟨_, _, _, _, _, rfl⟩ := conclude_returns concludes
  exact ⟨last, middle, threads, started, begun, starts, passes⟩

theorem minimize_resumes [LawfulMonad m] {answer : Vector F n × Report F} {done : Nat}
    {state : State F n} {reached : World}
    (ran : Returns (minimize settings runner caller x) before answer after)
    (visits : Visits settings runner caller x before done state reached) :
    ∃ ended middle,
      Runs (Kernels.shared F n settings.threads runner) settings caller done state reached ended
        middle ∧
      Returns (conclude (Kernels.shared F n settings.threads runner) caller ended) middle answer
        after := by
  obtain ⟨_, started, begun, ended, middle, starts, runs, concludes⟩ := minimize_returns ran
  obtain ⟨_, started', begun', starts', passes⟩ := visits
  obtain ⟨rfl, rfl⟩ := returns_unique starts' starts
  exact ⟨ended, middle, runs_resume runs passes, concludes⟩

theorem rest_keeps [LawfulMonad m] {Holds : World → World → Prop} (lasting : Lasting Holds)
    (questions : caller.Corresponds (fun _ program _ => Keeps Holds program) caller)
    {answer : Vector F n × Report F} {done : Nat} {state : State F n} {reached : World}
    (ran : Returns (minimize settings runner caller x) before answer after)
    (visits : Visits settings runner caller x before done state reached) : Holds reached after := by
  obtain ⟨ended, middle, runs, concludes⟩ := minimize_resumes ran visits
  have concluded : Holds middle after :=
    conclude_corresponds lasting.congruent questions _ _ _ concludes
  exact lasting.trans (runs_keep lasting questions runs) concluded

end Minimization

/-! The states of a run, computed. -/

namespace Minimization

section Programs

variable {m : Type → Type} [Monad m] [MonadExceptOf Fault m] {F : Type} [Unbounded F] {n : Nat}

def attempt (kernels : Kernels F n) (settings : Settings F) (caller : Caller m F n) (done : Nat)
    (state : State F n) : m (Option (State F n)) := do
  let (termination?, checked) ← check kernels settings caller done state
  if termination?.isNone ∧ done < settings.maxIterations then
    let next ← iterate kernels settings caller (done + 1) checked
    caller.note (.iterated (done + 1) next.value next.tally.best.value next.step)
    pure (some next)
  else pure none

def follow (kernels : Kernels F n) (settings : Settings F) (caller : Caller m F n) :
    Nat → Nat → State F n → m (Option (State F n))
  | 0, _, state => pure (some state)
  | count + 1, done, state => do
      match ← attempt kernels settings caller done state with
      | none => pure none
      | some next => follow kernels settings caller count (done + 1) next

def visit (settings : Settings F) (runner : Runner) (caller : Caller m F n) (x : Vector F n)
    (count : Nat) : m (Option (State F n)) := do
  let kernels := Kernels.shared F n settings.threads runner
  let started ← start kernels settings caller x
  follow kernels settings caller count 0 started

variable {World : Type} [Execution m World] {kernels : Kernels F n} {settings : Settings F}
variable {caller : Caller m F n} {before after : World} {done : Nat} {state left : State F n}

theorem pass_of_attempt
    (ran : Returns (attempt kernels settings caller done state) before (some left) after) :
    Pass kernels settings caller done state before left after := by
  obtain ⟨⟨termination?, checked⟩, middle, checks, rest⟩ := returns_bind.mp ran
  dsimp only at rest
  split at rest
  · next goesOn =>
    obtain ⟨next, iterated, iterates, rest⟩ := returns_bind.mp rest
    obtain ⟨_, _, notes, last⟩ := returns_bind.mp rest
    obtain ⟨same, rfl⟩ := returns_pure.mp last
    obtain rfl := Option.some.inj same
    obtain rfl := Option.isNone_iff_eq_none.mp goesOn.1
    exact ⟨checked, middle, checks, iterated, goesOn.2, iterates, notes⟩
  · exact nomatch (returns_pure.mp rest).1

theorem passes_of_follow {count : Nat}
    (ran : Returns (follow kernels settings caller count done state) before (some left) after) :
    Passes kernels settings caller done state before (done + count) left after := by
  induction count generalizing done state before with
  | zero =>
    obtain ⟨same, rfl⟩ := returns_pure.mp ran
    obtain rfl := Option.some.inj same
    exact .refl _ _ _
  | succ count ih =>
    obtain ⟨next?, middle, attempts, rest⟩ := returns_bind.mp ran
    cases next? with
    | none => exact nomatch (returns_pure.mp rest).1
    | some next =>
      have further := ih rest
      rw [Nat.add_right_comm, Nat.add_assoc] at further
      exact .next (pass_of_attempt attempts) further

theorem visits_of_visit {runner : Runner} {x : Vector F n} {count : Nat}
    (threads : 0 < settings.threads)
    (ran : Returns (visit settings runner caller x count) before (some state) after) :
    Visits settings runner caller x before count state after := by
  obtain ⟨started, begun, starts, follows⟩ := returns_bind.mp ran
  have passes := passes_of_follow follows
  rw [Nat.zero_add] at passes
  exact ⟨threads, started, begun, starts, passes⟩

end Programs

end Minimization

end Descent

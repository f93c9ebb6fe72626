import Descent.Proofs.Binary
import Descent.Proofs.Completion
import Descent.Proofs.Position

/-!
How often the objective is evaluated. A fitted iterate is owed one evaluation, which it gets in a
check, before a careful search or at the end, or never if a further fit replaces it. Evaluations
that were made or are owed grow with iterations only, by the first probe and either the probes of
a careful search or the new fit.
-/

namespace Descent

open Scalar Execution

variable {F : Type} {n : Nat}

/-! Settings that callers can have. -/

theorem guard_bind {A : Type} {rule : Precondition} {kept : Prop} [Decidable kept]
    {next : Unit → Except Fault A} {answer : A}
    (accepted : (rule.guard kept >>= next) = .ok answer) : kept ∧ next () = .ok answer := by
  by_cases holds : kept
  · rw [Precondition.guard, if_pos holds] at accepted
    exact ⟨holds, accepted⟩
  · rw [Precondition.guard, if_neg holds] at accepted
    cases accepted

theorem Tuning.bounds_of_check [Scalar F] {tuning : Tuning F} (checked : tuning.check = .ok ()) :
    1 < tuning.maxStepGrowth ∧ tuning.fitInterior ≤ 1 ∧ 0 < tuning.maxProbes := by
  obtain ⟨_, checked⟩ := guard_bind checked
  obtain ⟨_, checked⟩ := guard_bind checked
  obtain ⟨grows, checked⟩ := guard_bind checked
  obtain ⟨⟨_, interior⟩, checked⟩ := guard_bind checked
  by_cases positive : 0 < tuning.maxProbes
  · exact ⟨grows, interior, positive⟩
  · rw [Precondition.guard, if_neg positive] at checked
    cases checked

namespace Settings

variable [Scalar F]

/-- What can be reached from the standard settings by setting one after the other. -/
inductive Accepted : Settings F → Prop where
  | standard : Accepted standard
  | firstStep {settings next : Settings F} (step : F) :
      Accepted settings → settings.withFirstStep step = .ok next → Accepted next
  | noResetRunLength {settings next : Settings F} (length : Nat) :
      Accepted settings → settings.withNoResetRunLength length = .ok next → Accepted next
  | resetExpandFactor {settings next : Settings F} (factor : F) :
      Accepted settings → settings.withResetExpandFactor factor = .ok next → Accepted next
  | maxIterations {settings next : Settings F} (limit : Nat) :
      Accepted settings → settings.withMaxIterations limit = .ok next → Accepted next
  | gradientTolerance {settings next : Settings F} (tolerance : F) :
      Accepted settings → settings.withGradientTolerance tolerance = .ok next → Accepted next
  | threads {settings next : Settings F} (threads : Nat) :
      Accepted settings → settings.withThreads threads = .ok next → Accepted next
  | seed {settings : Settings F} (seed : UInt64) :
      Accepted settings → Accepted (settings.withSeed seed)
  | tuning {settings next : Settings F} (tuning : Tuning F) :
      Accepted settings → settings.withTuning tuning = .ok next → Accepted next

theorem Accepted.keeps (Kept : F → Nat → Tuning F → Prop) (begun : Kept 1 1 .standard)
    (steps : ∀ {first step : F} {threads : Nat} {tuning : Tuning F},
      0 < step → Kept first threads tuning → Kept step threads tuning)
    (forks : ∀ {first : F} {threads count : Nat} {tuning : Tuning F},
      0 < count → Kept first threads tuning → Kept first count tuning)
    (tunes : ∀ {first : F} {threads : Nat} {tuning next : Tuning F},
      next.check = .ok () → Kept first threads tuning → Kept first threads next)
    {settings : Settings F} (accepted : settings.Accepted) :
    Kept settings.firstStep settings.threads settings.tuning := by
  induction accepted with
  | standard => exact begun
  | firstStep _ _ set ih =>
    obtain ⟨positive, same⟩ := guard_bind set
    obtain rfl := Except.ok.inj same
    exact steps positive ih
  | threads _ _ set ih =>
    obtain ⟨positive, same⟩ := guard_bind set
    obtain rfl := Except.ok.inj same
    exact forks positive ih
  | noResetRunLength _ _ set ih | resetExpandFactor _ _ set ih | maxIterations _ _ set ih
  | gradientTolerance _ _ set ih =>
    obtain ⟨_, same⟩ := guard_bind set
    obtain rfl := Except.ok.inj same
    exact ih
  | seed _ _ ih => exact ih
  | tuning tuning _ set ih =>
    cases checked : tuning.check with
    | error fault =>
      rw [withTuning, checked] at set
      exact nomatch set
    | ok =>
      rw [withTuning, checked] at set
      obtain rfl := Except.ok.inj set
      exact tunes checked ih

theorem Accepted.positive {settings : Settings F} (accepted : settings.Accepted) :
    0 < settings.threads ∧ 0 < settings.tuning.maxProbes := by
  refine accepted.keeps (fun _ threads tuning => 0 < threads ∧ 0 < tuning.maxProbes)
    ⟨Nat.zero_lt_one, Nat.succ_pos 29⟩ ?_ ?_ ?_
  · exact fun _ positive => positive
  · exact fun count positive => ⟨count, positive.2⟩
  · exact fun checked positive => ⟨positive.1, (Tuning.bounds_of_check checked).2.2⟩

theorem Accepted.firstStep_pos [Forward F] {settings : Settings F}
    (accepted : settings.Accepted) : 0 < settings.firstStep :=
  accepted.keeps (fun first _ _ => 0 < first) Forward.zero_lt_one (fun positive _ => positive)
    (fun _ positive => positive) fun _ positive => positive

end Settings

/-! What the parts of a run spend. -/

namespace State

/-- The evaluations that were made, and the one that a fitted iterate is owed. -/
def committed (state : State F n) : Nat :=
  state.tally.evaluations + if state.real then 0 else 1

theorem committed_of_real {state : State F n} (real : state.real = true) :
    state.committed = state.tally.evaluations := by
  rw [committed, if_pos real, Nat.add_zero]

theorem committed_of_fitted {state : State F n} (fitted : state.real = false) :
    state.committed = state.tally.evaluations + 1 := by
  rw [committed, if_neg (by simp [fitted])]

end State

namespace Minimization

variable {m : Type → Type} [Monad m] [MonadExceptOf Fault m] {World : Type} [Execution m World]
variable [Unbounded F]
variable {kernels : Kernels F n} {settings : Settings F} {caller : Caller m F n}
variable {before after : World} {iteration done : Nat} {state left : State F n}

theorem evaluateIterate_committed
    (ran : Returns (evaluateIterate caller state) before left after) :
    left.real = true ∧ left.tally.evaluations = state.tally.evaluations + 1 := by
  obtain ⟨value, gradient, _, rfl⟩ := evaluateIterate_returns ran
  exact ⟨rfl, rfl⟩

/-- The iterate stays, and nothing is evaluated unless it was fitted: then it may be evaluated
once, and is real from then on. -/
structure Settles (state left : State F n) : Prop where
  stays : left.x = state.x
  once : (left.real = state.real ∧ left.tally.evaluations = state.tally.evaluations) ∨
    (state.real = false ∧ left.real = true ∧
      left.tally.evaluations = state.tally.evaluations + 1)

omit [Unbounded F] in
theorem Settles.committed (settles : Settles state left) : left.committed = state.committed := by
  rcases settles.once with ⟨real, same⟩ | ⟨fitted, real, paid⟩
  · rw [State.committed, State.committed, real, same]
  · rw [State.committed_of_real real, State.committed_of_fitted fitted, paid]

theorem check_settles {termination? : Option Termination}
    (ran : Returns (check kernels settings caller done state) before (termination?, left) after) :
    Settles state left := by
  rcases check_left ran with rfl | ⟨fitted, _, evaluates⟩
  · exact ⟨rfl, Or.inl ⟨rfl, rfl⟩⟩
  · obtain ⟨value, gradient, _, rfl⟩ := evaluateIterate_returns evaluates
    exact ⟨rfl, Or.inr ⟨fitted, rfl, rfl⟩⟩

theorem move_keeps {line : Record F n} {target : State.Move F n}
    (ran : Returns (move kernels settings caller iteration state line target) before left after) :
    left.tally = state.tally ∧ left.real = target.real := by
  obtain ⟨rfl, _⟩ := move_returns ran
  have moved := state.advance_position kernels settings line target
  exact ⟨congrArg Position.tally moved, congrArg Position.real moved⟩

theorem settle_committed {probe : Marked F n} {bestBefore : F} {keep : Bool}
    (ran : Returns (settle kernels caller iteration state probe bestBefore) before (keep, left)
      after) :
    left.real = true ∧ left.tally.evaluations = state.committed := by
  rcases settle_returns ran with ⟨real, _, rfl, _⟩ | ⟨fitted, evaluated, _, evaluates, ends⟩
  · exact ⟨real, (State.committed_of_real real).symm⟩
  · obtain ⟨real, paid⟩ := evaluateIterate_committed evaluates
    rw [State.committed_of_fitted fitted]
    rcases ends with ⟨_, _, rfl, _⟩ | ⟨_, _, rfl, _⟩
    · exact ⟨real, paid⟩
    · exact ⟨real, paid⟩

theorem searchSlope_keeps {keep kept : Bool} {slope? : Option F}
    (ran : Returns (searchSlope kernels caller iteration state keep) before
      (kept, slope?, left) after) :
    left.position = state.position := by
  rcases searchSlope_returns ran with ⟨_, _, _, _, rfl, _⟩ | ⟨_, _, turns⟩
  · rfl
  · exact downhill_keeps turns

theorem probe_evaluations {step : F} {trail next : Trail F n} {marked : Marked F n}
    (ran : Returns (probe kernels caller state step trail) before (marked, next) after) :
    next.tally.evaluations = trail.tally.evaluations + 1 := by
  obtain ⟨value, gradient, _, _, counted, _⟩ := probe_returns ran
  rw [counted]
  rfl

theorem search_evaluations {bracket : Bracket F} {firstStep : F} {trail next : Trail F n}
    {found : Found F} (fresh : bracket.probes = 0)
    (ran : Returns (search settings.tuning (probing kernels caller state) firstStep bracket trail)
      before (found, next) after) :
    next.tally.evaluations = trail.tally.evaluations + found.probes ∧
      found.probes ≤ settings.tuning.maxProbes := by
  obtain ⟨last, ⟨counted, within⟩, _, _, probes⟩ := search_invariant
    (fun bracket (next : Trail F n) _ =>
      next.tally.evaluations = trail.tally.evaluations + bracket.probes ∧
        bracket.probes ≤ settings.tuning.maxProbes)
    (by
      intro bracket carried before sample next after kept goesOn probed
      obtain ⟨marked, rfl, probes⟩ := probing_returns probed
      have more := bracket.probes_lt_of_exit?_none _ goesOn
      rw [probe_evaluations probes, Bracket.absorb_probes]
      omega)
    ⟨by rw [fresh, Nat.add_zero], by omega⟩ ran
  rw [probes]
  exact ⟨counted, within⟩

theorem opening_probes {tuning : Tuning F} {start : Sample F} {opened : Bracket F}
    (opens : Bracket.create start = .ok opened) (line : Record F n) (kept : Option (Marked F n)) :
    (opening tuning opened line kept).2.probes = 0 := by
  have fresh : opened.probes = 0 := congrArg Bracket.probes (Bracket.eq_of_create opens).2
  cases kept with
  | none => exact fresh
  | some probe => exact (Bracket.merge_probes tuning opened probe.sample false).trans fresh

theorem searchLine_evaluations {slope step : F} {kept : Option (Marked F n)}
    (real : state.real = true)
    (ran : Returns (searchLine kernels settings caller iteration state slope kept step) before left
      after) :
    left.real = true ∧
      left.tally.evaluations ≤ state.tally.evaluations + settings.tuning.maxProbes := by
  obtain ⟨opened, found, trail, _, opens, searched, ends⟩ := searchLine_returns ran
  obtain ⟨counted, within⟩ := search_evaluations (opening_probes opens _ kept) searched
  simp only at counted
  rcases ends with ⟨_, moves⟩ | ⟨_, _, rfl⟩
  · obtain ⟨tally, moved⟩ := move_keeps moves
    refine ⟨moved, ?_⟩
    rw [tally]
    change trail.tally.evaluations ≤ _
    omega
  · refine ⟨real, ?_⟩
    change trail.tally.evaluations ≤ _
    omega

/-- A careful search pays what is owed and then probes. It ends at a real iterate. -/
theorem careful_evaluations {probe : Marked F n} {step bestBefore : F}
    (ran : Returns (careful kernels settings caller iteration state probe step bestBefore) before
      left after) :
    left.real = true ∧
      left.tally.evaluations ≤ state.committed + settings.tuning.maxProbes := by
  obtain ⟨keep, settled, _, kept, slope?, turned, _, settles, turns, ends⟩ := careful_returns ran
  obtain ⟨real, paid⟩ := settle_committed settles
  have same := searchSlope_keeps turns
  have tally : turned.tally = settled.tally := congrArg Position.tally same
  have real : turned.real = true := (congrArg Position.real same).trans real
  rw [← paid, ← tally]
  rcases ends with ⟨_, rfl, _⟩ | ⟨slope, _, searched⟩
  · exact ⟨real, Nat.le_add_right _ _⟩
  · exact searchLine_evaluations real searched

/-- An iteration finds no way down, or it probes once and takes up a fit, or it goes on to a
careful search. -/
theorem iterate_evaluations
    (ran : Returns (iterate kernels settings caller iteration state) before left after) :
    (left.tally.evaluations = state.tally.evaluations ∧ left.real = state.real) ∨
    (left.tally.evaluations = state.tally.evaluations + 1 ∧ left.real = false) ∨
    (left.tally.evaluations ≤ state.committed + 1 + settings.tuning.maxProbes ∧
      left.real = true) := by
  obtain ⟨slope?, turned, _, turns, ends⟩ := iterate_returns ran
  have same := downhill_keeps turns
  have tally : turned.tally = state.tally := congrArg Position.tally same
  have real : turned.real = state.real := congrArg Position.real same
  rcases ends with ⟨_, rfl, _⟩ | ⟨slope, step, stepped, probed, trail, _, _, chosen, probes, ends⟩
  · exact Or.inl ⟨congrArg Tally.evaluations tally, real⟩
  · obtain ⟨jitter, stepping⟩ := turned.probeStep_eq settings
    rw [chosen] at stepping
    obtain rfl : stepped = { turned with jitter } := stepping
    have once : trail.tally.evaluations = state.tally.evaluations + 1 := by
      rw [probe_evaluations probes, ← tally]
    rcases ends with ⟨fit, _, moves⟩ | ⟨_, searched⟩
    · obtain ⟨moved, fitted⟩ := move_keeps moves
      exact Or.inr (Or.inl ⟨(congrArg Tally.evaluations moved).trans once, fitted⟩)
    · obtain ⟨settled, within⟩ := careful_evaluations searched
      refine Or.inr (Or.inr ⟨?_, settled⟩)
      rw [State.committed, once] at within
      simp only [real] at within
      rw [State.committed]
      omega

theorem iterate_committed (probes : 0 < settings.tuning.maxProbes)
    (ran : Returns (iterate kernels settings caller iteration state) before left after) :
    left.committed ≤ state.committed + (1 + settings.tuning.maxProbes) := by
  rcases iterate_evaluations ran with ⟨same, real⟩ | ⟨once, fitted⟩ | ⟨within, real⟩
  · rw [State.committed, State.committed, same, real]
    omega
  · rw [State.committed_of_fitted fitted, State.committed]
    omega
  · rw [State.committed_of_real real]
    omega

theorem conclude_evaluations {ended : Ended F n} {answer : Vector F n × Report F}
    (ran : Returns (conclude kernels caller ended) before answer after) :
    answer.2.iterations = ended.iterations ∧ answer.2.evaluations = ended.state.committed := by
  obtain ⟨final, _, termination, settled, _, rfl⟩ := conclude_returns ran
  refine ⟨rfl, ?_⟩
  rcases settled with ⟨real, rfl, _⟩ | ⟨fitted, evaluates⟩
  · exact (State.committed_of_real real).symm
  · rw [State.committed_of_fitted fitted]
    exact (evaluateIterate_committed evaluates).2

/-! What a run spends. -/

theorem runs_committed (probes : 0 < settings.tuning.maxProbes) {ended : Ended F n}
    (runs : Runs kernels settings caller 0 state before ended after) :
    ended.state.committed ≤
      state.committed + ended.iterations * (1 + settings.tuning.maxProbes) := by
  obtain ⟨last, middle, passes, ends⟩ := runs
  have spent : last.committed ≤
      state.committed + ended.iterations * (1 + settings.tuning.maxProbes) := by
    apply passes_invariant (fun done (next : State F n) _ =>
      next.committed ≤ state.committed + done * (1 + settings.tuning.maxProbes)) ?_ passes
    · omega
    · intro done state before next after kept pass
      obtain ⟨checked, _, checks, _, _, iterates, _⟩ := pass
      have same := (check_settles checks).committed
      have grown := iterate_committed probes iterates
      rw [Nat.succ_mul]
      omega
  have same : ended.state.committed = last.committed := by
    rcases ends with checks | ⟨_, checks, _⟩
    · exact (check_settles checks).committed
    · exact (check_settles checks).committed
  rw [same]
  exact spent

theorem minimize_evaluations [LawfulMonad m] (probes : 0 < settings.tuning.maxProbes)
    {runner : Runner} {x : Vector F n} {answer : Vector F n × Report F}
    (ran : Returns (minimize settings runner caller x) before answer after) :
    answer.2.iterations ≤ settings.maxIterations ∧
      answer.2.evaluations ≤ 1 + answer.2.iterations * (1 + settings.tuning.maxProbes) := by
  refine ⟨minimize_iterations_le ran, ?_⟩
  obtain ⟨_, started, _, ended, _, starts, runs, concludes⟩ := minimize_returns ran
  obtain ⟨value, gradient, _, rfl⟩ := start_returns starts
  obtain ⟨iterations, paid⟩ := conclude_evaluations concludes
  rw [iterations, paid]
  exact runs_committed probes runs

/-- What the parts of a run may evaluate. A check and the end of the run evaluate a fitted iterate
once and nothing else. A careful search evaluates it before it probes. -/
structure Spends (kernels : Kernels F n) (settings : Settings F) (caller : Caller m F n) :
    Prop where
  check {done : Nat} {state left : State F n} {termination? : Option Termination}
    {before after : World} :
    Returns (check kernels settings caller done state) before (termination?, left) after →
      Settles state left
  careful {iteration : Nat} {state left : State F n} {probe : Marked F n} {step bestBefore : F}
    {before after : World} :
    Returns (careful kernels settings caller iteration state probe step bestBefore) before left
        after →
      left.real = true ∧
        left.tally.evaluations ≤ state.committed + settings.tuning.maxProbes
  iterate {iteration : Nat} {state left : State F n} {before after : World} :
    Returns (iterate kernels settings caller iteration state) before left after →
      (left.tally.evaluations = state.tally.evaluations ∧ left.real = state.real) ∨
      (left.tally.evaluations = state.tally.evaluations + 1 ∧ left.real = false) ∨
      (left.tally.evaluations ≤ state.committed + 1 + settings.tuning.maxProbes ∧
        left.real = true)
  conclude {ended : Ended F n} {answer : Vector F n × Report F} {before after : World} :
    Returns (conclude kernels caller ended) before answer after →
      answer.2.iterations = ended.iterations ∧ answer.2.evaluations = ended.state.committed

theorem spends (kernels : Kernels F n) (settings : Settings F) (caller : Caller m F n) :
    Spends kernels settings caller where
  check := check_settles
  careful := careful_evaluations
  iterate := iterate_evaluations
  conclude := conclude_evaluations

end Minimization

/-! Callers that answer. -/

section Answering

variable {σ : Type}

def answering {A : Type} (program : StateM σ A) : StateT σ (Except Fault) A :=
  fun world => .ok (program.run world)

theorem completes_answering {A : Type} (program : StateM σ A) : Completes (answering program) :=
  fun before => ⟨(program.run before.1).1, ((program.run before.1).2, ()), rfl⟩

/-- A caller that may do what it likes with a state of its own, where a run may fail. -/
def Caller.answering (caller : Caller (StateM σ) F n) : Caller (StateT σ (Except Fault)) F n where
  evaluate x := Descent.answering (caller.evaluate x)
  shouldStop x best iterations := Descent.answering (caller.shouldStop x best iterations)
  isCancelled := Descent.answering caller.isCancelled
  cancel := Descent.answering caller.cancel
  note event := Descent.answering (caller.note event)

theorem Caller.answering_responds (caller : Caller (StateM σ) F n) : caller.answering.Responds where
  evaluate _ := completes_answering _
  shouldStop _ _ _ := completes_answering _
  isCancelled := completes_answering _
  cancel := completes_answering _
  note _ := completes_answering _

end Answering

namespace Minimization

/-- The loop ends, from whatever state and whatever the caller answers. The report is made as soon
as memory has room for the settings, and keeps to both limits. -/
theorem minimize_limited {σ F : Type} [Unbounded F] [Opposing F] {n : Nat} (settings : Settings F)
    (accepted : settings.Accepted) (runner : Runner) (caller : Caller (StateM σ) F n)
    (x : Vector F n) (before : σ) :
    (∀ state, Completes
      (run (Kernels.shared F n settings.threads runner) settings caller.answering 0 state)) ∧
    Spends (Kernels.shared F n settings.threads runner) settings caller.answering ∧
    ((∃ answer after,
        (minimize settings runner caller.answering x).run before = .ok (answer, after)) ↔
      settings.Addressable) ∧
    ∀ answer after,
      (minimize settings runner caller.answering x).run before = .ok (answer, after) →
      answer.2.iterations ≤ settings.maxIterations ∧
        answer.2.evaluations ≤ 1 + answer.2.iterations * (1 + settings.tuning.maxProbes) := by
  obtain ⟨threads, probes⟩ := accepted.positive
  have responds := caller.answering_responds
  have returned {answer : Vector F n × Report F} {after : σ}
      (ran : (minimize settings runner caller.answering x).run before = .ok (answer, after)) :
      Returns (minimize settings runner caller.answering x) (before, ()) answer (after, ()) := ran
  refine ⟨run_completes responds 0, spends _ _ _, ⟨?_, ?_⟩, ?_⟩
  · rintro ⟨answer, after, ran⟩
    exact addressable_of_minimize (returned ran)
  · intro room
    have completes : Completes (minimize settings runner caller.answering x) :=
      minimize_completes responds threads room
    obtain ⟨answer, after, ran⟩ := completes (before, ())
    exact ⟨answer, after.1, ran⟩
  · intro answer after ran
    exact minimize_evaluations probes (returned ran)

def shortSearch : Tuning Float := { Tuning.standard with maxProbes := 2 }

def brief : Settings Float := { Settings.standard with maxIterations := 2, tuning := shortSearch }

theorem shortSearch_accepted {settings : Settings Float} (accepted : settings.Accepted) :
    { settings with tuning := shortSearch }.Accepted := by
  have checked : shortSearch.check = .ok () := by decide +kernel
  apply Settings.Accepted.tuning shortSearch accepted
  rw [Settings.withTuning, checked]
  rfl

theorem brief_accepted : brief.Accepted := shortSearch_accepted (.maxIterations 2 .standard rfl)

/-- An objective without a bottom: every value is lower than those before, at whatever point. -/
def falling : Caller (StateM Nat) Float 1 where
  evaluate _ := do
    let count ← get
    set (count + 1)
    pure (-Float.ofNat count, Vector.replicate 1 (-1))
  shouldStop _ _ _ := pure false
  isCancelled := pure false
  cancel := pure ()
  note _ := pure ()

/-- A fall without end reaches both limits. -/
theorem minimize_limited_falling :
    brief.Accepted ∧
    (∀ state, Completes
      (run (Kernels.shared Float 1 1 .inOrder) brief falling.answering 0 state)) ∧
    brief.Addressable ∧
    ∃ answer after,
      (minimize brief .inOrder falling.answering #v[0]).run 0 = .ok (answer, after) ∧
      answer.2.iterations = 2 ∧ answer.2.evaluations = 1 + 2 * (1 + 2) ∧
      answer.2.iterations ≤ brief.maxIterations ∧
      answer.2.evaluations ≤ 1 + answer.2.iterations * (1 + brief.tuning.maxProbes) := by
  obtain ⟨loops, _, fits, limits⟩ :=
    minimize_limited brief brief_accepted .inOrder falling #v[0] 0
  obtain ⟨⟨answer, after⟩, ran, iterations, evaluations⟩ :
      Yields ((minimize brief .inOrder falling.answering #v[0]).run 0)
        (fun outcome =>
          outcome.1.2.iterations = 2 ∧ outcome.1.2.evaluations = 1 + 2 * (1 + 2)) := by
    decide +kernel
  exact ⟨brief_accepted, loops, fits.mp ⟨answer, after, ran⟩, answer, after, ran, iterations,
    evaluations, limits answer after ran⟩

end Minimization

end Descent

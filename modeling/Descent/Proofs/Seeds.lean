import Descent.Proofs.Numbers
import Descent.Proofs.Stagnation

/-!
What the seed decides. The generator is kept in the state and is read in one place, where a probe
step is chosen after some iterations without improvement. Every part of a run therefore does with
another generator what it does with the first one, as long as no such iteration begins, and also
where the jitter has no amplitude.
-/

namespace Descent

open Scalar Execution

class Neutral (F : Type) [Scalar F] : Prop where
  zero_mul (x : F) : 0 * x = 0
  add_zero (x : F) : x + 0 = x
  mul_one (x : F) : x * 1 = x

instance {F : Type} [Field F] [LinearOrder F] [Exact F] : Neutral F where
  zero_mul := zero_mul
  add_zero := add_zero
  mul_one := mul_one

namespace State

variable {F : Type} {n : Nat}

def reseed (state : State F n) (jitter : Jitter) : State F n := { state with jitter }

/-- So many iterations brought no improvement that the next one jitters its step. -/
def Jitters (settings : Settings F) (state : State F n) : Prop :=
  settings.tuning.randomizeAfter ≤ state.sinceImprovement

/-- Whatever is drawn next, the step stays the same. -/
def Still [Scalar F] (settings : Settings F) (state : State F n) : Prop :=
  state.Jitters settings → ∀ (jitter : Jitter) (step : F),
    step * (1 + settings.tuning.randomJitter * jitter.draw.1) = step

variable [Scalar F] (kernels : Kernels F n) (settings : Settings F) (state : State F n)
variable (jitter : Jitter)

theorem turn_reseed (beta : F) : (state.reseed jitter).turn kernels settings beta =
    { state.turn kernels settings beta with
      state := (state.turn kernels settings beta).state.reseed jitter } := by
  have scheduled : (state.reseed jitter).runLength = state.runLength ∧
      (state.reseed jitter).sinceReset = state.sinceReset := ⟨rfl, rfl⟩
  have slope : ((state.reseed jitter).conjugate kernels beta).slope kernels =
      (state.conjugate kernels beta).slope kernels := rfl
  simp only [turn, scheduled, slope]
  split
  · split <;> rfl
  · split <;> rfl

theorem advance_reseed (line : Record F n) (target : Move F n) :
    (state.reseed jitter).advance kernels settings line target =
      { state.advance kernels settings line target with
        state := (state.advance kernels settings line target).state.reseed jitter } := by
  have change : (state.reseed jitter).change kernels line target =
      state.change kernels line target := rfl
  have turned (beta : F) := turn_reseed kernels settings
    { state with
      x := kernels.update (.addScaled state.direction target.step) state.x
      gradient := target.gradient
      value := target.value
      real := target.real
      sinceReset := state.sinceReset + 1 } jitter beta
  rw [advance, advance, change]
  dsimp only [reseed] at turned ⊢
  rw [turned]
  rfl

variable {settings state}

omit jitter in
theorem Still.of_since {other : State F n} (still : state.Still settings)
    (since : other.sinceImprovement = state.sinceImprovement) : other.Still settings := by
  rw [Still, Jitters, since]
  exact still

theorem probeStep_reseed (still : state.Still settings) :
    ∃ drawn, (state.reseed jitter).probeStep settings =
        ((state.probeStep settings).1, (state.probeStep settings).2.reseed drawn) ∧
      (¬ state.Jitters settings → drawn = jitter) := by
  by_cases jitters : state.Jitters settings
  · refine ⟨(jitter.draw : F × Jitter).2, ?_, fun quiet => absurd jitters quiet⟩
    have same (jitter : Jitter) := still jitters jitter state.step
    have gate : settings.tuning.randomizeAfter ≤ state.sinceImprovement := jitters
    simp only [probeStep, reseed, gate, if_true, same]
    split <;> rfl
  · refine ⟨jitter, ?_, fun _ => rfl⟩
    have gate : ¬ settings.tuning.randomizeAfter ≤ state.sinceImprovement := jitters
    simp only [probeStep, reseed, gate, if_false]
    split <;> rfl

end State

namespace Minimization

/-! What a part of a run does with another generator. -/

section Stages

variable {F : Type} {n : Nat} (jitter : Jitter)

def Probed.reseed (view : Probed F n) : Probed F n :=
  { view with state := view.state.reseed jitter }

def Outlook.reseed : Outlook F n → Outlook F n
  | .level state => .level (state.reseed jitter)
  | .probed view => .probed (view.reseed jitter)

def Plan.reseed : Plan F n → Plan F n
  | .rest state => .rest (state.reseed jitter)
  | .leap view fit => .leap (view.reseed jitter) fit
  | .explore state slope kept step => .explore (state.reseed jitter) slope kept step

def Landing.reseed : Landing F n → Landing F n
  | .stays left => .stays (left.reseed jitter)
  | .moves state line target => .moves (state.reseed jitter) line target

end Stages

section Parts

variable {m : Type → Type} [Monad m] [LawfulMonad m] {F : Type} [Unbounded F] {n : Nat}
variable (kernels : Kernels F n) (settings : Settings F) (caller : Caller m F n)
variable (iteration : Nat) (state : State F n) (jitter : Jitter)

theorem evaluateIterate_reseed :
    evaluateIterate caller (state.reseed jitter) =
      (·.reseed jitter) <$> evaluateIterate caller state := by
  simp only [evaluateIterate, map_bind, map_pure]
  rfl

omit [LawfulMonad m] in
theorem probe_reseed (step : F) (trail : Trail F n) :
    probe kernels caller (state.reseed jitter) step trail = probe kernels caller state step trail :=
  rfl

theorem downhill_reseed :
    downhill kernels caller iteration (state.reseed jitter) =
      Prod.map id (·.reseed jitter) <$> downhill kernels caller iteration state := by
  have slope : (state.reseed jitter).slope kernels = state.slope kernels := rfl
  simp only [downhill, slope]
  split
  · simp only [map_pure]
    rfl
  · simp only [map_bind, map_pure]
    rfl

theorem move_reseed (line : Record F n) (target : State.Move F n) :
    move kernels settings caller iteration (state.reseed jitter) line target =
      (·.reseed jitter) <$> move kernels settings caller iteration state line target := by
  simp only [move, State.advance_reseed]
  split <;> simp only [map_bind, map_pure]

theorem settle_reseed (probe : Marked F n) (bestBefore : F) :
    settle kernels caller iteration (state.reseed jitter) probe bestBefore =
      Prod.map id (·.reseed jitter) <$> settle kernels caller iteration state probe bestBefore := by
  have real : (state.reseed jitter).real = state.real := rfl
  simp only [settle, real]
  split
  · simp only [map_bind, map_pure]
    rfl
  · simp only [evaluateIterate_reseed, bind_map_left, map_bind]
    congr 1
    funext evaluated
    have value : (evaluated.reseed jitter).value = evaluated.value := rfl
    simp only [value]
    split
    · simp only [map_bind, map_pure]
      rfl
    · simp only [map_bind, map_pure]
      rfl

theorem searchSlope_reseed (keep : Bool) :
    searchSlope kernels caller iteration (state.reseed jitter) keep =
      Prod.map id (Prod.map id (·.reseed jitter)) <$>
        searchSlope kernels caller iteration state keep := by
  have slope : (state.reseed jitter).slope kernels = state.slope kernels := rfl
  simp only [searchSlope, slope]
  split
  · simp only [map_pure]
    rfl
  · simp only [downhill_reseed, bind_map_left, map_bind, map_pure]
    rfl

theorem confirm_reseed :
    confirm kernels settings caller (state.reseed jitter) =
      (·.reseed jitter) <$> confirm kernels settings caller state := by
  have gradient : (state.reseed jitter).gradient = state.gradient := rfl
  have real : (state.reseed jitter).real = state.real := rfl
  have tolerance : toleranceSquared settings (state.reseed jitter) =
      toleranceSquared settings state := rfl
  simp only [confirm, gradient, real, tolerance]
  split
  · exact evaluateIterate_reseed caller state jitter
  · simp only [map_pure]

theorem check_reseed (done : Nat) :
    check kernels settings caller done (state.reseed jitter) =
      Prod.map id (·.reseed jitter) <$> check kernels settings caller done state := by
  have best : (state.reseed jitter).tally = state.tally := rfl
  have x : (state.reseed jitter).x = state.x := rfl
  simp only [check, best, x, map_bind, confirm_reseed]
  congr 1
  funext cancelled
  split
  · simp only [map_pure]
    rfl
  · simp only [map_bind]
    congr 1
    funext stop
    split
    · simp only [map_bind, map_pure]
      rfl
    · split
      · simp only [map_pure]
        rfl
      · simp only [map_bind, map_pure, bind_map_left]
        rfl

theorem reconsider_reseed (view : Probed F n) :
    (Engine.plain kernels settings caller).reconsider iteration (view.reseed jitter) =
      (·.reseed jitter) <$> (Engine.plain kernels settings caller).reconsider iteration view := by
  simp only [Engine.reconsider, Engine.plain_settle, Probed.reseed, settle_reseed, bind_map_left,
    map_bind]
  congr 1
  funext settled
  simp only [Engine.plain, Prod.map_fst, Prod.map_snd, searchSlope_reseed, bind_map_left, id_eq]
  congr 1
  funext turned
  obtain ⟨kept, slope?, turned⟩ := turned
  cases slope? with
  | none =>
    simp only [map_pure]
    rfl
  | some slope =>
    simp only [map_pure]
    rfl

theorem decide_reseed (outlook : Outlook F n) :
    (Engine.plain kernels settings caller).decide iteration (outlook.reseed jitter) =
      (·.reseed jitter) <$> (Engine.plain kernels settings caller).decide iteration outlook := by
  cases outlook with
  | level turned =>
    simp only [Outlook.reseed, Engine.decide, map_pure]
    rfl
  | probed view =>
    have fit : fit? kernels settings (view.reseed jitter).state (view.reseed jitter).slope
        (view.reseed jitter).probe = fit? kernels settings view.state view.slope view.probe := rfl
    simp only [Engine.decide, Outlook.reseed]
    dsimp only [Engine.plain]
    rw [fit]
    split
    · rw [map_pure]
      rfl
    · exact reconsider_reseed kernels settings caller iteration jitter view

theorem finish_reseed (landing : Landing F n) :
    (landing.reseed jitter).finish kernels settings caller iteration =
      (·.reseed jitter) <$> landing.finish kernels settings caller iteration := by
  cases landing with
  | stays left =>
    simp only [Landing.finish, Landing.reseed, Engine.finish, map_pure]
  | moves moved line target => exact move_reseed kernels settings caller iteration moved jitter ..

variable [MonadExceptOf Fault m]

theorem land_reseed (planned : Plan F n) :
    (planned.reseed jitter).land kernels settings caller iteration =
      (·.reseed jitter) <$> planned.land kernels settings caller iteration := by
  cases planned with
  | rest resting =>
    simp only [Plan.land, Plan.reseed, Engine.land, map_pure]
    rfl
  | leap view fit =>
    simp only [Plan.land, Plan.reseed, Engine.land, map_pure]
    rfl
  | explore start slope kept step =>
    simp only [Plan.land, Plan.reseed, Engine.land, Engine.plain, map_bind]
    congr 1
    funext opened
    refine congrArg (_ >>= ·) (funext fun begun => congrArg (_ >>= ·) (funext fun searched => ?_))
    have value : (start.reseed jitter).value = start.value := rfl
    simp only [value]
    split
    · rw [map_pure]
      rfl
    · simp only [map_bind, map_pure, pure_bind]
      rfl

end Parts

/-! Whole runs. -/

section Runs

variable {m : Type → Type} [Monad m] [MonadExceptOf Fault m] {World : Type} [Execution m World]
variable [LawfulMonad m] {F : Type} [Unbounded F] {n : Nat}
variable {kernels : Kernels F n} {settings : Settings F} {caller : Caller m F n}
variable {before after : World} {done : Nat} {state left : State F n} (jitter : Jitter)

theorem check_reseeds {termination? : Option Termination}
    (checks : Returns (check kernels settings caller done state) before (termination?, left)
      after) :
    Returns (check kernels settings caller done (state.reseed jitter)) before
      (termination?, left.reseed jitter) after := by
  rw [check_reseed]
  exact returns_map.mpr ⟨_, checks, rfl⟩

/-- The stage that draws. -/
theorem look_reseed {iteration : Nat} {outlook : Outlook F n} (still : state.Still settings)
    (looks : Returns (look kernels settings caller iteration state) before outlook after) :
    ∃ drawn, Returns (look kernels settings caller iteration (state.reseed jitter)) before
        (outlook.reseed drawn) after ∧
      (¬ state.Jitters settings → drawn = jitter) := by
  obtain ⟨⟨slope?, turned⟩, middle, turns, probes⟩ := returns_bind.mp looks
  have turns' : Returns (downhill kernels caller iteration (state.reseed jitter)) before
      (slope?, turned.reseed jitter) middle := by
    rw [downhill_reseed]
    exact returns_map.mpr ⟨_, turns, rfl⟩
  cases slope? with
  | none =>
    obtain ⟨rfl, rfl⟩ := returns_pure.mp probes
    exact ⟨jitter, returns_bind.mpr ⟨_, _, turns', returns_pure.mpr ⟨rfl, rfl⟩⟩, fun _ => rfl⟩
  | some slope =>
    have since : turned.sinceImprovement = state.sinceImprovement := by
      rcases downhill_returns turns with ⟨_, _, rfl, _⟩ | ⟨_, _, rfl, _⟩ <;> rfl
    obtain ⟨drawn, stepping, kept⟩ := State.probeStep_reseed jitter (still.of_since since)
    rw [State.Jitters, since] at kept
    refine ⟨drawn, returns_bind.mpr ⟨_, _, turns', ?_⟩, kept⟩
    -- only the probe matters from here on, not how its step was chosen
    obtain ⟨chosen, stepped⟩ : ∃ chosen, turned.probeStep settings = chosen := ⟨_, rfl⟩
    dsimp only [Engine.plain] at probes ⊢
    rw [stepped] at stepping probes
    rw [stepping, probe_reseed]
    obtain ⟨probed, next, probes, last⟩ := returns_bind.mp probes
    obtain ⟨rfl, rfl⟩ := returns_pure.mp last
    exact returns_bind.mpr ⟨probed, _, probes, returns_pure.mpr ⟨rfl, rfl⟩⟩

/-- An iteration does not see the generator, unless it draws from it and the draw counts. -/
theorem iterate_reseed {iteration : Nat} (still : state.Still settings)
    (iterates : Returns (iterate kernels settings caller iteration state) before left after) :
    ∃ drawn, Returns (iterate kernels settings caller iteration (state.reseed jitter)) before
        (left.reseed drawn) after ∧
      (¬ state.Jitters settings → drawn = jitter) := by
  rw [iterate_eq_stride] at iterates
  obtain ⟨landing, next, strides, finishes⟩ := returns_bind.mp iterates
  obtain ⟨planned, middle, plans, lands⟩ := returns_bind.mp strides
  obtain ⟨outlook, entered, looks, decides⟩ := returns_bind.mp plans
  obtain ⟨drawn, looks', kept⟩ := look_reseed jitter still looks
  have decides' : Returns
      ((Engine.plain kernels settings caller).decide iteration (outlook.reseed drawn)) entered
      (planned.reseed drawn) middle := by
    rw [decide_reseed]
    exact returns_map.mpr ⟨_, decides, rfl⟩
  have lands' : Returns ((planned.reseed drawn).land kernels settings caller iteration) middle
      (landing.reseed drawn) next := by
    rw [land_reseed]
    exact returns_map.mpr ⟨_, lands, rfl⟩
  have finishes' : Returns ((landing.reseed drawn).finish kernels settings caller iteration) next
      (left.reseed drawn) after := by
    rw [finish_reseed]
    exact returns_map.mpr ⟨_, finishes, rfl⟩
  refine ⟨drawn, ?_, kept⟩
  exact iterate_of_stages (returns_bind.mpr ⟨_, _, looks', decides'⟩) lands' finishes'

theorem pass_reseed (still : state.Still settings)
    (pass : Pass kernels settings caller done state before left after) :
    ∃ drawn, Pass kernels settings caller done (state.reseed jitter) before (left.reseed drawn)
        after ∧
      (¬ state.Jitters settings → drawn = jitter) := by
  obtain ⟨checked, middle, checks, iterated, goesOn, iterates, notes⟩ := pass
  have since : checked.sinceImprovement = state.sinceImprovement := by
    rcases check_left checks with rfl | ⟨_, _, evaluates⟩
    · rfl
    · obtain ⟨_, _, _, rfl⟩ := evaluateIterate_returns evaluates
      rfl
  obtain ⟨drawn, iterates', kept⟩ := iterate_reseed jitter (still.of_since since) iterates
  rw [State.Jitters, since] at kept
  exact ⟨drawn, ⟨_, middle, check_reseeds jitter checks, iterated, goesOn, iterates', notes⟩, kept⟩

theorem start_reseed (seed : UInt64) (x : Vector F n) :
    start kernels { settings with seed } caller x =
      (·.reseed (.ofSeed seed)) <$> start kernels settings caller x := by
  simp only [start, map_bind, map_pure]
  rfl

omit [MonadExceptOf Fault m] in
theorem conclude_reseed (ended : Ended F n) :
    conclude kernels caller { ended with state := ended.state.reseed jitter } =
      conclude kernels caller ended := by
  have real : (ended.state.reseed jitter).real = ended.state.real := rfl
  simp only [conclude, real]
  split
  · simp only [pure_bind]
    rfl
  · rw [evaluateIterate_reseed, bind_map_left]
    rfl

variable {runner : Runner} {x : Vector F n} {seed : UInt64}

/-- The states at which the first `count` iterations begin are as described. -/
def EachBegins (settings : Settings F) (runner : Runner) (caller : Caller m F n) (x : Vector F n)
    (before : World) (count : Nat) (Described : State F n → Prop) : Prop :=
  ∀ done < count, ∀ state world,
    Visits settings runner caller x before done state world → Described state

def Calm (settings : Settings F) (runner : Runner) (caller : Caller m F n) (x : Vector F n)
    (before : World) (count : Nat) : Prop :=
  EachBegins settings runner caller x before count fun state => ¬ state.Jitters settings

def Steady (settings : Settings F) (runner : Runner) (caller : Caller m F n) (x : Vector F n)
    (before : World) (count : Nat) : Prop :=
  EachBegins settings runner caller x before count fun state => state.Still settings

omit [LawfulMonad m] in
theorem Calm.steady {count : Nat} (calm : Calm settings runner caller x before count) :
    Steady settings runner caller x before count :=
  fun done early state world visits jitters => absurd jitters (calm done early state world visits)

/-- Another seed leads to the same states, but for the generator. -/
theorem visits_reseed (seed : UInt64) (steady : Steady settings runner caller x before done)
    (visits : Visits settings runner caller x before done state after) :
    ∃ drawn,
      Visits { settings with seed } runner caller x before done (state.reseed drawn) after ∧
      (Calm settings runner caller x before done → drawn = .ofSeed seed) := by
  revert steady
  refine visits_invariant (fun done state after =>
    Steady settings runner caller x before done →
      ∃ drawn,
        Visits { settings with seed } runner caller x before done (state.reseed drawn) after ∧
        (Calm settings runner caller x before done → drawn = .ofSeed seed)) ?_ ?_ visits
  · intro started begun starts opened _
    refine ⟨.ofSeed seed, ⟨opened.1, _, _, ?_, .refl _ _ _⟩, fun _ => rfl⟩
    rw [start_reseed]
    exact returns_map.mpr ⟨_, starts, rfl⟩
  · intro done state middle next after reached kept pass steady
    obtain ⟨jitter, arrived, generator⟩ :=
      kept fun earlier early => steady earlier (Nat.lt_succ_of_lt early)
    obtain ⟨drawn, passes, still⟩ :=
      pass_reseed jitter (steady done (Nat.lt_succ_self done) state middle reached) pass
    refine ⟨drawn, visits_next arrived passes, fun calm => ?_⟩
    rw [still (calm done (Nat.lt_succ_self done) state middle reached)]
    exact generator fun earlier early => calm earlier (Nat.lt_succ_of_lt early)

theorem EachBegins.reseed {count : Nat} {Described : State F n → Prop}
    (begins : EachBegins settings runner caller x before count Described) (seed : UInt64)
    (still : ∀ state, Described state → state.Still settings)
    (blind : ∀ state jitter, Described (state.reseed jitter) → Described state) :
    EachBegins { settings with seed } runner caller x before count Described := by
  intro done
  induction done using Nat.strong_induction_on with
  | h done ih =>
    intro early state world visits
    have steady : Steady { settings with seed } runner caller x before done :=
      fun earlier first state world visits =>
        still state (ih earlier first (first.trans early) state world visits)
    obtain ⟨drawn, back, _⟩ := visits_reseed settings.seed steady visits
    exact blind state drawn (begins done early (state.reseed drawn) world back)

theorem Calm.reseed {count : Nat} (calm : Calm settings runner caller x before count)
    (seed : UInt64) : Calm { settings with seed } runner caller x before count :=
  EachBegins.reseed calm seed (fun _ quiet jitters => absurd jitters quiet) fun _ _ quiet => quiet

theorem Steady.reseed {count : Nat} (steady : Steady settings runner caller x before count)
    (seed : UInt64) : Steady { settings with seed } runner caller x before count :=
  EachBegins.reseed steady seed (fun _ still => still) fun _ _ still => still

theorem minimize_reseed {answer : Vector F n × Report F} (seed : UInt64)
    (steady : Steady settings runner caller x before answer.2.iterations)
    (ran : Returns (minimize settings runner caller x) before answer after) :
    Returns (minimize { settings with seed } runner caller x) before answer after := by
  obtain ⟨accepted, started, begun, ended, middle, starts, runs, concludes⟩ :=
    minimize_returns_iff.mp ran
  obtain ⟨last, reached, passes, ends⟩ := runs
  have length : answer.2.iterations = ended.iterations := by
    obtain ⟨_, _, _, _, _, rfl⟩ := conclude_returns concludes
    rfl
  rw [length] at steady
  obtain ⟨context, creates⟩ := accepted
  obtain ⟨jitter, ⟨_, started', begun', starts', passes'⟩, _⟩ :=
    visits_reseed seed steady ⟨threads_of_create creates, started, begun, starts, passes⟩
  have ends' : Ends (Kernels.shared F n settings.threads runner) { settings with seed } caller
      (last.reseed jitter) reached { ended with state := ended.state.reseed jitter } middle := by
    rcases ends with checks | ⟨world, checks, capped⟩
    · exact .inl (check_reseeds jitter checks)
    · exact .inr ⟨world, check_reseeds jitter checks, capped⟩
  have concludes' : Returns
      (conclude (Kernels.shared F n settings.threads runner) caller
        { ended with state := ended.state.reseed jitter }) middle answer after := by
    rw [conclude_reseed]
    exact concludes
  exact minimize_returns_iff.mpr ⟨⟨context, creates⟩, started', begun',
    { ended with state := ended.state.reseed jitter }, middle, starts',
    ⟨_, reached, passes', ends'⟩, concludes'⟩

end Runs

section Recorded

variable {m : Type → Type} [Monad m] [LawfulMonad m] [MonadExceptOf Fault m] {World : Type}
variable [Execution m World] {F : Type} [Unbounded F] {n : Nat}

theorem visits_since {settings : Settings F} {runner : Runner} {caller : Caller m F n}
    {x : Vector F n} {world : World} {done : Nat} {state : State F n}
    {after : Journal F n × World}
    (visits : Visits settings runner caller.recorded x ([], world) done state after) :
    state.sinceImprovement ≤ done := by
  refine visits_invariant (fun done state _ => state.sinceImprovement ≤ done) ?_ ?_ visits
  · intro started begun starts _
    obtain ⟨_, _, _, rfl⟩ := start_returns starts
    exact Nat.le_refl 0
  · rintro done state middle next after _ kept ⟨checked, asked, checks, _, _, iterates, _⟩
    obtain ⟨memory, _⟩ := check_memory checks
    have since : checked.sinceImprovement = state.sinceImprovement :=
      congrArg Memory.sinceImprovement memory
    rcases lands_notes (iterate_lands iterates) with ⟨_, _, same⟩ | notes
    · rw [same, since]
      exact Nat.le_succ_of_le kept
    · rw [notes.sinceImprovement]
      split
      · exact Nat.zero_le _
      · have count : checked.memory.sinceImprovement = state.sinceImprovement := since
        rw [count]
        exact Nat.succ_le_succ kept

theorem calm_of_le (settings : Settings F) (runner : Runner) (caller : Caller m F n)
    (x : Vector F n) (world : World) {count : Nat}
    (within : count ≤ settings.tuning.randomizeAfter) :
    Calm settings runner caller.recorded x ([], world) count := by
  intro done early state after visits jitters
  have since := visits_since visits
  rw [State.Jitters] at jitters
  omega

/-- Runs that differ in the seed ask the same and come to the same states until an iteration
begins that jitters, in both of them at once. Without one they give the same answer, and also
where the jitter has no amplitude and the arithmetic is exact. -/
theorem minimize_seed (settings : Settings F) (seed : UInt64) (runner : Runner)
    (caller : Caller m F n) (x : Vector F n) (world : World) :
    (∀ count, Calm settings runner caller.recorded x ([], world) count ↔
      Calm { settings with seed } runner caller.recorded x ([], world) count) ∧
    (∀ done state journal left,
      Calm settings runner caller.recorded x ([], world) done →
      Visits settings runner caller.recorded x ([], world) done state (journal, left) →
      Visits { settings with seed } runner caller.recorded x ([], world) done
          (state.reseed (.ofSeed seed)) (journal, left) ∧
      ∀ termination? checked asked,
        Returns
          (check (Kernels.shared F n settings.threads runner) settings caller.recorded done state)
          (journal, left) (termination?, checked) asked →
        Returns
          (check (Kernels.shared F n settings.threads runner) { settings with seed }
            caller.recorded done (state.reseed (.ofSeed seed)))
          (journal, left) (termination?, checked.reseed (.ofSeed seed)) asked) ∧
    ∀ answer journal left,
      Calm settings runner caller.recorded x ([], world) answer.2.iterations ∨
        Neutral F ∧ settings.tuning.randomJitter = 0 →
      (Returns (minimize settings runner caller.recorded x) ([], world) answer (journal, left) ↔
        Returns (minimize { settings with seed } runner caller.recorded x) ([], world) answer
          (journal, left)) := by
  refine ⟨fun count => ⟨fun calm => calm.reseed seed, fun calm => calm.reseed settings.seed⟩,
    ?_, ?_⟩
  · intro done state journal left calm visits
    obtain ⟨drawn, arrived, generator⟩ := visits_reseed seed calm.steady visits
    obtain rfl := generator calm
    exact ⟨arrived, fun termination? checked asked checks => check_reseeds _ checks⟩
  · intro answer journal left quiet
    have steady : Steady settings runner caller.recorded x ([], world) answer.2.iterations := by
      rcases quiet with calm | ⟨neutral, flat⟩
      · exact calm.steady
      · intro done _ state _ _ _ jitter step
        rw [flat, Neutral.zero_mul, Neutral.add_zero, Neutral.mul_one]
    exact ⟨minimize_reseed seed steady, minimize_reseed settings.seed (steady.reseed seed)⟩

end Recorded

/-! An objective whose value never improves. -/

section Stale

def stale : Caller (Except Fault) Fraction 1 := .ofFunction fun _ => (1, #v[1])

def briefly : Settings Fraction := { Settings.standard with maxIterations := 6 }

def steadily : Settings Fraction :=
  { Settings.standard with tuning := { Tuning.standard with randomJitter := 0 } }

theorem minimize_seed_stale :
    Calm briefly .inOrder stale.recorded #v[0] ([], ()) 6 ∧
    (∃ answer journal, answer.2.iterations = 6 ∧
      Returns (minimize briefly .inOrder stale.recorded #v[0]) ([], ()) answer (journal, ()) ∧
      Returns (minimize { briefly with seed := 8 } .inOrder stale.recorded #v[0]) ([], ()) answer
        (journal, ()) ∧
      ∃ state reached,
        Visits briefly .inOrder stale.recorded #v[0] ([], ()) 6 state reached ∧
        Visits { briefly with seed := 8 } .inOrder stale.recorded #v[0] ([], ()) 6
          (state.reseed (.ofSeed 8)) reached) ∧
    ∃ answer journal, answer.2.iterations = 11 ∧
      Returns (minimize steadily .inOrder stale.recorded #v[0]) ([], ()) answer (journal, ()) ∧
      Returns (minimize { steadily with seed := 8 } .inOrder stale.recorded #v[0]) ([], ()) answer
        (journal, ()) := by
  have calm : Calm briefly .inOrder stale.recorded #v[0] ([], ()) 6 :=
    calm_of_le briefly .inOrder stale #v[0] () (by decide)
  refine ⟨calm, ?_, ?_⟩
  · obtain ⟨⟨answer, journal⟩, ran, six⟩ :
        Yields ((minimize briefly .inOrder stale.recorded #v[0]).run [])
          fun outcome => outcome.1.2.iterations = 6 := by
      decide +kernel
    have returned : Returns (minimize briefly .inOrder stale.recorded #v[0]) ([], ()) answer
        (journal, ()) := ran
    obtain ⟨state, reached, visits⟩ := visits_of_minimize returned
    rw [six] at visits
    obtain ⟨_, alike, same⟩ := minimize_seed briefly 8 .inOrder stale #v[0] ()
    exact ⟨answer, journal, six, returned,
      (same answer journal () (.inl (six ▸ calm))).mp returned, state, reached, visits,
      (alike 6 state reached.1 reached.2 calm visits).1⟩
  · obtain ⟨⟨answer, journal⟩, ran, eleven⟩ :
        Yields ((minimize steadily .inOrder stale.recorded #v[0]).run [])
          fun outcome => outcome.1.2.iterations = 11 := by
      decide +kernel
    have returned : Returns (minimize steadily .inOrder stale.recorded #v[0]) ([], ()) answer
        (journal, ()) := ran
    obtain ⟨_, _, same⟩ := minimize_seed steadily 8 .inOrder stale #v[0] ()
    exact ⟨answer, journal, eleven, returned,
      (same answer journal () (.inr ⟨inferInstance, rfl⟩)).mp returned⟩

example :
    let journal (seed : UInt64) :=
      (minimize { briefly with seed, maxIterations := 7 } .inOrder stale.recorded #v[0]).run []
    Yields (do pure ((← journal 7).2, (← journal 8).2)) fun (first, second) =>
      first.evaluations.map (·.point) ≠ second.evaluations.map (·.point) := by
  decide +kernel

end Stale

end Minimization

end Descent

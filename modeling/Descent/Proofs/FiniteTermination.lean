import Descent.Proofs.Heading
import Descent.Proofs.Mirror
import Descent.Proofs.Run
import Descent.Proofs.Threads

/-!
Conjugate gradients on a quadratic function are done after as many iterations as there are
variables, as long as no iteration falls back to a careful search. Every fit is then the minimum
of its line, with the value and the gradient that an evaluation would give; so the directions are
conjugate, the gradients are orthogonal to one another, and the run is over before a scheduled
restart.
-/

namespace Descent

open Matrix Scalar Execution

/-! A journal without careful searches. -/

/-- Whether an event tells that a fit was not trusted. Every careful search starts with one. -/
def Event.isCareful {F : Type} : Event F → Bool
  | fastRejected .. | redoing _ | backingOut .. => true
  | _ => false

namespace Journal

variable {F : Type} {n : Nat}

def isFast (journal : Journal F n) : Bool :=
  journal.all fun
    | .noted event => !event.isCareful
    | _ => true

theorem isFast_of_prefix {journal later : Journal F n} (grown : journal <+: later)
    (fast : later.isFast = true) : journal.isFast = true := by
  rw [isFast, List.all_eq_true] at fast ⊢
  exact fun entry member => fast entry (grown.subset member)

theorem isFast_append (journal later : Journal F n) :
    isFast (journal ++ later) = (journal.isFast && later.isFast) := List.all_append

end Journal

namespace Minimization

variable {m : Type → Type} [Monad m] [MonadExceptOf Fault m] {World : Type} [Execution m World]
variable {F : Type} {n : Nat} {caller : Caller m F n} {before after : Journal F n × World}

theorem note_fast_iff {event : Event F}
    (ran : Returns (caller.recorded.note event) before () after) :
    after.1.isFast = true ↔ before.1.isFast = true ∧ event.isCareful = false := by
  rw [(Caller.returns_record.mp ran).2, Journal.isFast_append, Bool.and_eq_true]
  simp [Journal.isFast]

variable [Unbounded F] {kernels : Kernels F n} {settings : Settings F} {iteration done : Nat}
variable {state left : State F n}

theorem careful_not_fast {probe : Marked F n} {step bestBefore : F}
    (ran : Returns (careful kernels settings caller.recorded iteration state probe step bestBefore)
      before left after) : ¬ after.1.isFast = true := by
  obtain ⟨keep, settled, middle, kept, slope?, turned, next, settles, searches, rest⟩ :=
    careful_returns ran
  have noted : ∃ event asked, event.isCareful = true ∧
      Returns (caller.recorded.note event) asked () middle := by
    rcases settle_returns settles with
      ⟨_, _, _, notes⟩ | ⟨_, _, _, _, ⟨_, _, _, notes⟩ | ⟨_, _, _, notes⟩⟩
    · exact ⟨_, _, rfl, notes⟩
    · exact ⟨_, _, rfl, notes⟩
    · exact ⟨_, _, rfl, notes⟩
  have grown : middle.1 <+: after.1 := by
    have sloped : middle.1 <+: next.1 :=
      searchSlope_corresponds grows_congruent (recorded_grows caller) _ _ _ searches
    rcases rest with ⟨_, _, rfl⟩ | ⟨slope, _, searched⟩
    · exact sloped
    · exact sloped.trans
        (searchLine_corresponds grows_congruent (recorded_grows caller) _ _ _ searched)
  obtain ⟨event, asked, careful, notes⟩ := noted
  intro fast
  have plain := ((note_fast_iff notes).mp (Journal.isFast_of_prefix grown fast)).2
  rw [careful] at plain
  exact nomatch plain

/-! The journal only grows. -/

theorem pass_grows
    (pass : Pass kernels settings caller.recorded done state before left after) :
    before.1 <+: after.1 := by
  have grown := pass_keeps grows_lasting (recorded_grows caller) pass
  exact grown

theorem passes_grow {last : Nat}
    (passes : Passes kernels settings caller.recorded done state before last left after) :
    before.1 <+: after.1 := by
  have grown := passes_keep grows_lasting (recorded_grows caller) passes
  exact grown

end Minimization

/-! Runs on a quadratic function. -/

section Quadratic

variable {m : Type → Type} [Monad m] [MonadExceptOf Fault m] {World : Type} [Execution m World]
variable {F : Type} [Field F] [LinearOrder F] {n : Nat}

def Caller.Evaluates (caller : Caller m F n) (q : Quadratic F n) : Prop :=
  ∀ x before answer after, Returns (caller.evaluate x) before answer after →
    answer = (q.value x.get, Vector.ofFn (q.gradient x.get))

variable {q : Quadratic F n} {caller : Caller m F n} {before after : Journal F n × World}

theorem Caller.Evaluates.recorded (evaluates : caller.Evaluates q) {x : Vector F n}
    {value : F} {gradient : Vector F n}
    (ran : Returns (caller.recorded.evaluate x) before (value, gradient) after) :
    value = q.value x.get ∧ gradient.get = q.gradient x.get := by
  obtain ⟨rfl, rfl⟩ := Prod.mk.inj (evaluates _ _ _ _ (returns_record.mp ran).1)
  exact ⟨rfl, funext fun i => Vector.getElem_ofFn i.2⟩

namespace Minimization

variable [Exact F] [Limited F] {settings : Settings F}
variable {state left : State F n} {past : List (Leg F n)} {runLength iteration done : Nat}

theorem evaluateIterate_heading (evaluates : caller.Evaluates q)
    (tracks : Tracks q runLength past state.heading)
    (ran : Returns (evaluateIterate caller.recorded state) before left after) :
    left.heading = state.heading := by
  obtain ⟨value, gradient, answered, rfl⟩ := evaluateIterate_returns ran
  obtain ⟨exactly, known⟩ := evaluates.recorded answered
  obtain rfl : state.value = value := tracks.value.trans exactly.symm
  obtain rfl : state.gradient = gradient :=
    entries_injective (tracks.gradient.trans known.symm)
  rfl

theorem check_heading (evaluates : caller.Evaluates q)
    (tracks : Tracks q runLength past state.heading) {termination? : Option Termination}
    (ran : Returns (check (Kernels.serial F n) settings caller.recorded done state) before
      (termination?, left) after) : left.heading = state.heading := by
  rcases check_left ran with rfl | ⟨_, _, evaluated⟩
  · rfl
  · exact evaluateIterate_heading evaluates tracks evaluated

theorem moving_of_verdict? {kernels : Kernels F n}
    (goesOn : verdict? kernels settings state = none) : state.directionNormSquared ≠ 0 :=
  Exact.isZero_iff.not.mp (directed_of_verdict? goesOn)

theorem start_quadratic :
    Sample.make 0 state.value (state.slope (Kernels.serial F n)) = state.heading.sampleAt q 0 := by
  rw [Sample.make_eq, State.slope, serial_dot, Heading.sampleAt, Sample.ofParabola]
  simp [State.heading]

variable [IsStrictOrderedRing F]

theorem probe_quadratic (evaluates : caller.Evaluates q)
    (tracks : Tracks q runLength past state.heading) {step : F} {trail next : Trail F n}
    {marked : Marked F n}
    (ran : Returns (probe (Kernels.serial F n) caller.recorded state step trail) before
      (marked, next) after) :
    marked.sample = state.heading.sampleAt q step ∧
      marked.gradient.get = q.gradient (state.x.get + step • state.direction.get) ∧
      next.line = trail.line.add marked.sample marked.gradient := by
  obtain ⟨value, gradient, answered, rfl, _, line⟩ := probe_returns ran
  obtain ⟨exactly, known⟩ := evaluates.recorded answered
  rw [serial_addScaled] at exactly known
  refine ⟨?_, known, line⟩
  rw [tracks.sampleAt_eq, Sample.make_eq, serial_dot, exactly, known]
  rfl

variable [Rooted F]

/-- A move to a fitted minimum stays on track. -/
theorem fit_tracks (evaluates : caller.Evaluates q) (enough : n ≤ settings.noResetRunLength)
    (tracks : Tracks q settings.noResetRunLength past state.heading)
    (sloped : state.gradient.get ≠ 0) {step : F} {trail : Trail F n} {probed : Marked F n}
    {fit : State.Fit F}
    (probes : Returns
      (probe (Kernels.serial F n) caller.recorded state step
        { tally := state.tally
          line := .create (.make 0 state.value (state.slope (Kernels.serial F n)))
            state.gradient })
      before (probed, trail) after)
    (found : fit? (Kernels.serial F n) settings { state with tally := trail.tally }
      (state.slope (Kernels.serial F n)) probed = some fit) :
    Tracks q settings.noResetRunLength (⟨state.gradient.get, state.direction.get⟩ :: past)
      (State.advance (Kernels.serial F n) settings { state with tally := trail.tally } trail.line
        { step := fit.step
          value := fit.value
          gradient := state.interpolatedGradient (Kernels.serial F n) probed.sample
            probed.gradient fit.step
          real := false }).state.heading := by
  obtain ⟨sampled, known, line⟩ := probe_quadratic evaluates tracks probes
  have place : probed.sample.step = step := congrArg Sample.step sampled
  rw [← place] at known
  have tallied : Tracks q settings.noResetRunLength past
      { state with tally := trail.tally }.heading := tracks
  have trusted : State.trustedFit? (Kernels.serial F n) settings
      { state with tally := trail.tally } (state.heading.sampleAt q 0)
      (state.heading.sampleAt q step) probed.gradient = some fit := by
    rw [← start_quadratic, ← sampled]
    exact (fit?_trusted found).2
  obtain ⟨moved, minimum, value⟩ := trustedFit?_quadratic tallied (tracks.turned sloped) trusted
  rw [← place] at moved
  have gradient := interpolatedGradient_quadratic tracks moved known fit.step
  refine tallied.advance sloped enough minimum value gradient ?_
  intro marked reference
  rw [line] at reference
  obtain ⟨apart, same⟩ := Record.reference_probed reference
  refine ⟨apart, ?_⟩
  rcases same with rfl | rfl
  · exact known
  · have start : state.gradient.get = q.gradient state.x.get := tracks.gradient
    change state.gradient.get = q.gradient (state.x.get + (0 : F) • state.direction.get)
    rw [start, zero_smul, add_zero]

/-- An iteration that leaves no trace of a careful search goes to the minimum of the line. -/
theorem iterate_tracks (evaluates : caller.Evaluates q) (enough : n ≤ settings.noResetRunLength)
    (tracks : Tracks q settings.noResetRunLength past state.heading)
    (sloped : state.gradient.get ≠ 0)
    (ran : Returns (iterate (Kernels.serial F n) settings caller.recorded iteration state) before
      left after)
    (fast : after.1.isFast = true) :
    Tracks q settings.noResetRunLength (⟨state.gradient.get, state.direction.get⟩ :: past)
      left.heading := by
  obtain ⟨slope?, turned, middle, downs, rest⟩ := iterate_returns ran
  rcases downhill_returns downs with ⟨_, rfl, rfl, _⟩ | ⟨flat, _⟩
  · rcases rest with ⟨impossible, _⟩ |
      ⟨slope, step, stepped, probed, trail, next, same, chosen, probes, rest⟩
    · exact nomatch impossible
    · obtain rfl := Option.some.inj same
      obtain ⟨jitter, drawn⟩ := turned.probeStep_eq settings
      rw [chosen] at drawn
      dsimp only at drawn
      subst drawn
      rcases rest with ⟨fit, found, moves⟩ | ⟨_, searches⟩
      · obtain ⟨rfl, _⟩ := move_returns moves
        have jittered : Tracks q settings.noResetRunLength past
            { turned with jitter }.heading := tracks
        exact fit_tracks evaluates enough jittered sloped probes found
      · exact absurd fast (careful_not_fast searches)
  · exact absurd (tracks.descends sloped) flat

theorem pass_tracks (evaluates : caller.Evaluates q) (enough : n ≤ settings.noResetRunLength)
    (tracks : Tracks q settings.noResetRunLength past state.heading)
    (pass : Pass (Kernels.serial F n) settings caller.recorded done state before left after)
    (fast : after.1.isFast = true) :
    Tracks q settings.noResetRunLength (⟨state.gradient.get, state.direction.get⟩ :: past)
      left.heading := by
  obtain ⟨checked, middle, checks, iterated, _, iterates, notes⟩ := pass
  have same : checked.heading = state.heading := check_heading evaluates tracks checks
  have gradient : checked.gradient = state.gradient := congrArg Heading.gradient same
  have direction : checked.direction = state.direction := congrArg Heading.direction same
  rw [← same] at tracks
  have sloped : checked.gradient.get ≠ 0 := tracks.sloped (moving_of_verdict? (check_none checks))
  have noted : iterated.1 <+: after.1 := (recorded_grows caller).note _ _ _ _ notes
  rw [← gradient, ← direction]
  exact iterate_tracks evaluates enough tracks sloped iterates
    (Journal.isFast_of_prefix noted fast)

/-- There are as many legs as iterations, and none is forgotten. -/
theorem passes_track (evaluates : caller.Evaluates q) (enough : n ≤ settings.noResetRunLength)
    (tracks : Tracks q settings.noResetRunLength past state.heading) {last : Nat}
    (passes : Passes (Kernels.serial F n) settings caller.recorded done state before last left
      after)
    (fast : after.1.isFast = true) :
    ∃ later, last = done + later.length ∧
      Tracks q settings.noResetRunLength (later ++ past) left.heading := by
  refine passes_invariant
    (fun last left world => world.1.isFast = true →
      ∃ later, last = done + later.length ∧
        Tracks q settings.noResetRunLength (later ++ past) left.heading)
    ?step passes ?start fast
  case start =>
    intro _
    exact ⟨[], rfl, tracks⟩
  case step =>
    intro count state before next after kept pass fast
    obtain ⟨later, counted, tracks⟩ := kept (Journal.isFast_of_prefix (pass_grows pass) fast)
    refine ⟨⟨state.gradient.get, state.direction.get⟩ :: later, ?_,
      pass_tracks evaluates enough tracks pass fast⟩
    rw [List.length_cons, counted, Nat.add_assoc]

omit [IsStrictOrderedRing F] [Rooted F] in
theorem start_tracks (evaluates : caller.Evaluates q) {x : Vector F n}
    (ran : Returns (start (Kernels.serial F n) settings caller.recorded x) before state after) :
    Tracks q settings.noResetRunLength [] state.heading := by
  obtain ⟨value, gradient, answered, rfl⟩ := start_returns ran
  obtain ⟨exactly, known⟩ := evaluates.recorded answered
  have downward :
      ((Kernels.serial F n).update (.scale (-1)) gradient).get = -gradient.get := by
    rw [serial_scale, neg_one_smul]
  exact {
    value := exactly
    gradient := known
    normed := serial_normSquared _
    steep := by
      change gradient.get ⬝ᵥ ((Kernels.serial F n).update (.scale (-1)) gradient).get = _
      rw [downward, dotProduct_neg]
      rfl
    rests := by
      intro flat
      change ((Kernels.serial F n).update (.scale (-1)) gradient).get = 0
      rw [downward, neg_eq_zero]
      exact flat
    counted := fun _ => ⟨rfl, rfl⟩
    conjugating := by
      change Conjugating q.hessian [] gradient.get
        ((Kernels.serial F n).update (.scale (-1)) gradient).get
      rw [downward]
      exact .anew gradient.get
    orthogonal := .nil
    nonzero := fun _ member => nomatch member }

variable {runner : Runner} {x : Vector F n}

theorem visits_track (evaluates : caller.Evaluates q)
    (enough : n ≤ settings.noResetRunLength)
    (visits : Visits settings runner caller.recorded x before done state after)
    (fast : after.1.isFast = true) :
    ∃ past, past.length = done ∧ Tracks q settings.noResetRunLength past state.heading := by
  obtain ⟨positive, started, begun, starts, passes⟩ := visits
  rw [Kernels.shared_eq_serial settings.threads runner positive] at starts passes
  obtain ⟨past, counted, tracks⟩ :=
    passes_track evaluates enough (start_tracks evaluates starts) passes fast
  rw [List.append_nil] at tracks
  exact ⟨past, by rw [counted, Nat.zero_add], tracks⟩

theorem visits_leg (evaluates : caller.Evaluates q)
    (enough : n ≤ settings.noResetRunLength) {last : Nat} {middle : Journal F n × World}
    (visits : Visits settings runner caller.recorded x before done state middle)
    (later : Visits settings runner caller.recorded x before last left after)
    (ordered : done < last) (fast : after.1.isFast = true) :
    ∃ past, ⟨state.gradient.get, state.direction.get⟩ ∈ past ∧
      Tracks q settings.noResetRunLength past left.heading := by
  have ⟨positive, started, begun, starts, passes⟩ := visits
  obtain ⟨_, _, _, starts', passes'⟩ := later
  obtain ⟨rfl, rfl⟩ := returns_unique starts starts'
  have onward := passes_resume passes passes' ordered.le
  obtain ⟨past, _, tracks⟩ := visits_track evaluates enough visits
    (Journal.isFast_of_prefix (passes_grow onward) fast)
  rw [Kernels.shared_eq_serial settings.threads runner positive] at onward
  cases onward with
  | refl => exact absurd ordered (Nat.lt_irrefl _)
  | next pass rest =>
    have moved := pass_tracks evaluates enough tracks pass
      (Journal.isFast_of_prefix (passes_grow rest) fast)
    obtain ⟨more, _, tracks⟩ := passes_track evaluates enough moved rest fast
    exact ⟨_, List.mem_append_right _ List.mem_cons_self, tracks⟩

/-- Without a careful search every iterate has its true value and gradient, all directions are
conjugate and all gradients orthogonal, and there are no more iterations than variables. -/
theorem minimize_quadratic {σ : Type} (q : Quadratic F n) (settings : Settings F)
    (enough : n ≤ settings.noResetRunLength) (runner : Runner)
    (caller : Caller (StateT σ (Except Fault)) F n) (evaluates : caller.Evaluates q)
    (x : Vector F n) (before : σ) :
    (∀ done state after,
      Visits settings runner caller.recorded x ([], before, ()) done state after →
      Journal.isFast after.1 = true →
      state.value = q.value state.x.get ∧ state.gradient.get = q.gradient state.x.get ∧
      ∀ earlier left middle, earlier < done →
        Visits settings runner caller.recorded x ([], before, ()) earlier left middle →
        state.direction.get ⬝ᵥ q.hessian *ᵥ left.direction.get = 0 ∧
        state.gradient.get ⬝ᵥ left.gradient.get = 0) ∧
    ∀ answer after, (minimize settings runner caller x).run before = .ok (answer, after) →
      ∃ journal,
        ((minimize settings runner caller.recorded x).run []).run before =
          .ok ((answer, journal), after) ∧
        (journal.isFast = true → answer.2.iterations ≤ n) := by
  constructor
  · intro done state after visits fast
    obtain ⟨_, _, tracks⟩ := visits_track evaluates enough visits fast
    refine ⟨tracks.value, tracks.gradient, ?_⟩
    intro earlier left middle ordered visited
    obtain ⟨past, member, tracks⟩ := visits_leg evaluates enough visited visits ordered fast
    exact ⟨tracks.conjugating.conjugate _ member, tracks.conjugating.orthogonal _ member⟩
  · intro answer after ran
    obtain ⟨journal, recorded⟩ := minimize_recorded_iff.mp ran
    have returned : Returns (minimize settings runner caller.recorded x) ([], before, ()) answer
        (journal, after, ()) := recorded
    refine ⟨journal, recorded, ?_⟩
    intro fast
    obtain ⟨last, middle, visits⟩ := visits_of_minimize returned
    have grown : middle.1 <+: journal :=
      rest_keeps grows_lasting (recorded_grows caller) returned visits
    obtain ⟨past, counted, tracks⟩ :=
      visits_track evaluates enough visits (Journal.isFast_of_prefix grown fast)
    rw [← counted]
    exact tracks.length_le

/-! Two variables over fractions. -/

def ellipse : Quadratic Fraction 2 :=
  .ofWeights (fun i => (i + 1 : ℕ)) 0 0 fun i => Nat.cast_pos.mpr (Nat.succ_pos i)

def ellipseCaller : Caller (StateT Unit (Except Fault)) Fraction 2 :=
  .ofFunction fun x => (ellipse.value x.get, Vector.ofFn (ellipse.gradient x.get))

theorem ellipseCaller_evaluates : ellipseCaller.Evaluates ellipse := by
  intro x before answer after ran
  exact (returns_pure.mp ran).1

theorem minimize_quadratic_ellipse :
    2 ≤ 20 ∧ ellipseCaller.Evaluates ellipse ∧
    ∃ answer journal started last middle final,
      ((minimize Settings.standard .inOrder ellipseCaller.recorded #v[2, 1]).run []).run () =
        .ok ((answer, journal), ()) ∧
      journal.isFast = true ∧ answer.2.iterations = 2 ∧ answer.2.iterations ≤ 2 ∧
      Visits Settings.standard .inOrder ellipseCaller.recorded #v[2, 1] ([], (), ()) 0 started
        middle ∧
      Visits Settings.standard .inOrder ellipseCaller.recorded #v[2, 1] ([], (), ()) 2 last
        final ∧
      last.value = ellipse.value last.x.get ∧ last.gradient.get = ellipse.gradient last.x.get ∧
      last.direction.get ⬝ᵥ ellipse.hessian *ᵥ started.direction.get = 0 ∧
      last.gradient.get ⬝ᵥ started.gradient.get = 0 := by
  have enough : 2 ≤ 20 := by decide
  obtain ⟨visited, limited⟩ := minimize_quadratic ellipse Settings.standard enough .inOrder
    ellipseCaller ellipseCaller_evaluates #v[2, 1] ()
  obtain ⟨⟨⟨answer, journal⟩, _⟩, ran, fast, two⟩ :
      Yields
        (((minimize Settings.standard .inOrder ellipseCaller.recorded #v[2, 1]).run []).run ())
        (fun outcome => outcome.1.2.isFast = true ∧ outcome.1.1.2.iterations = 2) := by
    decide +kernel
  obtain ⟨_, again, atMost⟩ := limited answer () (minimize_recorded_iff.mpr ⟨journal, ran⟩)
  obtain rfl := (Prod.mk.inj (Prod.mk.inj (Except.ok.inj (again.symm.trans ran))).1).2
  have returned : Returns
      (minimize Settings.standard .inOrder ellipseCaller.recorded #v[2, 1]) ([], (), ()) answer
      (_, (), ()) := ran
  obtain ⟨last, final, visits⟩ := visits_of_minimize returned
  have grown := rest_keeps grows_lasting (recorded_grows ellipseCaller) returned visits
  rw [two] at visits
  have ⟨positive, started, begun, starts, _⟩ := visits
  have first : Visits Settings.standard .inOrder ellipseCaller.recorded #v[2, 1] ([], (), ()) 0
      started begun := ⟨positive, started, begun, starts, .refl _ _ _⟩
  obtain ⟨value, gradient, earlier⟩ :=
    visited 2 last final visits (Journal.isFast_of_prefix grown fast)
  obtain ⟨conjugate, orthogonal⟩ := earlier 0 started begun (by decide) first
  exact ⟨enough, ellipseCaller_evaluates, answer, _, started, last, begun, final, ran, fast,
    two, atMost fast, first, visits, value, gradient, conjugate, orthogonal⟩

end Minimization

end Quadratic

end Descent

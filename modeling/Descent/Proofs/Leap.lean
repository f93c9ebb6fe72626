import Descent.Proofs.Downhill
import Descent.Proofs.Heading
import Descent.Proofs.Threads

/-!
The fast path over exact numbers. Whether a fit can be trusted is decided on scalars: three dot
products, two slopes and the squared norm of the direction that the state carries along. They are
those of the gradient that the move then takes, because the norm always is that of the direction
and the slope always is that along it. The probe is compared with the newest best values; the
last one was noted when the iteration before ended.
-/

namespace Descent

open Matrix Scalar Execution

/-! What a trusted fit has passed. -/

section Trust

variable {F : Type} [Scalar F] {n : Nat} {kernels : Kernels F n} {settings : Settings F}
variable {state : State F n}

def State.interpolatedNormSquared (kernels : Kernels F n) (state : State F n)
    (probeGradient : Vector F n) (u : F) : F :=
  let w := 1 - u
  w * w * kernels.normSquared state.gradient +
    two * u * w * kernels.dot state.gradient probeGradient +
    u * u * kernels.normSquared probeGradient

theorem State.trustedFit?_trusts {start probe : Sample F} {probeGradient : Vector F n}
    {fit : State.Fit F}
    (found : state.trustedFit? kernels settings start probe probeGradient = some fit) :
    0 < fit.step ∧ ¬ settings.tuning.maxFitExtrapolation * probe.step < fit.step ∧
      fit.value = start.hermiteValue probe fit.step ∧
      fit.value ≤ start.value + settings.tuning.sufficientDecrease * fit.step * start.slope ∧
      ¬ probe.value < fit.value ∧
      let u := fit.step / probe.step
      let slope := (1 - u) * start.slope + u * probe.slope
      ¬ (0 < state.interpolatedNormSquared kernels probeGradient u ∧
        settings.tuning.maxCos * settings.tuning.maxCos *
          state.interpolatedNormSquared kernels probeGradient u * state.directionNormSquared <
          slope * slope) := by
  unfold trustedFit? at found
  dsimp only at found
  split at found
  · exact nomatch found
  · next fitted minimum =>
    split at found
    · exact nomatch found
    · next reach =>
      split at found
      · exact nomatch found
      · next decrease =>
        split at found
        · exact nomatch found
        · next angle =>
          obtain rfl := Option.some.inj found
          simp only [not_or, not_not] at reach decrease
          exact ⟨reach.1, reach.2, rfl, decrease.1, decrease.2, angle⟩

end Trust

/-! What every state of a run carries along. -/

namespace State

/-- The newest of the recent best values is the best value. -/
def Noted {F : Type} {n : Nat} (state : State F n) : Prop :=
  state.recentBests.head? = some state.tally.best.value

theorem noteProgress_noted {F : Type} [Scalar F] {n : Nat} (settings : Settings F)
    (state : State F n) : (state.noteProgress settings).Noted := by
  rw [Noted, noteProgress, List.head?_take, if_neg (by omega)]
  rfl

section Carried

variable {F : Type} [Field F] [LinearOrder F] [Exact F] {n : Nat} {settings : Settings F}

/-- The squared norm is that of the direction. -/
def Measured (state : State F n) : Prop :=
  state.directionNormSquared = state.direction.get ⬝ᵥ state.direction.get

variable (state : State F n)

theorem restart_measured : (state.restart (.serial F n)).Measured := serial_normSquared _

theorem restart_direction : (state.restart (.serial F n)).direction.get = -state.gradient.get :=
  (serial_scale _ _).trans (neg_one_smul F _)

theorem turn_measured (beta : F) :
    (state.turn (.serial F n) settings beta).state.Measured := by
  unfold turn
  dsimp only
  split
  · exact restart_measured _
  · split
    · exact serial_normSquared _
    · exact restart_measured _

theorem advance_measured (line : Record F n) (target : Move F n) :
    (state.advance (.serial F n) settings line target).state.Measured :=
  turn_measured _ _

theorem interpolatedGradient_get (probe : Sample F) (probeGradient : Vector F n) (step : F) :
    (state.interpolatedGradient (.serial F n) probe probeGradient step).get =
      (1 - step / probe.step) • state.gradient.get + (step / probe.step) • probeGradient.get := by
  unfold interpolatedGradient
  dsimp only
  rw [serial_addTwoScaled, zeros_get, zero_add]

theorem interpolatedNormSquared_eq (probeGradient : Vector F n) (u : F) :
    state.interpolatedNormSquared (.serial F n) probeGradient u =
      ((1 - u) • state.gradient.get + u • probeGradient.get) ⬝ᵥ
        ((1 - u) • state.gradient.get + u • probeGradient.get) := by
  rw [interpolatedNormSquared, serial_normSquared, serial_normSquared, serial_dot]
  simp only [add_dotProduct, dotProduct_add, smul_dotProduct, dotProduct_smul, smul_eq_mul, two,
    Nat.cast_ofNat, dotProduct_comm probeGradient.get]
  ring

variable {state}

/-- No value is let pass that is above the newest best one. -/
theorem recentThreshold_le [Limited F] (noted : state.Noted) :
    state.recentThreshold ≤ state.tally.best.value := by
  obtain ⟨older, same⟩ := List.head?_eq_some_iff.mp noted
  rw [recentThreshold, same]
  cases older with
  | nil =>
    simp only [List.take, List.foldl, Exact.minNum_eq]
    exact min_le_right _ _
  | cons previous older =>
    simp only [List.take, List.foldl, Exact.minNum_eq]
    exact (min_le_left _ _).trans (min_le_right _ _)

variable [IsStrictOrderedRing F]

theorem withoutDirection_measured
    (level : ¬ 0 < (Kernels.serial F n).normSquared state.direction) :
    state.withoutDirection.Measured := by
  rw [serial_normSquared] at level
  have still : state.direction.get = 0 := not_ne_iff.mp fun ne => level (dotProduct_self_pos ne)
  rw [Measured, withoutDirection, still, zero_dotProduct]

/-- The test of scalars is one of the interpolated gradient. -/
theorem interpolatedGradient_flat (measured : state.Measured) {start probe : Sample F}
    {probeGradient : Vector F n} {fit : Fit F}
    (found : state.trustedFit? (.serial F n) settings start probe probeGradient = some fit)
    (sloped : start.slope = state.gradient.get ⬝ᵥ state.direction.get)
    (probed : probe.slope = probeGradient.get ⬝ᵥ state.direction.get) {g : Fin n → F}
    (interpolated : g =
      (1 - fit.step / probe.step) • state.gradient.get +
        (fit.step / probe.step) • probeGradient.get) :
    g = 0 ∨ (g ⬝ᵥ state.direction.get) ^ 2 ≤
      settings.tuning.maxCos ^ 2 * (g ⬝ᵥ g) *
        (state.direction.get ⬝ᵥ state.direction.get) := by
  have along : (1 - fit.step / probe.step) * start.slope + fit.step / probe.step * probe.slope =
      g ⬝ᵥ state.direction.get := by
    rw [sloped, probed, interpolated, add_dotProduct, smul_dotProduct, smul_dotProduct,
      smul_eq_mul, smul_eq_mul]
  have length : state.interpolatedNormSquared (.serial F n) probeGradient
      (fit.step / probe.step) = g ⬝ᵥ g := by
    rw [interpolatedNormSquared_eq, interpolated]
  obtain ⟨_, _, _, _, _, angle⟩ := trustedFit?_trusts found
  dsimp only at angle
  rw [along, length, measured] at angle
  rcases eq_or_ne g 0 with none | some
  · exact .inl none
  · rw [sq, sq]
    exact .inr (not_lt.mp fun steep => angle ⟨dotProduct_self_pos some, steep⟩)

end Carried

end State

namespace Minimization

variable {m : Type → Type} [Monad m] [MonadExceptOf Fault m] {World : Type} [Execution m World]
variable {F : Type} [Field F] [LinearOrder F] [Exact F] [Limited F] {n : Nat}
variable {settings : Settings F} {caller : Caller m F n} {runner : Runner}
variable {before after : World} {iteration done : Nat} {state left : State F n}

theorem downhill_slope {slope : F} (measured : state.Measured)
    (turns : Returns (downhill (.serial F n) caller iteration state) before (some slope, left)
      after) :
    slope = left.gradient.get ⬝ᵥ left.direction.get ∧ left.Measured ∧
      (left.direction = state.direction ∨ left.direction.get = -state.gradient.get) := by
  rcases downhill_returns turns with ⟨_, same, rfl, _⟩ | ⟨_, _, rfl, steepest⟩
  · rw [Option.some.inj same]
    exact ⟨serial_dot _ _, measured, .inl rfl⟩
  · have norm : (state.restart (.serial F n)).Measured := state.restart_measured
    have turned := state.restart_direction
    refine ⟨?_, norm, .inr turned⟩
    rw [State.steepestSlope?] at steepest
    split at steepest
    · rw [Option.some.inj steepest, norm, turned, neg_dotProduct, neg_neg]
      rfl
    · cases steepest

theorem check_carried {kernels : Kernels F n} (measured : state.Measured)
    (noted : state.directionNormSquared ≠ 0 → state.Noted)
    (checks : Returns (check kernels settings caller done state) before (none, left) after) :
    left.Measured ∧ left.recentBests = state.recentBests ∧ state.Noted := by
  have directed : left.directionNormSquared ≠ 0 :=
    Exact.isZero_iff.not.mp (directed_of_verdict? (check_none checks))
  rcases check_left checks with rfl | ⟨_, _, evaluates⟩
  · exact ⟨measured, rfl, noted directed⟩
  · obtain ⟨_, _, _, rfl⟩ := evaluateIterate_returns evaluates
    exact ⟨measured, rfl, noted directed⟩

/-- A line that was probed from a state, by its start and the gradient at the probe. -/
structure Probed.Leaves (view : Probed F n) (state : State F n) (answer : F)
    (probeGradient : Vector F n) : Prop where
  place : view.state.x = state.x
  value : view.state.value = state.value
  gradient : view.state.gradient = state.gradient
  bests : view.state.recentBests = state.recentBests
  along : view.state.direction = state.direction ∨
    view.state.direction.get = -state.gradient.get
  measured : view.state.Measured
  slope : view.slope = view.state.gradient.get ⬝ᵥ view.state.direction.get
  probe : view.probe =
    ⟨⟨view.step, answer, probeGradient.get ⬝ᵥ view.state.direction.get⟩, probeGradient⟩

theorem look_leaves {view : Probed F n} (measured : state.Measured)
    (looks : Returns (look (.serial F n) settings caller iteration state) before (.probed view)
      after) :
    ∃ (point : Vector F n) (value : F) (gradient : Vector F n) (first last : World),
      point.get = state.x.get + view.step • view.state.direction.get ∧
      Returns (caller.evaluate point) first (value, gradient) last ∧
      view.Leaves state value gradient := by
  obtain ⟨turned, middle, jitter, trail, turns, _, probes, viewed, _⟩ := look_probed looks
  obtain ⟨slope, measured, along⟩ := downhill_slope measured turns
  have kept := downhill_keeps turns
  have bests : turned.recentBests = state.recentBests := by
    rcases downhill_returns turns with ⟨_, _, rfl, _⟩ | ⟨_, _, rfl, _⟩ <;> rfl
  obtain ⟨value, gradient, answered, marked, _⟩ := probe_returns probes
  have place : turned.x = state.x := congrArg Position.x kept
  rw [Sample.make_eq, serial_dot] at marked
  cases view
  obtain rfl := viewed
  refine ⟨_, value, gradient, middle, after, ?_, answered, ?_⟩
  · rw [serial_addScaled, ← place]
  · exact ⟨place, congrArg Position.value kept, congrArg Position.gradient kept, bests, along,
      measured, slope, marked⟩

/-- A move by a fit along `d`, through the start of the line and a probe of it. -/
structure Leaps (tuning : Tuning F) (start next : State F n) (d : Fin n → F) (probe : Sample F)
    (probeGradient : Fin n → F) (fitted : F) : Prop where
  place : next.x.get = start.x.get + fitted • d
  ahead : 0 < fitted
  near : fitted ≤ tuning.maxFitExtrapolation * probe.step
  gradient : next.gradient.get =
    (1 - fitted / probe.step) • start.gradient.get + (fitted / probe.step) • probeGradient
  /-- Nearly orthogonal to the direction. -/
  flat : next.gradient.get = 0 ∨
    (next.gradient.get ⬝ᵥ d) ^ 2 ≤
      tuning.maxCos ^ 2 * (next.gradient.get ⬝ᵥ next.gradient.get) * (d ⬝ᵥ d)
  value : next.value =
    (Sample.mk 0 start.value (start.gradient.get ⬝ᵥ d)).hermiteValue probe fitted
  decrease : next.value ≤
    start.value + tuning.sufficientDecrease * fitted * (start.gradient.get ⬝ᵥ d)
  below : next.value ≤ probe.value

variable [IsStrictOrderedRing F]

theorem leaps_of_trusted {view : Probed F n} {answer : F} {probeGradient : Vector F n}
    {fit : State.Fit F} (leaves : view.Leaves state answer probeGradient)
    (trusted : view.state.trustedFit? (.serial F n) settings (.make 0 view.state.value view.slope)
      view.probe.sample view.probe.gradient = some fit) :
    Leaps settings.tuning state
      (view.state.advance (.serial F n) settings view.line (view.leap (.serial F n) fit)).state
      view.state.direction.get ⟨view.step, answer, probeGradient.get ⬝ᵥ view.state.direction.get⟩
      probeGradient.get fit.step := by
  have moved := view.state.advance_position (.serial F n) settings view.line
    (view.leap (.serial F n) fit)
  have place := congrArg Position.x moved
  have value := congrArg Position.value moved
  have gradient := congrArg Position.gradient moved
  have start : Sample.make 0 view.state.value view.slope =
      ⟨0, state.value, state.gradient.get ⬝ᵥ view.state.direction.get⟩ := by
    rw [Sample.make_eq, leaves.value, leaves.slope, leaves.gradient]
  rw [start] at trusted
  obtain ⟨ahead, near, hermite, decrease, below, _⟩ := State.trustedFit?_trusts trusted
  have interpolated := (congrArg Vector.get gradient).trans
    (State.interpolatedGradient_get view.state view.probe.sample view.probe.gradient fit.step)
  have flat := State.interpolatedGradient_flat leaves.measured trusted
    (by rw [leaves.gradient]) (by rw [leaves.probe]) interpolated
  have reached := (congrArg Vector.get place).trans
    (serial_addScaled view.state.direction view.state.x fit.step)
  rw [leaves.place] at reached
  rw [leaves.gradient, leaves.probe] at interpolated
  rw [leaves.probe] at near hermite below
  exact ⟨reached, ahead, not_lt.mp near, interpolated, flat, value.trans hermite,
    value.trans_le decrease, value.trans_le (not_lt.mp below)⟩

theorem iterate_carried [LawfulMonad m]
    (iterates : Returns (iterate (.serial F n) settings caller iteration state) before left
      after) :
    left.Measured ∧ (left.directionNormSquared ≠ 0 → left.Noted) := by
  rcases iterate_left iterates with ⟨resting, _, plans, rfl⟩ | ⟨worn, rfl⟩ | ⟨_, _, _, rfl⟩
  · exact ⟨State.withoutDirection_measured (plan_rest plans).1, fun ne => absurd rfl ne⟩
  · exact ⟨worn.restart_measured, fun _ => State.noteProgress_noted settings _⟩
  · exact ⟨State.advance_measured _ _ _, fun _ => State.noteProgress_noted settings _⟩

theorem visits_carried [LawfulMonad m] {x : Vector F n}
    (visits : Visits settings runner caller x before done state after) :
    state.Measured ∧ (state.directionNormSquared ≠ 0 → state.Noted) := by
  obtain ⟨positive, started, begun, starts, passes⟩ := visits
  rw [Kernels.shared_eq_serial settings.threads runner positive] at starts passes
  refine passes_invariant (fun _ state _ => state.Measured ∧
    (state.directionNormSquared ≠ 0 → state.Noted)) ?_ passes ?_
  · rintro _ _ _ _ _ _ ⟨_, _, _, _, _, iterates, _⟩
    exact iterate_carried iterates
  · obtain ⟨value, gradient, _, rfl⟩ := start_returns starts
    exact ⟨serial_normSquared _, fun _ => rfl⟩

/-- Every iteration that takes the fast path. -/
theorem leap_fits [LawfulMonad m] (settings : Settings F) (runner : Runner)
    (caller : Caller m F n) (x : Vector F n) (before : World) (done : Nat)
    (state checked next : State F n) (view : Probed F n) (fit : State.Fit F)
    (reached asked planned after : World)
    (visits : Visits settings runner caller x before done state reached)
    (checks : Returns
      (check (Kernels.shared F n settings.threads runner) settings caller done state) reached
      (none, checked) asked)
    (plans : Returns
      (plan (Kernels.shared F n settings.threads runner) settings caller (done + 1) checked) asked
      (.leap view fit) planned)
    (iterates : Returns
      (iterate (Kernels.shared F n settings.threads runner) settings caller (done + 1) checked)
      asked next after) :
    let d := view.state.direction.get
    (d = checked.direction.get ∨ d = -checked.gradient.get) ∧
    ∃ (point : Vector F n) (value : F) (probeGradient : Vector F n) (first last : World),
      point.get = checked.x.get + view.step • d ∧
      Returns (caller.evaluate point) first (value, probeGradient) last ∧
      Leaps settings.tuning checked next d ⟨view.step, value, probeGradient.get ⬝ᵥ d⟩
        probeGradient.get fit.step ∧
      value ≤ state.tally.best.value := by
  obtain ⟨measured, noted⟩ := visits_carried visits
  rw [Kernels.shared_eq_serial settings.threads runner visits.1] at checks plans iterates
  obtain ⟨measured, bests, noted⟩ := check_carried measured noted checks
  obtain ⟨landing, _, lands, finishes⟩ := iterate_planned plans iterates
  obtain ⟨rfl, rfl⟩ := returns_pure.mp lands
  obtain ⟨rfl, _⟩ := move_returns finishes
  obtain ⟨looks, found⟩ := plan_leap plans
  obtain ⟨point, value, probeGradient, first, last, place, answered, leaves⟩ :=
    look_leaves measured looks
  have along : view.state.direction.get = checked.direction.get ∨
      view.state.direction.get = -checked.gradient.get :=
    leaves.along.imp_left (congrArg Vector.get)
  obtain ⟨low, trusted⟩ := fit?_trusted found
  refine ⟨along, point, value, probeGradient, first, last, place, answered,
    leaps_of_trusted leaves trusted, ?_⟩
  rw [leaves.probe, State.recentThreshold, leaves.bests, bests] at low
  exact low.trans (State.recentThreshold_le noted)

/-! A leap across an oval. -/

section Oval

def oval {F : Type} [Scalar F] (x : Vector F 2) : F × Vector F 2 :=
  let u := x.get ⟨0, Nat.zero_lt_two⟩
  let v := x.get ⟨1, Nat.one_lt_two⟩
  (u * u / two + v * v, #v[u, two * v])

def ovalCaller {F : Type} [Scalar F] : Caller (Except Fault) F 2 := .ofFunction oval

def ovalKernels : Kernels Fraction 2 := .shared Fraction 2 1 .inOrder

def ovalRun (x : Vector Fraction 2) :
    Except Fault (Option Termination × Plan Fraction 2 × State Fraction 2) := do
  let started ← start ovalKernels .standard ovalCaller x
  let (termination?, checked) ← check ovalKernels .standard ovalCaller 0 started
  let planned ← plan ovalKernels .standard ovalCaller 1 checked
  let next ← iterate ovalKernels .standard ovalCaller 1 checked
  pure (termination?, planned, next)

def Plan.leap? {F : Type} {n : Nat} : Plan F n → Option (Probed F n × State.Fit F)
  | .leap view fit => some (view, fit)
  | _ => none

theorem ovalRun_yields : Yields (ovalRun #v[2, 1]) fun (termination?, planned, next) =>
    termination? = none ∧ (∃ leap ∈ planned.leap?, leap.2.step = 2 / 3) ∧
      next.gradient = #v[2 / 3, -2 / 3] := by
  decide +kernel

/-- The leap ends beside the minimum, with a gradient that is orthogonal to the direction. -/
theorem leap_fits_oval : ∃ state checked next view fit,
    Visits .standard .inOrder ovalCaller #v[2, 1] () 0 state () ∧
    Returns (check ovalKernels .standard ovalCaller 0 state) () (none, checked) () ∧
    Returns (plan ovalKernels .standard ovalCaller 1 checked) () (.leap view fit) () ∧
    Returns (iterate ovalKernels .standard ovalCaller 1 checked) () next () ∧
    fit.step = 2 / 3 ∧ next.gradient = #v[2 / 3, -2 / 3] ∧
    ∃ (value : Fraction) (probeGradient : Vector Fraction 2),
      Leaps (.standard : Tuning Fraction) checked next view.state.direction.get
        ⟨view.step, value, probeGradient.get ⬝ᵥ view.state.direction.get⟩ probeGradient.get
        (2 / 3) ∧
      value ≤ state.tally.best.value := by
  obtain ⟨⟨termination?, planned, next⟩, same, rfl, ⟨leap, member, reach⟩, gradient⟩ :=
    ovalRun_yields
  have ran : Returns (ovalRun #v[2, 1]) () (none, planned, next) () := same
  obtain ⟨started, _, starts, rest⟩ := returns_bind.mp ran
  obtain ⟨⟨termination?, checked⟩, _, checks, rest⟩ := returns_bind.mp rest
  obtain ⟨planned', _, plans, rest⟩ := returns_bind.mp rest
  obtain ⟨next', _, iterates, last⟩ := returns_bind.mp rest
  obtain ⟨answer, _⟩ := returns_pure.mp last
  obtain ⟨rfl, rfl, rfl⟩ : none = termination? ∧ planned = planned' ∧ next = next' := by
    simpa only [Prod.mk.injEq] using answer
  have visits : Visits .standard .inOrder ovalCaller #v[2, 1] () 0 started () :=
    ⟨by decide, started, (), starts, .refl _ _ _⟩
  cases planned with
  | rest _ | explore _ _ _ _ => exact nomatch member
  | leap view fit =>
    obtain rfl := Option.some.inj member
    obtain ⟨_, _, value, probeGradient, _, _, _, _, leaps, improves⟩ :=
      leap_fits .standard .inOrder ovalCaller #v[2, 1] () 0 started checked next view fit
        () () () () visits checks plans iterates
    rw [reach] at leaps
    exact ⟨started, checked, next, view, fit, visits, checks, plans, iterates, reach, gradient,
      value, probeGradient, leaps, improves⟩

end Oval

end Minimization

end Descent

import Descent.Proofs.FiniteTermination
import Descent.Proofs.Leap

/-!
A round paraboloid is minimized at once. The first line from any start leads through the center,
and a fit through the start and the probe finds it, whether the probe falls short of it, hits it
or goes beyond it. There the interpolated gradient vanishes and so does the next direction; the
check evaluates the center and finds that the run has converged.
-/

namespace Descent

open Matrix Scalar Execution

section Function

variable {F : Type} [Field F] {n : ℕ}

/-- A multiple of the squared distance from a center, with its gradient. -/
def paraboloid (scale : F) (center x : Vector F n) : F × Vector F n :=
  (scale * ∑ i, (x.get i - center.get i) ^ 2,
    Vector.ofFn fun i => (2 : ℕ) * scale * (x.get i - center.get i))

variable [LinearOrder F] [IsStrictOrderedRing F]

def Quadratic.around (scale : F) (center : Fin n → F) (positive : 0 < scale) : Quadratic F n :=
  .ofWeights (fun _ => (2 : ℕ) * scale) (((2 : ℕ) * scale) • center) (scale * (center ⬝ᵥ center))
    fun _ => mul_pos (Nat.cast_pos.mpr two_pos) positive

namespace Quadratic

variable (scale : F) (center : Fin n → F) (positive : 0 < scale)

theorem around_hessian (v : Fin n → F) :
    (around scale center positive).hessian *ᵥ v = (2 * scale) • v := by
  have diagonal : (around scale center positive).hessian *ᵥ v = ((2 : ℕ) * scale) • v :=
    funext fun i => mulVec_diagonal _ _ i
  rw [diagonal, Nat.cast_ofNat]

theorem around_gradient (x : Fin n → F) :
    (around scale center positive).gradient x = (2 * scale) • (x - center) := by
  have linear : (around scale center positive).linear = ((2 : ℕ) * scale) • center := rfl
  rw [gradient, around_hessian, linear, Nat.cast_ofNat, smul_sub]

theorem around_value (x : Fin n → F) :
    (around scale center positive).value x = scale * ((x - center) ⬝ᵥ (x - center)) := by
  have linear : (around scale center positive).linear = ((2 : ℕ) * scale) • center := rfl
  have constant : (around scale center positive).constant = scale * (center ⬝ᵥ center) := rfl
  rw [value, around_hessian, linear, constant]
  simp only [dotProduct_smul, smul_dotProduct, sub_dotProduct, dotProduct_sub, smul_eq_mul,
    dotProduct_comm center x, Nat.cast_ofNat]
  ring

theorem around_value_of_gradient (x : Fin n → F) :
    (around scale center positive).value x =
      (around scale center positive).gradient x ⬝ᵥ (around scale center positive).gradient x /
        (4 * scale) := by
  rw [around_value, around_gradient, smul_dotProduct, dotProduct_smul, smul_eq_mul, smul_eq_mul]
  field_simp
  ring

end Quadratic

theorem paraboloid_eq {scale : F} (positive : 0 < scale) (center x : Vector F n) :
    paraboloid scale center x =
      ((Quadratic.around scale center.get positive).value x.get,
        Vector.ofFn ((Quadratic.around scale center.get positive).gradient x.get)) := by
  rw [Quadratic.around_value, Quadratic.around_gradient]
  simp [paraboloid, dotProduct, sq]
  rfl

end Function

/-! The first line. -/

theorem State.trustedFit?_level {F : Type} [Scalar F] {n : Nat} {kernels : Kernels F n}
    {settings : Settings F} {state : State F n} {start probe : Sample F}
    {probeGradient : Vector F n} {fit : State.Fit F}
    (minimum : start.fitMinimizer probe = some fit.step)
    (predicted : start.hermiteValue probe fit.step = fit.value) (ahead : 0 < fit.step)
    (near : ¬ settings.tuning.maxFitExtrapolation * probe.step < fit.step)
    (decrease : fit.value ≤
      start.value + settings.tuning.sufficientDecrease * fit.step * start.slope)
    (below : ¬ probe.value < fit.value)
    (level : ¬ 0 < state.interpolatedNormSquared kernels probeGradient
      (fit.step / probe.step)) :
    state.trustedFit? kernels settings start probe probeGradient = some fit := by
  have reach : ¬ (¬ 0 < fit.step ∨
      settings.tuning.maxFitExtrapolation * probe.step < fit.step) := by
    rw [not_or, not_not]
    exact ⟨ahead, near⟩
  have useful : ¬ (¬ fit.value ≤
      start.value + settings.tuning.sufficientDecrease * fit.step * start.slope ∨
        probe.value < fit.value) := by
    rw [not_or, not_not]
    exact ⟨decrease, below⟩
  unfold trustedFit?
  simp only [minimum, predicted]
  rw [if_neg reach, if_neg useful, if_neg fun steep => level steep.1]

/-! The parabola on the first line, whose least value is zero. -/

section Parabola

variable {F : Type} [Field F] [LinearOrder F] [IsStrictOrderedRing F]
variable {scale square step : F} (positive : 0 < scale) (length : 0 < square)

/-- By the square of the slope at its start. -/
def Sample.touching (scale square step : F) : Sample F :=
  .ofParabola (square / ((4 : ℕ) * scale)) (-square) ((2 : ℕ) * scale * square) step

omit [LinearOrder F] [IsStrictOrderedRing F] in
theorem Sample.touching_eq : Sample.touching scale square step =
    .ofParabola (square / (4 * scale)) (-square) (2 * scale * square) step := by
  rw [touching, Nat.cast_ofNat, Nat.cast_ofNat]

include positive in
theorem Sample.touching_value (step : F) : (Sample.touching scale square step).value =
    square * (1 - 2 * scale * step) ^ 2 / (4 * scale) := by
  simp only [touching_eq, ofParabola, Nat.cast_ofNat]
  field_simp
  ring

include positive length

theorem Sample.touching_nonneg (step : F) : 0 ≤ (Sample.touching scale square step).value := by
  rw [touching_value positive]
  positivity

theorem Sample.touching_le (forward : 0 < step) (short : scale * step ≤ 1) :
    (Sample.touching scale square step).value ≤ square / (4 * scale) := by
  rw [touching_value positive]
  apply div_le_div_of_nonneg_right _ (by positivity)
  have near : (1 - 2 * scale * step) ^ 2 ≤ 1 := by
    have ahead : 0 < scale * step := mul_pos positive forward
    nlinarith
  exact mul_le_of_le_one_right length.le near

theorem Sample.touching_decreases {share : F} (enough : share ≤ 1 / 2) :
    0 ≤ (Sample.touching scale square 0).value +
      share * (1 / (2 * scale)) * (Sample.touching scale square 0).slope := by
  have surplus : (Sample.touching scale square 0).value +
      share * (1 / (2 * scale)) * (Sample.touching scale square 0).slope =
        square / (4 * scale) * (1 - 2 * share) := by
    simp only [touching_eq, ofParabola]
    field_simp
    ring
  rw [surplus]
  exact mul_nonneg (by positivity) (by linarith)

variable [Exact F]

omit length in
theorem Sample.touching_hermite (moved : step ≠ 0) :
    (Sample.touching scale square 0).hermiteValue (.touching scale square step)
      (1 / (2 * scale)) = 0 := by
  rw [touching_eq, touching_eq, hermiteValue_parabola moved]
  have nonzero := positive.ne'
  field_simp
  push_cast
  ring

theorem Sample.touching_minimizer [Rooted F] (moved : step ≠ 0) :
    (Sample.touching scale square 0).fitMinimizer (.touching scale square step) =
      some (1 / (2 * scale)) := by
  have curved : 0 < 2 * scale * square := by positivity
  have target : -(-square) / (2 * scale * square) = 1 / (2 * scale) := by
    rw [neg_neg, div_mul_cancel_right₀ length.ne', one_div]
  rw [touching_eq, touching_eq, fitMinimizer, cubicMinimizer_parabola curved moved, target]
  rfl

end Parabola

structure Centered {F : Type} [Zero F] {n : ℕ} (center : Fin n → F) (state : State F n) :
    Prop where
  x : state.x.get = center
  value : state.value = 0
  gradient : state.gradient.get = 0
  real : state.real = false

section Line

variable {F : Type} [Field F] [LinearOrder F] [IsStrictOrderedRing F] [Exact F] {n : ℕ}

omit [IsStrictOrderedRing F] in
/-- The first line is probed at the first step. That goes far enough for a fit of the center to
be trusted, and not more than twice as far as the center. -/
structure Settings.Reaches (settings : Settings F) (scale : F) : Prop where
  forward : 0 < settings.firstStep
  near : 1 ≤ 2 * settings.tuning.maxFitExtrapolation * (scale * settings.firstStep)
  short : scale * settings.firstStep ≤ 1
  decrease : settings.tuning.sufficientDecrease ≤ 1 / 2
  patience : 0 < settings.tuning.randomizeAfter

/-- A state at which nothing but the start was evaluated. -/
structure Begun (q : Quadratic F n) (settings : Settings F) (state : State F n) : Prop where
  tracks : Tracks q settings.noResetRunLength [] state.heading
  real : state.real = true
  step : state.step = settings.firstStep
  recent : state.recentBests = [state.value]
  since : state.sinceImprovement = 0
  direction : state.direction.get = -state.gradient.get
  norm : state.initialGradientNorm = sqrt (state.gradient.get ⬝ᵥ state.gradient.get)
  tally : state.tally.evaluations = 1 ∧ state.tally.best = ⟨state.x, state.gradient, state.value⟩

variable {scale : F} {center : Fin n → F} {positive : 0 < scale}
variable {settings : Settings F} {state : State F n}

theorem Settings.Reaches.of_standard (tuned : settings.tuning = .standard)
    (forward : 0 < settings.firstStep) (short : scale * settings.firstStep ≤ 1)
    (near : 1 / (2 * settings.tuning.maxFitExtrapolation) ≤ scale * settings.firstStep) :
    0 < scale ∧ settings.Reaches scale := by
  have far : settings.tuning.maxFitExtrapolation = 10 := by
    rw [tuned]
    exact Nat.cast_ofNat
  have ahead : 0 < 2 * settings.tuning.maxFitExtrapolation := by
    rw [far]
    norm_num
  have decrease : settings.tuning.sufficientDecrease ≤ 1 / 2 := by
    rw [tuned]
    change (1e-4 : F) ≤ 1 / 2
    norm_num
  have patience : 0 < settings.tuning.randomizeAfter := by
    rw [tuned]
    exact Nat.succ_pos 5
  exact ⟨pos_of_mul_pos_left (near.trans_lt' (one_div_pos.mpr ahead)) forward.le,
    forward, (div_le_iff₀' ahead).mp near, short, decrease, patience⟩

theorem Begun.value_eq (begun : Begun (.around scale center positive) settings state) :
    state.value = state.gradient.get ⬝ᵥ state.gradient.get / (4 * scale) := by
  have known : state.value = (Quadratic.around scale center positive).value state.x.get :=
    begun.tracks.value
  have gradient : state.gradient.get = (Quadratic.around scale center positive).gradient
    state.x.get := begun.tracks.gradient
  rw [known, Quadratic.around_value_of_gradient, ← gradient]

theorem Begun.sampleAt_eq (begun : Begun (.around scale center positive) settings state)
    (step : F) : state.heading.sampleAt (.around scale center positive) step =
      .touching scale (state.gradient.get ⬝ᵥ state.gradient.get) step := by
  have line : state.heading.sampleAt (.around scale center positive) step =
      .ofParabola state.value (state.gradient.get ⬝ᵥ state.direction.get)
        (state.direction.get ⬝ᵥ
          (Quadratic.around scale center positive).hessian *ᵥ state.direction.get) step := rfl
  rw [line, begun.value_eq, Quadratic.around_hessian, begun.direction, dotProduct_neg,
    dotProduct_smul, neg_dotProduct_neg, smul_eq_mul, Sample.touching_eq]

theorem Begun.place_eq (begun : Begun (.around scale center positive) settings state) :
    state.x.get + (1 / (2 * scale)) • state.direction.get = center := by
  have gradient : state.gradient.get = (Quadratic.around scale center positive).gradient
    state.x.get := begun.tracks.gradient
  have unit : 1 / (2 * scale) * (2 * scale) = 1 :=
    one_div_mul_cancel (mul_pos two_pos positive).ne'
  rw [begun.direction, gradient, Quadratic.around_gradient, smul_neg, smul_smul, unit, one_smul]
  abel

theorem Begun.lands (begun : Begun (.around scale center positive) settings state)
    (tally : Tally F n) (line : Record F n) (probe : Sample F) {probeGradient : Vector F n}
    {step : F} (place : probe.step = step) (moved : step ≠ 0)
    (known : probeGradient.get = (Quadratic.around scale center positive).gradient
      (state.x.get + step • state.direction.get)) :
    let next := (State.advance (.serial F n) settings { state with tally } line
      { step := 1 / (2 * scale)
        value := 0
        gradient := state.interpolatedGradient (.serial F n) probe probeGradient
          (1 / (2 * scale))
        real := false }).state
    Centered center next ∧ next.tally = tally := by
  intro next
  have position := State.advance_position (.serial F n) settings { state with tally } line
    { step := 1 / (2 * scale)
      value := 0
      gradient := state.interpolatedGradient (.serial F n) probe probeGradient (1 / (2 * scale))
      real := false }
  have level := interpolatedGradient_quadratic begun.tracks (place ▸ moved) (place.symm ▸ known)
    (1 / (2 * scale))
  rw [begun.place_eq, Quadratic.around_gradient, sub_self, smul_zero] at level
  have arrived : (State.pointAt (.serial F n) { state with tally } (1 / (2 * scale))).get =
      center := (serial_addScaled _ _ _).trans begun.place_eq
  exact ⟨⟨(congrArg Vector.get (congrArg Position.x position)).trans arrived,
    congrArg Position.value position,
    (congrArg Vector.get (congrArg Position.gradient position)).trans level,
    congrArg Position.real position⟩, congrArg Position.tally position⟩

omit [IsStrictOrderedRing F] in
theorem Begun.recentThreshold_eq [Limited F] {q : Quadratic F n} (begun : Begun q settings state)
    (below : state.value < Unbounded.infinity) : state.recentThreshold = state.value := by
  rw [State.recentThreshold, begun.recent]
  simp only [List.take, List.foldl, Exact.minNum_eq]
  exact min_eq_right below.le

variable [Rooted F] [Limited F]

theorem Begun.fit?_eq (begun : Begun (.around scale center positive) settings state)
    (sloped : state.gradient.get ≠ 0) (below : state.value < Unbounded.infinity)
    (reaches : settings.Reaches scale) (tally : Tally F n) {probed : Marked F n}
    (sampled : probed.sample =
      state.heading.sampleAt (.around scale center positive) settings.firstStep)
    (known : probed.gradient.get = (Quadratic.around scale center positive).gradient
      (state.x.get + settings.firstStep • state.direction.get)) :
    Minimization.fit? (.serial F n) settings { state with tally }
        (state.slope (.serial F n)) probed =
      some { step := 1 / (2 * scale), value := 0 } := by
  have length : 0 < state.gradient.get ⬝ᵥ state.gradient.get := dotProduct_self_pos sloped
  have begins : Sample.make 0 state.value (state.slope (.serial F n)) =
      state.heading.sampleAt (.around scale center positive) 0 := Minimization.start_quadratic
  have level : (1 - 1 / (2 * scale) / settings.firstStep) • state.gradient.get +
      (1 / (2 * scale) / settings.firstStep) • probed.gradient.get = 0 := by
    have place : probed.sample.step = settings.firstStep := congrArg Sample.step sampled
    have moved : probed.sample.step ≠ 0 := place ▸ reaches.forward.ne'
    rw [← place] at known
    have interpolated := interpolatedGradient_quadratic begun.tracks moved known (1 / (2 * scale))
    rw [State.interpolatedGradient_get, begun.place_eq, Quadratic.around_gradient, sub_self,
      smul_zero, place] at interpolated
    exact interpolated
  have value := begun.value_eq
  rw [begun.sampleAt_eq] at begins sampled
  generalize state.gradient.get ⬝ᵥ state.gradient.get = square at length begins sampled value
  have low : probed.sample.value ≤ State.recentThreshold { state with tally } := by
    rw [sampled]
    refine (Sample.touching_le positive length reaches.forward reaches.short).trans ?_
    rw [← value, ← begun.recentThreshold_eq below]
    rfl
  rw [Minimization.fit?, if_pos low, begins, sampled]
  apply State.trustedFit?_level
  · exact Sample.touching_minimizer positive length reaches.forward.ne'
  · exact Sample.touching_hermite positive reaches.forward.ne'
  · exact one_div_pos.mpr (mul_pos two_pos positive)
  · change ¬ settings.tuning.maxFitExtrapolation * settings.firstStep < 1 / (2 * scale)
    rw [not_lt, div_le_iff₀ (mul_pos two_pos positive)]
    linarith [reaches.near]
  · exact Sample.touching_decreases positive length reaches.decrease
  · exact not_lt.mpr (Sample.touching_nonneg positive length _)
  · change ¬ 0 < State.interpolatedNormSquared _ _ _ (1 / (2 * scale) / settings.firstStep)
    rw [State.interpolatedNormSquared_eq]
    change ¬ 0 < ((1 - 1 / (2 * scale) / settings.firstStep) • state.gradient.get + _) ⬝ᵥ _
    rw [level, zero_dotProduct]
    exact lt_irrefl 0

end Line

/-! The whole run. -/

section Callers

variable {m : Type → Type} [Monad m] [MonadExceptOf Fault m] {World : Type} [Execution m World]
variable {F : Type} {n : ℕ}

structure Caller.Patient (caller : Caller m F n) : Prop where
  isCancelled : ∀ before answer after,
    Returns caller.isCancelled before answer after → answer = false
  shouldStop : ∀ x best done before answer after,
    Returns (caller.shouldStop x best done) before answer after → answer = false

theorem Caller.ofFunction_patient (f : Vector F n → F × Vector F n) :
    (Caller.ofFunction f : Caller m F n).Patient where
  isCancelled _ _ _ ran := (returns_pure.mp ran).1
  shouldStop _ _ _ _ _ _ ran := (returns_pure.mp ran).1

theorem Caller.ofFunction_responds (f : Vector F n → F × Vector F n) :
    (Caller.ofFunction f : Caller m F n).Responds where
  evaluate _ := completes_pure _
  shouldStop _ _ _ := completes_pure _
  isCancelled := completes_pure _
  cancel := completes_pure _
  note _ := completes_pure _

end Callers

section Tally

variable {F : Type} [Field F] [LinearOrder F] {n : ℕ}

def Tally.Sound (q : Quadratic F n) (tally : Tally F n) : Prop :=
  tally.best.value = q.value tally.best.point.get ∧
    tally.best.gradient.get = q.gradient tally.best.point.get

theorem Tally.Sound.add [Exact F] {q : Quadratic F n} {tally : Tally F n} (sound : tally.Sound q)
    {point gradient : Vector F n} {value : F} (exactly : value = q.value point.get)
    (known : gradient.get = q.gradient point.get) : (tally.add point value gradient).Sound q := by
  rw [Sound, Tally.add]
  dsimp only
  split
  · exact ⟨exactly, known⟩
  · exact sound

theorem Tally.add_value_le [Exact F] (tally : Tally F n) (point : Vector F n) (value : F)
    (gradient : Vector F n) : (tally.add point value gradient).best.value ≤ value := by
  rw [Tally.add]
  dsimp only
  split
  · exact le_refl value
  · next higher => exact not_lt.mp higher

variable [IsStrictOrderedRing F] {scale : F} {center : Fin n → F} {positive : 0 < scale}
variable {tally : Tally F n}

theorem Tally.Sound.nonneg (sound : tally.Sound (.around scale center positive)) :
    0 ≤ tally.best.value := by
  rw [sound.1, Quadratic.around_value]
  exact mul_nonneg positive.le (Finset.sum_nonneg fun i _ => mul_self_nonneg _)

theorem Tally.Sound.centered (sound : tally.Sound (.around scale center positive))
    (low : tally.best.value ≤ 0) :
    tally.best.value = 0 ∧ tally.best.point.get = center ∧ tally.best.gradient.get = 0 := by
  have none : tally.best.value = 0 := le_antisymm low sound.nonneg
  have value := sound.1
  rw [none, Quadratic.around_value, zero_eq_mul, or_iff_right positive.ne',
    dotProduct_self_eq_zero, sub_eq_zero] at value
  refine ⟨none, value, ?_⟩
  rw [sound.2, Quadratic.around_gradient, value, sub_self, smul_zero]

end Tally

namespace Minimization

variable {m : Type → Type} [Monad m] [MonadExceptOf Fault m] {World : Type} [Execution m World]
variable {F : Type} [Field F] [LinearOrder F] [Exact F] [Limited F] {n : ℕ}
variable {caller : Caller m F n} {settings : Settings F} {x : Vector F n}
variable {before after : Journal F n × World} {iteration done : ℕ} {state left : State F n}

theorem check_patient {kernels : Kernels F n} (patient : caller.Patient)
    (bounded : ¬ (state.tally.best.value == -Unbounded.infinity) = true)
    {termination? : Option Termination}
    (checks : Returns (check kernels settings caller.recorded done state) before
      (termination?, left) after) :
    ∃ asked, Journal.evaluations asked.1 = Journal.evaluations before.1 ∧
      Returns (confirm kernels settings caller.recorded state) asked left after ∧
      termination? = verdict? kernels settings left := by
  rcases check_returns checks with ⟨polls, _⟩ | ⟨polled, asked, stop, polls, asks, ends⟩
  · have unset := patient.isCancelled _ _ _ (Caller.returns_record.mp polls).1
    exact nomatch unset
  · have goesOn := patient.shouldStop _ _ _ _ _ _ (Caller.returns_record.mp asks).1
    have same : Journal.evaluations asked.1 = Journal.evaluations before.1 :=
      (Caller.evaluations_of_shouldStop asks).trans (Caller.evaluations_of_isCancelled polls)
    rcases ends with ⟨stopped, _⟩ | ⟨_, bottom, _⟩ | ⟨_, _, confirms, named⟩
    · exact nomatch stopped.symm.trans goesOn
    · exact absurd bottom bounded
    · exact ⟨asked, same, confirms, named⟩

variable {q : Quadratic F n}

theorem start_begun (evaluates : caller.Evaluates q) (below : q.value x.get < Unbounded.infinity)
    (starts : Returns (start (.serial F n) settings caller.recorded x) before state after) :
    Begun q settings state ∧ state.x = x ∧
      ∃ first, first.point = x ∧
        Journal.evaluations after.1 = Journal.evaluations before.1 ++ [first] := by
  have tracks := start_tracks evaluates starts
  obtain ⟨value, gradient, answered, rfl⟩ := start_returns starts
  obtain ⟨exactly, _⟩ := evaluates.recorded answered
  have downward : ((Kernels.serial F n).update (.scale (-1)) gradient).get = -gradient.get := by
    rw [serial_scale, neg_one_smul]
  have taken : ((Tally.create x).add x value gradient).best = ⟨x, gradient, value⟩ :=
    if_pos (exactly ▸ below)
  refine ⟨⟨tracks, rfl, rfl, ?_, rfl, downward, ?_, rfl, taken⟩, rfl, _, rfl,
    Caller.evaluations_of_evaluate answered⟩
  · exact congrArg (fun best : Best F n => [best.value]) taken
  · change Scalar.sqrt _ = _
    rw [serial_normSquared, downward, neg_dotProduct_neg]
    rfl

variable [IsStrictOrderedRing F]

theorem bounded_of_nonneg {value : F} (nonneg : 0 ≤ value)
    (proper : (0 : F) < Unbounded.infinity) : ¬ (value == -Unbounded.infinity) = true := by
  intro bottom
  have same : value = -Unbounded.infinity := beq_iff_eq.mp bottom
  exact absurd nonneg (same ▸ not_le.mpr (neg_neg_of_pos proper))

theorem verdict?_begun (begun : Begun q settings state)
    (steep : toleranceSquared settings state < state.gradient.get ⬝ᵥ state.gradient.get) :
    verdict? (.serial F n) settings state = none := by
  have length : state.directionNormSquared = state.gradient.get ⬝ᵥ state.gradient.get := by
    have measured : state.directionNormSquared = state.direction.get ⬝ᵥ state.direction.get :=
      begun.tracks.normed
    rw [measured, begun.direction, neg_dotProduct_neg]
  have sloped : state.gradient.get ⬝ᵥ state.gradient.get ≠ 0 :=
    ((mul_self_nonneg _).trans_lt steep).ne'
  unfold verdict?
  rw [if_neg fun met => absurd met.2.2 (by rw [serial_normSquared]; exact not_le.mpr steep),
    if_neg (by rw [length]; exact Exact.isZero_iff.not.mpr sloped), begun.since,
    if_neg (Nat.not_lt_zero _)]

variable {scale : F} {center : Fin n → F} {positive : 0 < scale}

theorem check_begun (patient : caller.Patient)
    (begun : Begun (.around scale center positive) settings state)
    (below : state.value < Unbounded.infinity)
    (steep : toleranceSquared settings state < state.gradient.get ⬝ᵥ state.gradient.get)
    {termination? : Option Termination}
    (checks : Returns (check (.serial F n) settings caller.recorded done state) before
      (termination?, left) after) :
    termination? = none ∧ left = state ∧
      Journal.evaluations after.1 = Journal.evaluations before.1 := by
  have nonneg : 0 ≤ state.value := by
    rw [begun.value_eq]
    exact div_nonneg (Finset.sum_nonneg fun i _ => mul_self_nonneg _) (by positivity)
  have first : state.tally.best.value = state.value := congrArg Best.value begun.tally.2
  obtain ⟨asked, same, confirms, rfl⟩ := check_patient patient
    (first ▸ bounded_of_nonneg nonneg (nonneg.trans_lt below)) checks
  rcases confirm_returns confirms with ⟨fitted, _⟩ | ⟨_, rfl, rfl⟩
  · exact nomatch begun.real.symm.trans fitted
  · exact ⟨verdict?_begun begun steep, rfl, same⟩

theorem check_centered (patient : caller.Patient)
    (evaluates : caller.Evaluates (.around scale center positive))
    (centered : Centered center state) (sound : state.tally.Sound (.around scale center positive))
    (proper : (0 : F) < Unbounded.infinity) {termination? : Option Termination}
    (checks : Returns (check (.serial F n) settings caller.recorded done state) before
      (termination?, left) after) :
    termination? = some .converged ∧ left.real = true ∧
      left.tally.Sound (.around scale center positive) ∧ left.tally.best.value ≤ 0 ∧
      left.tally.evaluations = state.tally.evaluations + 1 ∧
      ∃ last, last.point = state.x ∧
        Journal.evaluations after.1 = Journal.evaluations before.1 ++ [last] := by
  have level : (Kernels.serial F n).normSquared state.gradient ≤
      toleranceSquared settings state := by
    rw [serial_normSquared, centered.gradient, zero_dotProduct]
    exact mul_self_nonneg _
  obtain ⟨asked, same, confirms, rfl⟩ :=
    check_patient patient (bounded_of_nonneg sound.nonneg proper) checks
  rcases confirm_returns confirms with ⟨_, _, evaluated⟩ | ⟨certain, _⟩
  · obtain ⟨value, gradient, answered, rfl⟩ := evaluateIterate_returns evaluated
    obtain ⟨exactly, known⟩ := evaluates.recorded answered
    have sounder := sound.add exactly known
    rw [centered.x, Quadratic.around_value, sub_self, zero_dotProduct, mul_zero] at exactly
    rw [centered.x, Quadratic.around_gradient, sub_self, smul_zero] at known
    refine ⟨?_, rfl, sounder, exactly ▸ Tally.add_value_le _ _ _ _, rfl,
      ⟨state.x, value, gradient⟩, rfl, ?_⟩
    · refine verdict?_eq_converged_iff.mpr ⟨rfl, exactly.trans_le sounder.nonneg, ?_⟩
      rw [serial_normSquared, known, zero_dotProduct]
      exact mul_self_nonneg _
    · rw [← same]
      exact Caller.evaluations_of_evaluate answered
  · exact absurd ⟨centered.real, level⟩ certain

variable [Rooted F]

/-- The first iteration probes once and leaves for the center. -/
theorem iterate_begun (begun : Begun (.around scale center positive) settings state)
    (evaluates : caller.Evaluates (.around scale center positive))
    (sloped : state.gradient.get ≠ 0) (below : state.value < Unbounded.infinity)
    (reaches : settings.Reaches scale)
    (ran : Returns (iterate (.serial F n) settings caller.recorded iteration state) before left
      after) :
    Centered center left ∧ ∃ point value gradient,
      point.get = state.x.get + settings.firstStep • state.direction.get ∧
      value = (Quadratic.around scale center positive).value point.get ∧
      gradient.get = (Quadratic.around scale center positive).gradient point.get ∧
      left.tally = state.tally.add point value gradient ∧
      Journal.evaluations after.1 = Journal.evaluations before.1 ++ [⟨point, value, gradient⟩] := by
  have descends := begun.tracks.descends sloped
  have stepping : state.probeStep settings = (settings.firstStep, state) := by
    have early : ¬ settings.tuning.randomizeAfter ≤ state.sinceImprovement := by
      rw [begun.since]
      exact reaches.patience.not_ge
    have useful : 0 < settings.firstStep ∧ isFinite settings.firstStep = true :=
      ⟨reaches.forward, rfl⟩
    simp only [State.probeStep, if_neg early, begun.step, if_pos useful]
  obtain ⟨slope?, turned, middle, downs, rest⟩ := iterate_returns ran
  rcases downhill_returns downs with ⟨_, rfl, rfl, rfl⟩ | ⟨flat, _⟩
  · rcases rest with ⟨impossible, _⟩ |
      ⟨slope, step, stepped, probed, trail, next, same, chosen, probes, rest⟩
    · exact nomatch impossible
    · obtain rfl := Option.some.inj same
      obtain ⟨rfl, rfl⟩ := Prod.mk.inj (stepping.symm.trans chosen)
      obtain ⟨sampled, known, _⟩ := probe_quadratic evaluates begun.tracks probes
      obtain ⟨value, gradient, answered, marked, tallied, _⟩ := probe_returns probes
      have found := begun.fit?_eq sloped below reaches trail.tally sampled known
      rcases rest with ⟨fit, fits, moves⟩ | ⟨none, _⟩
      · obtain rfl := Option.some.inj (fits.symm.trans found)
        obtain ⟨rfl, noted⟩ := move_returns moves
        obtain ⟨centered, same⟩ := begun.lands trail.tally trail.line probed.sample
          (congrArg Sample.step sampled) reaches.forward.ne' known
        obtain ⟨exactly, gradientKnown⟩ := evaluates.recorded answered
        refine ⟨centered, _, value, gradient, serial_addScaled _ _ _, exactly, gradientKnown,
          same.trans tallied, ?_⟩
        rw [← Caller.evaluations_of_evaluate answered]
        rcases noted with ⟨_, rfl⟩ | ⟨_, _, notes⟩
        · rfl
        · exact Caller.evaluations_of_note notes
      · exact nomatch none.symm.trans found
  · exact absurd descends flat

/-- A run ends at the center after one iteration. -/
theorem runs_begun (patient : caller.Patient)
    (evaluates : caller.Evaluates (.around scale center positive))
    (begun : Begun (.around scale center positive) settings state)
    (below : state.value < Unbounded.infinity)
    (steep : toleranceSquared settings state < state.gradient.get ⬝ᵥ state.gradient.get)
    (reaches : settings.Reaches scale) (goesOn : 0 < settings.maxIterations) {ended : Ended F n}
    (runs : Runs (.serial F n) settings caller.recorded 0 state before ended after) :
    ended.iterations = 1 ∧ ended.termination = .converged ∧ ended.state.real = true ∧
      ended.state.tally.Sound (.around scale center positive) ∧
      ended.state.tally.best.value ≤ 0 ∧ ended.state.tally.evaluations = 3 ∧
      ∃ probed last, probed.point.get = state.x.get + settings.firstStep • state.direction.get ∧
        last.point.get = center ∧
        Journal.evaluations after.1 = Journal.evaluations before.1 ++ [probed, last] := by
  have sloped : state.gradient.get ≠ 0 := by
    intro flat
    rw [flat, zero_dotProduct] at steep
    exact absurd steep (not_lt.mpr (mul_self_nonneg _))
  have starting : state.tally.Sound (.around scale center positive) := by
    rw [Tally.Sound, begun.tally.2]
    exact ⟨begun.tracks.value, begun.tracks.gradient⟩
  have proper : (0 : F) < Unbounded.infinity := by
    have low := starting.nonneg
    rw [begun.tally.2] at low
    exact low.trans_lt below
  rcases runs_cases runs with ⟨none, ends⟩ | ⟨next, world, pass, rest⟩
  · rcases ends with checks | ⟨_, _, capped, _⟩
    · have goes := (check_begun patient begun below steep checks).1
      exact absurd goes (Option.some_ne_none _)
    · exact absurd (none ▸ goesOn) capped
  · obtain ⟨checked, asked, checks, iterated, _, iterates, notes⟩ := pass
    obtain ⟨_, rfl, opened⟩ := check_begun patient begun below steep checks
    obtain ⟨centered, point, value, gradient, place, exactly, known, tallied, probed⟩ :=
      iterate_begun begun evaluates sloped below reaches iterates
    have sound : next.tally.Sound (.around scale center positive) := by
      rw [tallied]
      exact starting.add exactly known
    have written : Journal.evaluations world.1 =
        Journal.evaluations before.1 ++ [⟨point, value, gradient⟩] := by
      rw [Caller.evaluations_of_note notes, probed, opened]
    have two : next.tally.evaluations = 2 := by
      rw [tallied, Tally.add, begun.tally.1]
    rcases runs_cases rest with ⟨one, ends⟩ | ⟨_, _, ⟨_, _, checks, _⟩, _⟩
    · rcases ends with checks | ⟨_, checks, _⟩
      · obtain ⟨converged, real, sounder, low, counted, last, final, more⟩ :=
          check_centered patient evaluates centered sound proper checks
        refine ⟨one, Option.some.inj converged, real, sounder, low, by rw [counted, two],
          ⟨point, value, gradient⟩, last, place, final ▸ centered.x, ?_⟩
        rw [more, written, List.append_assoc]
        rfl
      · have stops := (check_centered patient evaluates centered sound proper checks).1
        exact absurd stops.symm (Option.some_ne_none _)
    · have stops := (check_centered patient evaluates centered sound proper checks).1
      exact absurd stops.symm (Option.some_ne_none _)

/-- What a minimization answers, and where it has evaluated. -/
theorem minimize_around [LawfulMonad m] {runner : Runner} {center : Vector F n}
    (patient : caller.Patient) (evaluates : caller.Evaluates (.around scale center.get positive))
    (below : (Quadratic.around scale center.get positive).value x.get < Unbounded.infinity)
    {initial : Fin n → F}
    (known : initial = (Quadratic.around scale center.get positive).gradient x.get)
    (steep : (settings.gradientTolerance * max 1 (sqrt (initial ⬝ᵥ initial))) ^ 2 <
      initial ⬝ᵥ initial)
    (reaches : settings.Reaches scale) (goesOn : 0 < settings.maxIterations)
    {answer : Vector F n × Report F}
    (ran : Returns (minimize settings runner caller.recorded x) before answer after) :
    answer =
        (center,
          { status := .success
            termination := .converged
            value := 0
            gradientNorm := 0
            iterations := 1
            evaluations := 3 }) ∧
      (Journal.evaluations after.1).map Evaluation.point =
        (Journal.evaluations before.1).map Evaluation.point ++
          [x, Vector.ofFn (x.get - settings.firstStep • initial), center] := by
  obtain ⟨threads, started, opened, ended, closed, starts, runs, concludes⟩ :=
    minimize_returns ran
  rw [Kernels.shared_eq_serial settings.threads runner threads] at starts runs concludes
  obtain ⟨begun, rfl, first, place, evaluated⟩ := start_begun evaluates below starts
  have gradient : started.gradient.get = initial := begun.tracks.gradient.trans known.symm
  have value : started.value < Unbounded.infinity := begun.tracks.value.trans_lt below
  have steeper : toleranceSquared settings started <
      started.gradient.get ⬝ᵥ started.gradient.get := by
    rw [toleranceSquared, begun.norm, gradient, Exact.maxNum_eq, ← sq]
    exact steep
  obtain ⟨one, converged, real, sound, low, three, probed, last, reached, final, written⟩ :=
    runs_begun patient evaluates begun value steeper reaches goesOn runs
  obtain ⟨none, central, level⟩ := sound.centered low
  obtain ⟨_, _, termination, kept, judged, rfl⟩ := conclude_returns concludes
  rcases kept with ⟨_, rfl, rfl⟩ | ⟨fitted, _⟩
  · rcases judged with ⟨_, rfl, rfl⟩ | ⟨infinite, _⟩
    · have point : ended.state.tally.best.point = center := entries_injective central
      have norm := calc
        sqrt ((Kernels.serial F n).normSquared ended.state.tally.best.gradient) = sqrt (0 * 0) := by
          rw [serial_normSquared, level, zero_dotProduct, mul_zero]
        _ = |0| := Rooted.sqrt_mul_self 0
        _ = 0 := abs_zero
      have probe : probed.point = Vector.ofFn (started.x.get - settings.firstStep • initial) := by
        apply entries_injective
        rw [reached, begun.direction, gradient, smul_neg, ← sub_eq_add_neg]
        exact funext fun i => (Vector.getElem_ofFn i.2).symm
      have arrived : last.point = center := entries_injective final
      constructor
      · rw [point, none, norm, one, three, converged]
        rfl
      · rw [written, evaluated, List.map_append, List.map_append, List.append_assoc, ← probe,
          ← place, ← arrived]
        rfl
    · exact nomatch infinite
  · exact nomatch real.symm.trans fitted

/-- Where the gradient exceeds the tolerance, one iteration with one probe leads from any start to
the center. -/
theorem minimize_paraboloid (settings : Settings F) (tuned : settings.tuning = .standard)
    (runner : Runner) (scale : F) (center x : Vector F n) (forward : 0 < settings.firstStep)
    (near : 1 / (2 * settings.tuning.maxFitExtrapolation) ≤ scale * settings.firstStep)
    (short : scale * settings.firstStep ≤ 1)
    (steep : (settings.gradientTolerance *
        max 1 (sqrt ((paraboloid scale center x).2.get ⬝ᵥ (paraboloid scale center x).2.get))) ^ 2 <
      (paraboloid scale center x).2.get ⬝ᵥ (paraboloid scale center x).2.get)
    (goesOn : 0 < settings.maxIterations) (threads : 0 < settings.threads)
    (room : settings.Addressable)
    (below : (paraboloid scale center x).1 < Unbounded.infinity) :
    let report : Report F :=
      { status := .success
        termination := .converged
        value := 0
        gradientNorm := 0
        iterations := 1
        evaluations := 3 }
    let caller : Caller (Except Fault) F n := .ofFunction (paraboloid scale center)
    minimize settings runner caller x = .ok (center, report) ∧
      ∃ journal, (minimize settings runner caller.recorded x).run [] =
          .ok ((center, report), journal) ∧
        journal.evaluations.map Evaluation.point =
          [x, Vector.ofFn (x.get - settings.firstStep • (paraboloid scale center x).2.get),
            center] := by
  intro report caller
  obtain ⟨positive, reaches⟩ := Settings.Reaches.of_standard tuned forward short near
  have evaluates : caller.Evaluates (.around scale center.get positive) := by
    intro y before answer after ran
    rw [(returns_pure.mp ran).1]
    exact paraboloid_eq positive center y
  have completes : Completes (minimize settings runner caller x) :=
    minimize_completes (Caller.ofFunction_responds _) threads room
  have mirrors : Mirrors (minimize settings runner caller.recorded x)
      (minimize settings runner caller x) := minimize_mirrors
  obtain ⟨answer, _, ran⟩ := completes ()
  obtain ⟨journal, recorded⟩ := (mirrors [] () answer ()).mp ran
  have start : (paraboloid scale center x).2.get =
      (Quadratic.around scale center.get positive).gradient x.get := by
    rw [paraboloid_eq positive]
    exact funext fun i => Vector.getElem_ofFn i.2
  rw [paraboloid_eq positive] at below
  obtain ⟨rfl, points⟩ := minimize_around (Caller.ofFunction_patient _) evaluates below start steep
    reaches goesOn recorded
  exact ⟨ran, journal, recorded, points⟩

/-- A first step that goes half the way to the center. -/
theorem minimize_paraboloid_halfway :
    let settings : Settings Fraction :=
      { Settings.standard with firstStep := 1 / 4, gradientTolerance := 1 / 10 }
    let report : Report Fraction :=
      { status := .success
        termination := .converged
        value := 0
        gradientNorm := 0
        iterations := 1
        evaluations := 3 }
    let caller : Caller (Except Fault) Fraction 2 := .ofFunction (paraboloid 1 #v[1, 2])
    minimize settings .inOrder caller #v[4, 6] = .ok (#v[1, 2], report) ∧
      ∃ journal, (minimize settings .inOrder caller.recorded #v[4, 6]).run [] =
          .ok ((#v[1, 2], report), journal) ∧
        journal.evaluations.map Evaluation.point = [#v[4, 6], #v[5 / 2, 4], #v[1, 2]] := by
  intro settings report caller
  have forward : 0 < settings.firstStep := by decide +kernel
  have near : 1 / (2 * settings.tuning.maxFitExtrapolation) ≤ 1 * settings.firstStep := by
    decide +kernel
  have short : 1 * settings.firstStep ≤ 1 := by decide +kernel
  have gradient : (paraboloid (1 : Fraction) #v[1, 2] #v[4, 6]).2 = #v[6, 8] := by decide +kernel
  have below : (paraboloid (1 : Fraction) #v[1, 2] #v[4, 6]).1 < Unbounded.infinity := by
    decide +kernel
  have room : settings.Addressable := ⟨rfl, rfl⟩
  have probe : Vector.ofFn ((#v[4, 6] : Vector Fraction 2).get -
      settings.firstStep • (#v[6, 8] : Vector Fraction 2).get) = #v[5 / 2, 4] := by
    decide +kernel
  have result := minimize_paraboloid settings rfl .inOrder 1 #v[1, 2] #v[4, 6] forward near short
    (by decide +kernel) (by decide) (by decide) room below
  rw [gradient, probe] at result
  exact result

end Minimization

end Descent

import Descent.Proofs.Quadratic
import Descent.Proofs.Position

/-!
Where a minimization of a quadratic function is heading. Of its state only the iterate, the
direction and the counts of scheduled restarts matter for that, whatever step guess, jitter,
tally or record of recent values stands beside them. A move to the minimum of the line keeps the
directions conjugate, with whichever sample of the line as a reference.
-/

namespace Descent

open Matrix Scalar

structure Heading (F : Type) (n : Nat) where
  x : Vector F n
  value : F
  gradient : Vector F n
  direction : Vector F n
  directionNormSquared : F
  runLength : F
  sinceReset : Nat

def State.heading {F : Type} {n : Nat} (state : State F n) : Heading F n where
  x := state.x
  value := state.value
  gradient := state.gradient
  direction := state.direction
  directionNormSquared := state.directionNormSquared
  runLength := state.runLength
  sinceReset := state.sinceReset

namespace State

variable {F : Type} [Scalar F] {n : Nat} (kernels : Kernels F n) (settings : Settings F)
variable (state : State F n)

theorem turn_restarts {beta : F} (useless : ¬ 0 < beta) :
    ∃ runLength, (state.turn kernels settings beta).state =
      State.restart kernels { state with runLength } := by
  unfold turn
  dsimp only
  rw [if_pos (Or.inr (Or.inl useless))]
  split
  · exact ⟨_, rfl⟩
  · exact ⟨state.runLength, rfl⟩

theorem turn_conjugates {beta : F} (early : ¬ state.runLength ≤ (state.sinceReset : F))
    (positive : 0 < beta) (finite : isFinite beta = true)
    (descends : (state.conjugate kernels beta).slope kernels < 0) :
    (state.turn kernels settings beta).state = state.conjugate kernels beta := by
  have useful : ¬ (decide (state.runLength ≤ (state.sinceReset : F)) = true ∨ ¬ 0 < beta ∨
      ¬ isFinite beta = true) := by
    simp [early, positive, finite]
  unfold turn
  dsimp only
  rw [if_neg useful, if_pos descends]

theorem trustedFit?_eq_some {start probe : Sample F} {probeGradient : Vector F n} {fit : Fit F}
    (found : state.trustedFit? kernels settings start probe probeGradient = some fit) :
    start.fitMinimizer probe = some fit.step ∧ fit.value = start.hermiteValue probe fit.step := by
  unfold trustedFit? at found
  dsimp only at found
  split at found
  · cases found
  · next fitted minimum =>
    split at found
    · cases found
    · split at found
      · cases found
      · split at found
        · cases found
        · cases found
          exact ⟨minimum, rfl⟩

end State

theorem Sample.make_eq {F : Type} [Field F] [LinearOrder F] [Exact F] [Limited F]
    (step value slope : F) : Sample.make step value slope = ⟨step, value, slope⟩ := by
  rw [make, Exact.isNaN_eq]
  rfl

/-! The record of a line. -/

namespace Record

variable {F : Type} {n : Nat}

def entries (record : Record F n) : List (Marked F n) := record.best :: record.second.toList

variable [Scalar F] {record : Record F n}

theorem entries_add {sample : Sample F} {gradient : Vector F n} :
    ∀ entry ∈ (record.add sample gradient).entries,
      entry = ⟨sample, gradient⟩ ∨ entry ∈ record.entries := by
  intro entry member
  unfold add at member
  split at member
  · rcases List.mem_cons.mp member with rfl | older
    · exact Or.inl rfl
    · rw [List.mem_singleton.mp older]
      exact Or.inr List.mem_cons_self
  · split at member
    · rcases List.mem_cons.mp member with rfl | newer
      · exact Or.inr List.mem_cons_self
      · exact Or.inl (List.mem_singleton.mp newer)
    · exact Or.inr member

theorem reference_mem {target : F} {marked : Marked F n}
    (found : record.reference target = some marked) :
    marked ∈ record.entries ∧ marked.sample.sameStep target = false := by
  unfold reference at found
  split at found
  · obtain ⟨second, differs⟩ := Option.filter_eq_some_iff.mp found
    exact ⟨List.mem_cons_of_mem _ (Option.mem_toList.mpr second), by simpa using differs⟩
  · next differs =>
    cases found
    exact ⟨List.mem_cons_self, by simpa using differs⟩

end Record

section Reference

variable {F : Type} [Field F] [LinearOrder F] [IsStrictOrderedRing F] [Exact F] [Rooted F]

theorem Sample.sameStep_self (sample : Sample F) : sample.sameStep sample.step = true := by
  have bound : 0 ≤ Scalar.sqrt (Scalar.epsilon : F) *
      maxNum (Scalar.abs sample.step) (Scalar.abs sample.step) := by
    rw [Exact.maxNum_eq, max_self]
    exact mul_nonneg (Rooted.sqrt_nonneg _) (abs_nonneg _)
  rw [sameStep, sub_self, Exact.abs_eq, abs_zero]
  exact decide_eq_true bound

theorem Record.reference_probed {n : Nat} {start : Sample F} {gradient : Vector F n}
    {probe marked : Marked F n} {target : F}
    (found : ((Record.create start gradient).add probe.sample probe.gradient).reference target =
      some marked) :
    marked.sample.step ≠ target ∧ (marked = probe ∨ marked = ⟨start, gradient⟩) := by
  obtain ⟨member, differs⟩ := reference_mem found
  constructor
  · rintro rfl
    rw [Sample.sameStep_self] at differs
    exact nomatch differs
  · rcases entries_add marked member with same | older
    · exact Or.inl same
    · exact Or.inr (List.mem_singleton.mp older)

end Reference

/-! Headings on a quadratic function. -/

section Quadratic

variable {F : Type} [Field F] [LinearOrder F] [IsStrictOrderedRing F] {n : Nat}

/-- The iterate has its true value and gradient, the direction is conjugate to those before it,
and there was no restart while there was a gradient left. -/
structure Tracks (q : Quadratic F n) (runLength : ℕ) (past : List (Leg F n))
    (heading : Heading F n) : Prop where
  value : heading.value = q.value heading.x.get
  gradient : heading.gradient.get = q.gradient heading.x.get
  normed : heading.directionNormSquared = heading.direction.get ⬝ᵥ heading.direction.get
  steep : heading.gradient.get ⬝ᵥ heading.direction.get =
    -(heading.gradient.get ⬝ᵥ heading.gradient.get)
  rests : heading.gradient.get = 0 → heading.direction.get = 0
  counted : heading.gradient.get ≠ 0 →
    heading.sinceReset = past.length ∧ heading.runLength = (runLength : F)
  conjugating : Conjugating q.hessian past heading.gradient.get heading.direction.get
  orthogonal : past.Pairwise fun leg earlier => leg.gradient ⬝ᵥ earlier.gradient = 0
  nonzero : ∀ leg ∈ past, leg.gradient ≠ 0

def Heading.sampleAt (heading : Heading F n) (q : Quadratic F n) (step : F) : Sample F :=
  .ofParabola heading.value (heading.gradient.get ⬝ᵥ heading.direction.get)
    (heading.direction.get ⬝ᵥ q.hessian *ᵥ heading.direction.get) step

variable {q : Quadratic F n} {runLength : ℕ} {past : List (Leg F n)}

theorem Tracks.length_le {heading : Heading F n} (tracks : Tracks q runLength past heading) :
    past.length ≤ n := by
  have bound := length_le_of_orthogonal (List.pairwise_map.mpr tracks.orthogonal)
    (List.forall_mem_map.mpr tracks.nonzero)
  rwa [List.length_map] at bound

omit [IsStrictOrderedRing F] in
theorem Tracks.sloped {heading : Heading F n} (tracks : Tracks q runLength past heading)
    (moving : heading.directionNormSquared ≠ 0) : heading.gradient.get ≠ 0 := by
  intro flat
  rw [tracks.normed, tracks.rests flat, zero_dotProduct] at moving
  exact moving rfl

theorem Tracks.turned {heading : Heading F n} (tracks : Tracks q runLength past heading)
    (sloped : heading.gradient.get ≠ 0) : heading.direction.get ≠ 0 := by
  intro still
  have square := dotProduct_self_pos sloped
  have steep := tracks.steep
  rw [still, dotProduct_zero] at steep
  linarith

theorem Tracks.sampleAt_eq {heading : Heading F n} (tracks : Tracks q runLength past heading)
    (step : F) :
    heading.sampleAt q step =
      { step
        value := q.value (heading.x.get + step • heading.direction.get)
        slope := q.gradient (heading.x.get + step • heading.direction.get) ⬝ᵥ
          heading.direction.get } := by
  rw [q.value_line, q.slope_line, Heading.sampleAt, Sample.ofParabola, tracks.value,
    tracks.gradient]

omit [IsStrictOrderedRing F] in
/-- The weight of the old direction does not depend on the reference. -/
theorem weight_quadratic {difference : Fin n → F} {span : F} (apart : span ≠ 0)
    (direction gradient : Fin n → F)
    (change : difference = span • q.hessian *ᵥ direction) :
    gradient ⬝ᵥ difference / (direction ⬝ᵥ difference) =
      gradient ⬝ᵥ q.hessian *ᵥ direction / (direction ⬝ᵥ q.hessian *ᵥ direction) := by
  rw [change, dotProduct_smul, dotProduct_smul, smul_eq_mul, smul_eq_mul,
    mul_div_mul_left _ _ apart]

/-- What a move to the minimum of a line leaves before the direction is turned with a weight. -/
structure Arrives (q : Quadratic F n) (runLength : ℕ) (past : List (Leg F n)) (beta : F)
    (heading : Heading F n) : Prop where
  value : heading.value = q.value heading.x.get
  gradient : heading.gradient.get = q.gradient heading.x.get
  counted : heading.sinceReset = past.length ∧ heading.runLength = (runLength : F)
  level : heading.gradient.get ⬝ᵥ heading.direction.get = 0
  weighs : (heading.gradient.get = 0 ∧ beta = 0) ∨ (heading.gradient.get ≠ 0 ∧ 0 < beta)
  conjugating : Conjugating q.hessian past heading.gradient.get
    (beta • heading.direction.get - heading.gradient.get)
  orthogonal : past.Pairwise fun leg earlier => leg.gradient ⬝ᵥ earlier.gradient = 0
  nonzero : ∀ leg ∈ past, leg.gradient ≠ 0

variable {beta : F}

theorem Arrives.length_lt {heading : Heading F n} (arrives : Arrives q runLength past beta heading)
    (sloped : heading.gradient.get ≠ 0) : past.length < n := by
  have orthogonal : (heading.gradient.get :: past.map Leg.gradient).Pairwise
      fun u v => u ⬝ᵥ v = 0 :=
    List.pairwise_cons.mpr ⟨List.forall_mem_map.mpr arrives.conjugating.orthogonal,
      List.pairwise_map.mpr arrives.orthogonal⟩
  have nonzero : ∀ v ∈ heading.gradient.get :: past.map Leg.gradient, v ≠ 0 :=
    List.forall_mem_cons.mpr ⟨sloped, List.forall_mem_map.mpr arrives.nonzero⟩
  have bound := length_le_of_orthogonal orthogonal nonzero
  rwa [List.length_cons, List.length_map] at bound

variable [Exact F] {settings : Settings F} {state : State F n} {line : Record F n}
variable {target : State.Move F n}

theorem Tracks.descends (tracks : Tracks q runLength past state.heading)
    (sloped : state.gradient.get ≠ 0) : state.slope (Kernels.serial F n) < 0 := by
  have steep : state.gradient.get ⬝ᵥ state.direction.get =
      -(state.gradient.get ⬝ᵥ state.gradient.get) := tracks.steep
  rw [State.slope, serial_dot, steep]
  exact neg_lt_zero.mpr (dotProduct_self_pos sloped)

omit [IsStrictOrderedRing F] in
/-- Whichever reference there is, the gradient changes along the Hessian's image of the
direction. -/
theorem change_quadratic (tracks : Tracks q runLength past state.heading)
    (moved : target.step ≠ 0)
    (gradient : target.gradient.get =
      q.gradient (state.x.get + target.step • state.direction.get))
    (references : ∀ marked, line.reference target.step = some marked →
      marked.sample.step ≠ target.step ∧ marked.gradient.get =
        q.gradient (state.x.get + marked.sample.step • state.direction.get)) :
    ∃ span : F, span ≠ 0 ∧ (state.change (Kernels.serial F n) line target).1.get =
      span • q.hessian *ᵥ state.direction.get := by
  unfold State.change
  cases found : line.reference target.step with
  | none =>
    refine ⟨target.step, moved, ?_⟩
    have start : state.gradient.get = q.gradient state.x.get := tracks.gradient
    dsimp only
    rw [serial_addScaled, gradient, start, q.gradient_line]
    module
  | some marked =>
    obtain ⟨apart, known⟩ := references marked found
    refine ⟨target.step - marked.sample.step, sub_ne_zero.mpr apart.symm, ?_⟩
    dsimp only
    rw [serial_addScaled, gradient, known, q.gradient_line, q.gradient_line]
    module

omit [IsStrictOrderedRing F] in
theorem advance_heading (kernels : Kernels F n) :
    (state.advance kernels settings line target).state.heading =
      (State.turn kernels settings
        { state with
          x := kernels.update (.addScaled state.direction target.step) state.x
          gradient := target.gradient
          value := target.value
          real := target.real
          sinceReset := state.sinceReset + 1 }
        (kernels.dot target.gradient (state.change kernels line target).1 /
          kernels.dot state.direction (state.change kernels line target).1)).state.heading := rfl

/-- The fit through the start and a probe is the minimum of the line. -/
theorem trustedFit?_quadratic [Rooted F] (tracks : Tracks q runLength past state.heading)
    (turned : state.direction.get ≠ 0) {step : F} {probeGradient : Vector F n}
    {fit : State.Fit F}
    (found : state.trustedFit? (Kernels.serial F n) settings (state.heading.sampleAt q 0)
      (state.heading.sampleAt q step) probeGradient = some fit) :
    step ≠ 0 ∧
      fit.step = state.gradient.get ⬝ᵥ state.gradient.get /
        (state.direction.get ⬝ᵥ q.hessian *ᵥ state.direction.get) ∧
      fit.value = q.value (state.x.get + fit.step • state.direction.get) := by
  have value : state.value = q.value state.x.get := tracks.value
  have gradient : state.gradient.get = q.gradient state.x.get := tracks.gradient
  have steep : state.gradient.get ⬝ᵥ state.direction.get =
      -(state.gradient.get ⬝ᵥ state.gradient.get) := tracks.steep
  have line : state.heading.sampleAt q =
      .ofParabola state.value (state.gradient.get ⬝ᵥ state.direction.get)
        (state.direction.get ⬝ᵥ q.hessian *ᵥ state.direction.get) := rfl
  rw [line] at found
  obtain ⟨minimum, predicted⟩ := state.trustedFit?_eq_some _ settings found
  obtain ⟨moved, target⟩ := fitMinimizer_parabola (q.positive _ turned) minimum
  refine ⟨moved, ?_, ?_⟩
  · rw [target, steep, neg_neg]
  · rw [predicted, hermiteValue_parabola moved, q.value_line, value, gradient]

omit [IsStrictOrderedRing F] in
theorem interpolatedGradient_quadratic (tracks : Tracks q runLength past state.heading)
    {probe : Sample F} {probeGradient : Vector F n} (moved : probe.step ≠ 0)
    (known : probeGradient.get =
      q.gradient (state.x.get + probe.step • state.direction.get)) (step : F) :
    (state.interpolatedGradient (Kernels.serial F n) probe probeGradient step).get =
      q.gradient (state.x.get + step • state.direction.get) := by
  have gradient : state.gradient.get = q.gradient state.x.get := tracks.gradient
  have share : step / probe.step * probe.step = step := div_mul_cancel₀ step moved
  unfold State.interpolatedGradient
  dsimp only
  rw [serial_addTwoScaled, zeros_get, known, gradient, q.gradient_line, q.gradient_line]
  conv_rhs => rw [← share]
  module

omit [IsStrictOrderedRing F] in
theorem conjugate_direction (beta : F) :
    (state.conjugate (Kernels.serial F n) beta).direction.get =
      beta • state.direction.get - state.gradient.get := by
  unfold State.conjugate
  dsimp only
  rw [serial_addScaled, serial_scale]
  module

omit [IsStrictOrderedRing F] in
theorem Arrives.turn_flat (arrives : Arrives q settings.noResetRunLength past beta state.heading)
    (flat : state.gradient.get = 0) (none : beta = 0) :
    Tracks q settings.noResetRunLength past
      (state.turn (Kernels.serial F n) settings beta).state.heading := by
  obtain ⟨runLength, restarts⟩ := state.turn_restarts (Kernels.serial F n) settings
    (not_lt_of_ge none.le)
  have still : (state.restart (Kernels.serial F n)).direction.get = 0 := by
    unfold State.restart
    dsimp only
    rw [serial_scale, flat, smul_zero]
  have conjugating : Conjugating q.hessian past state.gradient.get
      (state.restart (Kernels.serial F n)).direction.get := by
    have turned : Conjugating q.hessian past state.gradient.get
        (beta • state.direction.get - state.gradient.get) := arrives.conjugating
    have nowhere : beta • state.direction.get - state.gradient.get = 0 := by
      rw [none, flat, zero_smul, sub_zero]
    rw [nowhere] at turned
    rwa [still]
  rw [restarts]
  exact {
    value := arrives.value
    gradient := arrives.gradient
    normed := serial_normSquared _
    steep := by
      change state.gradient.get ⬝ᵥ _ = -(state.gradient.get ⬝ᵥ state.gradient.get)
      rw [flat, zero_dotProduct, zero_dotProduct, neg_zero]
    rests := fun _ => still
    counted := fun sloped => absurd flat sloped
    conjugating := conjugating
    orthogonal := arrives.orthogonal
    nonzero := arrives.nonzero }

theorem Arrives.turn_sloped (arrives : Arrives q settings.noResetRunLength past beta state.heading)
    (enough : n ≤ settings.noResetRunLength) (sloped : state.gradient.get ≠ 0)
    (positive : 0 < beta) :
    Tracks q settings.noResetRunLength past
      (state.turn (Kernels.serial F n) settings beta).state.heading := by
  have level : state.gradient.get ⬝ᵥ state.direction.get = 0 := arrives.level
  have turned : Tracks q settings.noResetRunLength past
      (state.conjugate (Kernels.serial F n) beta).heading := {
    value := arrives.value
    gradient := arrives.gradient
    normed := serial_normSquared _
    steep := by
      change state.gradient.get ⬝ᵥ (state.conjugate (Kernels.serial F n) beta).direction.get =
        -(state.gradient.get ⬝ᵥ state.gradient.get)
      rw [conjugate_direction, dotProduct_sub, dotProduct_smul, level, smul_zero, zero_sub]
    rests := fun flat => absurd flat sloped
    counted := fun _ => arrives.counted
    conjugating := by
      have turned : Conjugating q.hessian past state.gradient.get
          (beta • state.direction.get - state.gradient.get) := arrives.conjugating
      rwa [← conjugate_direction] at turned
    orthogonal := arrives.orthogonal
    nonzero := arrives.nonzero }
  have early : ¬ state.runLength ≤ (state.sinceReset : F) := by
    have fewer := (arrives.length_lt sloped).trans_le enough
    obtain ⟨count, length⟩ : state.sinceReset = past.length ∧
      state.runLength = (settings.noResetRunLength : F) := arrives.counted
    rw [count, length, not_le]
    exact Nat.cast_lt.mpr fewer
  rw [state.turn_conjugates (Kernels.serial F n) settings early positive rfl
    (turned.descends sloped)]
  exact turned

theorem Arrives.turn (arrives : Arrives q settings.noResetRunLength past beta state.heading)
    (enough : n ≤ settings.noResetRunLength) :
    Tracks q settings.noResetRunLength past
      (state.turn (Kernels.serial F n) settings beta).state.heading := by
  rcases arrives.weighs with ⟨flat, none⟩ | ⟨sloped, positive⟩
  · exact arrives.turn_flat flat none
  · exact arrives.turn_sloped enough sloped positive

/-- A move to the minimum of the line stays on track. -/
theorem Tracks.advance (tracks : Tracks q settings.noResetRunLength past state.heading)
    (sloped : state.gradient.get ≠ 0) (enough : n ≤ settings.noResetRunLength)
    (minimum : target.step = state.gradient.get ⬝ᵥ state.gradient.get /
      (state.direction.get ⬝ᵥ q.hessian *ᵥ state.direction.get))
    (value : target.value = q.value (state.x.get + target.step • state.direction.get))
    (gradient : target.gradient.get =
      q.gradient (state.x.get + target.step • state.direction.get))
    (references : ∀ marked, line.reference target.step = some marked →
      marked.sample.step ≠ target.step ∧ marked.gradient.get =
        q.gradient (state.x.get + marked.sample.step • state.direction.get)) :
    Tracks q settings.noResetRunLength (⟨state.gradient.get, state.direction.get⟩ :: past)
      (state.advance (Kernels.serial F n) settings line target).state.heading := by
  have known : state.gradient.get = q.gradient state.x.get := tracks.gradient
  have steep : state.gradient.get ⬝ᵥ state.direction.get =
      -(state.gradient.get ⬝ᵥ state.gradient.get) := tracks.steep
  have conjugating : Conjugating q.hessian past state.gradient.get state.direction.get :=
    tracks.conjugating
  have square : 0 < state.gradient.get ⬝ᵥ state.gradient.get := dotProduct_self_pos sloped
  have curved : 0 < state.direction.get ⬝ᵥ q.hessian *ᵥ state.direction.get :=
    q.positive _ (tracks.turned sloped)
  have forward : 0 < target.step := by
    rw [minimum]
    exact div_pos square curved
  have moved : target.gradient.get =
      state.gradient.get + target.step • q.hessian *ᵥ state.direction.get := by
    rw [gradient, q.gradient_line, known]
  have level := Conjugating.level_of_minimum curved.ne' steep minimum
  have onward := conjugating.onward q.symmetric forward.ne' level
    (div_mul_cancel₀ _ curved.ne')
  have weighs := Conjugating.step_mul_weight curved.ne' steep minimum q.symmetric
    conjugating forward.ne'
  rw [← moved] at level onward weighs
  obtain ⟨span, apart, change⟩ := change_quadratic tracks forward.ne' gradient references
  rw [advance_heading, serial_dot, serial_dot, weight_quadratic apart _ _ change]
  apply Arrives.turn _ enough
  have place : ((Kernels.serial F n).update (.addScaled state.direction target.step) state.x).get =
      state.x.get + target.step • state.direction.get := serial_addScaled _ _ _
  exact {
    value := value.trans (congrArg q.value place.symm)
    gradient := gradient.trans (congrArg q.gradient place.symm)
    counted := by
      obtain ⟨count, length⟩ := tracks.counted sloped
      exact ⟨congrArg (· + 1) count, length⟩
    level := level
    weighs := by
      by_cases flat : target.gradient.get = 0
      · exact Or.inl ⟨flat, by rw [flat, zero_dotProduct, zero_div]⟩
      · have left := dotProduct_self_pos flat
        rw [← weighs] at left
        exact Or.inr ⟨flat, div_pos ((mul_pos_iff_of_pos_left forward).mp left) curved⟩
    conjugating := onward
    orthogonal := List.pairwise_cons.mpr ⟨conjugating.orthogonal, tracks.orthogonal⟩
    nonzero := List.forall_mem_cons.mpr ⟨sloped, tracks.nonzero⟩ }

end Quadratic

end Descent

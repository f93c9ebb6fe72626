import Descent.Proofs.Leap
import Descent.Proofs.Outward

/-!
Where a move turns to. Over exact numbers the weight of the old direction is chosen so that the new
one is orthogonal to the change of the gradient since a reference sample; unless this leads down,
the direction is that of steepest descent. The guess for the next line is not longer than the
last move by more than the growth that is allowed, unless it is the first step.
-/

namespace Descent

open Matrix Scalar Execution

theorem Settings.Accepted.bounds {F : Type} [Field F] [LinearOrder F] [IsStrictOrderedRing F]
    [Exact F] {settings : Settings F} (accepted : settings.Accepted) :
    1 < settings.tuning.maxStepGrowth ∧ settings.tuning.fitInterior ≤ 1 := by
  have standard : (1 : F) < ((8 : Nat) : F) ∧ (0.9 : F) ≤ 1 := by norm_num
  refine accepted.keeps (fun _ _ tuning => 1 < tuning.maxStepGrowth ∧ tuning.fitInterior ≤ 1)
    standard ?_ ?_ ?_
  · exact fun _ kept => kept
  · exact fun _ kept => kept
  · intro _ _ _ next checked _
    obtain ⟨grows, interior, _⟩ := Tuning.bounds_of_check checked
    exact ⟨grows, interior⟩

/-! What a move is compared with. -/

section Reference

variable {F : Type} [Field F] [LinearOrder F] [Exact F] {n : Nat}

/-- The gradient and the step that a move is compared with: those of the best recorded sample that
is not at the step of the move, or those of the start. -/
inductive Record.Refers (line : Record F n) (start : Vector F n) (step : F) :
    Vector F n → F → Prop
  | recorded (marked : Marked F n) (member : marked ∈ line.entries)
      (apart : marked.sample.sameStep step = false)
      (best : ∀ entry ∈ line.entries, entry.sample.sameStep step = false →
        entry.sample.isBetterThan marked.sample = false) :
      line.Refers start step marked.gradient marked.sample.step
  | start (occupied : ∀ entry ∈ line.entries, entry.sample.sameStep step = true) :
      line.Refers start step start 0

theorem Record.reference_none {line : Record F n} {step : F}
    (missing : line.reference step = none) :
    ∀ entry ∈ line.entries, entry.sample.sameStep step = true := by
  intro entry member
  unfold Record.reference at missing
  split at missing
  · next occupied =>
    rcases List.mem_cons.mp member with rfl | later
    · exact occupied
    · have rejected := Option.filter_eq_none_iff.mp missing entry (Option.mem_toList.mp later)
      rwa [Bool.not_eq_true', Bool.not_eq_false] at rejected
  · exact nomatch missing

theorem State.change_refers [IsStrictOrderedRing F] [Rooted F] {origin : Marked F n}
    {state : State F n} {line : Record F n} {target : State.Move F n}
    (follows : line.Follows origin) (ahead : 0 < target.step) :
    ∃ reference place, line.Refers state.gradient target.step reference place ∧
      (state.change (.serial F n) line target).1.get = target.gradient.get - reference.get ∧
      (state.change (.serial F n) line target).2 = target.step - place ∧
      target.step - place ≠ 0 := by
  have difference (v : Vector F n) :
      ((Kernels.serial F n).update (.addScaled v (-1)) target.gradient).get =
        target.gradient.get - v.get := by
    rw [serial_addScaled, neg_one_smul, sub_eq_add_neg]
  unfold State.change
  cases found : line.reference target.step with
  | none =>
    refine ⟨state.gradient, 0, .start (Record.reference_none found), difference _, ?_, ?_⟩
    · exact (sub_zero _).symm
    · rw [sub_zero]
      exact ahead.ne'
  | some marked =>
    obtain ⟨member, apart⟩ := Record.reference_mem found
    refine ⟨marked.gradient, marked.sample.step,
      .recorded marked member apart (follows.reference_best found), difference _, rfl, ?_⟩
    intro level
    rw [sub_eq_zero.mp level, Sample.sameStep_self] at apart
    exact nomatch apart

end Reference

namespace State

section Turn

variable {F : Type} [Field F] [LinearOrder F] [Exact F] {n : Nat} (settings : Settings F)
variable (state : State F n)

def movedBy (kernels : Kernels F n) (target : Move F n) : State F n :=
  { state with
    x := state.pointAt kernels target.step
    gradient := target.gradient
    value := target.value
    real := target.real
    sinceReset := state.sinceReset + 1 }

def weight (kernels : Kernels F n) (line : Record F n) (target : Move F n) : F :=
  kernels.dot target.gradient (state.change kernels line target).1 /
    kernels.dot state.direction (state.change kernels line target).1

theorem advance_eq (kernels : Kernels F n) (line : Record F n) (target : Move F n) :
    ∃ slope curvature,
      let turned := ((state.movedBy kernels target).turn kernels settings
        (state.weight kernels line target)).state
      (state.advance kernels settings line target).state =
        noteProgress settings
          { turned with
            step := turned.guess settings slope curvature
              (|target.step| * Scalar.sqrt state.directionNormSquared) } :=
  ⟨_, _, rfl⟩

/-- The new direction is that of steepest descent, or conjugate and downhill. -/
theorem turn_heads (beta : F) :
    let turned := (state.turn (.serial F n) settings beta).state
    (turned.direction.get = -state.gradient.get ∧ turned.sinceReset = 0) ∨
      (0 < beta ∧ turned.direction.get = beta • state.direction.get - state.gradient.get ∧
        state.gradient.get ⬝ᵥ turned.direction.get < 0) := by
  intro turned
  unfold turned turn
  dsimp only
  split
  · -- a scheduled restart, or a weight that is of no use
    refine .inl ⟨?_, rfl⟩
    rw [restart_direction]
    split <;> rfl
  · next useful =>
    simp only [not_or, not_not] at useful
    split
    · next descends =>
      rw [slope, serial_dot] at descends
      exact .inr ⟨useful.2.1, conjugate_direction beta, descends⟩
    · -- the conjugate direction does not lead down
      exact .inl ⟨restart_direction _, rfl⟩

end Turn

section Guess

variable {F : Type} [Field F] [LinearOrder F] [IsStrictOrderedRing F] [Exact F] [Rooted F]
variable {n : Nat} {settings : Settings F}

/-- The guess reaches no further than the growth allows, or it is the first step. -/
theorem guess_bounds (state : State F n) (slope curvature : F) {length : F}
    (positive : 0 < settings.firstStep)
    (allowed : 0 ≤ settings.tuning.maxStepGrowth * length) :
    0 < state.guess settings slope curvature length ∧
      (state.guess settings slope curvature length = settings.firstStep ∨
        state.guess settings slope curvature length * Scalar.sqrt state.directionNormSquared ≤
          settings.tuning.maxStepGrowth * length) := by
  have root : 0 ≤ Scalar.sqrt state.directionNormSquared := Rooted.sqrt_nonneg _
  unfold guess
  dsimp only
  -- whatever the curvature asks for, the limit is applied to it
  generalize (if 0 < curvature then _ else _ : F) = wanted
  set limit := settings.tuning.maxStepGrowth * length / Scalar.sqrt state.directionNormSquared
    with limited
  have within : (if wanted ≤ limit then wanted else limit) ≤ limit := by
    split
    · next less => exact less
    · exact le_rfl
  have reach : limit * Scalar.sqrt state.directionNormSquared ≤
      settings.tuning.maxStepGrowth * length := by
    rcases root.eq_or_lt with zero | further
    · -- a direction without length, where the quotient means nothing
      rw [← zero, mul_zero]
      exact allowed
    · rw [limited, div_mul_cancel₀ _ further.ne']
  generalize (if wanted ≤ limit then wanted else limit) = chosen at within ⊢
  split
  · next ahead => exact ⟨ahead, .inr ((mul_le_mul_of_nonneg_right within root).trans reach)⟩
  · exact ⟨positive, .inl rfl⟩

end Guess

end State

namespace Minimization

/-- What a move over such a step leaves, with the gradient of the reference. -/
structure Turned {F : Type} [Field F] [LinearOrder F] [Exact F] {n : Nat} (settings : Settings F)
    (start next : State F n) (step : F) (reference : Fin n → F) : Prop where
  heading :
    (next.direction.get = -next.gradient.get ∧ next.sinceReset = 0) ∨
      (next.gradient.get ⬝ᵥ next.direction.get < 0 ∧
        next.direction.get ⬝ᵥ (next.gradient.get - reference) = 0)
  norm : next.directionNormSquared = next.direction.get ⬝ᵥ next.direction.get
  forward : 0 < next.step
  guess : next.step = settings.firstStep ∨
    next.step * Scalar.sqrt (next.direction.get ⬝ᵥ next.direction.get) ≤
      settings.tuning.maxStepGrowth *
        (step * Scalar.sqrt (start.direction.get ⬝ᵥ start.direction.get))

section Advance

variable {F : Type} [Field F] [LinearOrder F] [Exact F] {n : Nat} {settings : Settings F}
variable {state : State F n}

/-- Orthogonal to a change: the weight is the one that takes the old direction there. -/
theorem conjugate_of_weight {g d change : Fin n → F} {beta : F}
    (weighs : beta = g ⬝ᵥ change / (d ⬝ᵥ change)) (useful : 0 < beta) :
    (beta • d - g) ⬝ᵥ change = 0 := by
  -- otherwise the quotient would be zero, and the weight of no use
  have nonzero : d ⬝ᵥ change ≠ 0 := by
    intro zero
    rw [weighs, zero, div_zero] at useful
    exact lt_irrefl _ useful
  rw [sub_dotProduct, smul_dotProduct, smul_eq_mul, weighs, div_mul_cancel₀ _ nonzero, sub_self]

theorem turn_turns {line : Record F n} {target : State.Move F n} {reference : Fin n → F}
    (differs : (state.change (.serial F n) line target).1.get = target.gradient.get - reference) :
    let turned := ((state.movedBy (.serial F n) target).turn (.serial F n) settings
      (state.weight (.serial F n) line target)).state
    turned.Measured ∧
      ((turned.direction.get = -turned.gradient.get ∧ turned.sinceReset = 0) ∨
        (turned.gradient.get ⬝ᵥ turned.direction.get < 0 ∧
          turned.direction.get ⬝ᵥ (turned.gradient.get - reference) = 0)) := by
  intro turned
  have gradient : turned.gradient = target.gradient :=
    congrArg Position.gradient (State.turn_position _ _ _ _)
  refine ⟨State.turn_measured _ _, ?_⟩
  rw [gradient]
  rcases State.turn_heads settings (state.movedBy (.serial F n) target)
      (state.weight (.serial F n) line target) with steepest | ⟨useful, conjugate, descends⟩
  · exact .inl steepest
  · have weighs : state.weight (.serial F n) line target =
        target.gradient.get ⬝ᵥ (target.gradient.get - reference) /
          (state.direction.get ⬝ᵥ (target.gradient.get - reference)) := by
      rw [State.weight, serial_dot, serial_dot, differs]
    have orthogonal := conjugate_of_weight weighs useful
    refine .inr ⟨descends, ?_⟩
    rw [← orthogonal]
    exact congrArg (· ⬝ᵥ _) conjugate

variable [IsStrictOrderedRing F] [Rooted F]

theorem advance_turned (measured : state.Measured) (positive : 0 < settings.firstStep)
    (grows : 0 ≤ settings.tuning.maxStepGrowth) {line : Record F n} {target : State.Move F n}
    {reference : Fin n → F} (ahead : 0 < target.step)
    (differs : (state.change (.serial F n) line target).1.get = target.gradient.get - reference) :
    Turned settings state (state.advance (.serial F n) settings line target).state target.step
      reference := by
  obtain ⟨measures, heads⟩ := turn_turns differs
  obtain ⟨slope, curvature, same⟩ := state.advance_eq settings (.serial F n) line target
  dsimp only at same
  rw [abs_of_pos ahead, measured] at same
  rw [same]
  -- what the turn did is known by now
  generalize ((state.movedBy (.serial F n) target).turn (.serial F n) settings
    (state.weight (.serial F n) line target)).state = turned at measures heads ⊢
  obtain ⟨forward, guess⟩ := turned.guess_bounds slope curvature positive (mul_nonneg grows
    (mul_nonneg ahead.le (Rooted.sqrt_nonneg (state.direction.get ⬝ᵥ state.direction.get))))
  rw [measures] at guess
  exact ⟨heads, measures, forward, guess⟩

end Advance

/-! Whole iterations. -/

section Runs

variable {m : Type → Type} [Monad m] [MonadExceptOf Fault m] {World : Type} [Execution m World]
variable {F : Type} [Field F] [LinearOrder F] [Exact F] [Limited F] {n : Nat}
variable {settings : Settings F} {caller : Caller m F n} {before after : World} {iteration : Nat}
variable {state left : State F n}

theorem settle_measured {probe : Marked F n} {bestBefore : F} {keep : Bool}
    (measured : state.Measured)
    (settles : Returns (settle (.serial F n) caller iteration state probe bestBefore) before
      (keep, left) after) : left.Measured := by
  rcases settle_returns settles with ⟨_, _, rfl, _⟩ | ⟨_, evaluated, _, evaluates, ends⟩
  · exact measured
  · obtain ⟨_, _, _, rfl⟩ := evaluateIterate_returns evaluates
    rcases ends with ⟨_, _, rfl, _⟩ | ⟨_, _, rfl, _⟩
    · exact measured
    · exact State.restart_measured _

theorem searchSlope_measured {keep kept : Bool} {slope : F} (measured : state.Measured)
    (turns : Returns (searchSlope (.serial F n) caller iteration state keep) before
      (kept, some slope, left) after) : left.Measured := by
  rcases searchSlope_returns turns with ⟨_, _, _, _, rfl, _⟩ | ⟨_, _, turns⟩
  · exact measured
  · exact (downhill_slope measured turns).2.1

variable [IsStrictOrderedRing F] [Euclidean F]

/-- A move goes forwards from a state that carries the norm of its direction, and what was
recorded on the line is its start or lies behind it. -/
theorem stride_follows {line : Record F n} {target : State.Move F n}
    (positive : 0 < settings.firstStep) (grows : 1 < settings.tuning.maxStepGrowth)
    (interior : settings.tuning.fitInterior ≤ 1) (measured : state.Measured)
    (strides : Returns (stride (.serial F n) settings caller iteration state) before
      (.moves left line target) after) :
    left.Measured ∧ 0 < target.step ∧ ∃ origin, line.Follows origin := by
  rcases stride_moves strides with ⟨view, fit, plans, rfl, rfl, rfl⟩ |
    ⟨start, slope, kept, step, _, plans, lands⟩
  · obtain ⟨looks, found⟩ := plan_leap plans
    obtain ⟨_, forward⟩ := look_downhill positive looks
    obtain ⟨_, _, _, _, _, _, _, leaves⟩ := look_leaves measured looks
    obtain ⟨ahead, _⟩ := State.trustedFit?_trusts (fit?_trusted found).2
    refine ⟨leaves.measured, ahead, ?_⟩
    -- a leap records its start and the probe
    obtain ⟨turned, _, jitter, trail, _, _, probes, _, line, _⟩ := look_probed looks
    obtain ⟨_, _, _, marked, _, recorded⟩ := probe_returns probes
    have behind : 0 < view.probe.sample.step := by
      rw [marked]
      exact forward
    rw [line, recorded]
    exact ⟨_, (Record.create_follows _ _).add behind _⟩
  · have descends := plan_downhill plans
    obtain ⟨view, _, keep, settled, _, kept', looks, settles, turns, known, rfl⟩ :=
      plan_explore plans
    obtain ⟨_, forward⟩ := look_downhill positive looks
    obtain ⟨_, _, _, _, _, _, _, leaves⟩ := look_leaves measured looks
    -- a search takes over the probe of the line, if any
    have ahead : ∀ probe ∈ kept, 0 < probe.sample.step := by
      rw [known]
      split
      · rintro probe ⟨⟩
        rw [leaves.probe]
        exact forward
      · exact nofun
    have carried : start.Measured :=
      searchSlope_measured (settle_measured leaves.measured settles) turns
    obtain ⟨tally, rfl, follows, further⟩ :=
      land_follows interior grows forward descends ahead lands
    exact ⟨carried, further, _, follows⟩

end Runs

section Turning

variable {m : Type → Type} [Monad m] [MonadExceptOf Fault m] {World : Type} [Execution m World]
variable {F : Type} [Field F] [LinearOrder F] [IsStrictOrderedRing F] [Exact F] [Euclidean F]
variable [Limited F] {n : Nat}

/-- Every state that an iteration starts from carries the norm of its direction, and every move
that the iteration makes goes forwards and turns. -/
theorem move_turns [LawfulMonad m] (settings : Settings F) (accepted : settings.Accepted)
    (runner : Runner) (caller : Caller m F n) (x : Vector F n) (before : World) (done : Nat)
    (state : State F n) (reached : World)
    (visits : Visits settings runner caller x before done state reached) :
    let kernels := Kernels.shared F n settings.threads runner
    state.Measured ∧
    ∀ checked moved line target next asked planned after,
      Returns (check kernels settings caller done state) reached (none, checked) asked →
      Returns (stride kernels settings caller (done + 1) checked) asked
        (.moves moved line target) planned →
      Returns (iterate kernels settings caller (done + 1) checked) asked next after →
      next = (moved.advance kernels settings line target).state ∧
      0 < target.step ∧
      next.x.get = moved.x.get + target.step • moved.direction.get ∧
      moved.Measured ∧
      ∃ reference place, line.Refers moved.gradient target.step reference place ∧
        (moved.change kernels line target).2 = target.step - place ∧
        target.step - place ≠ 0 ∧
        Turned settings moved next target.step reference.get := by
  intro kernels
  obtain ⟨measured, noted⟩ := visits_carried visits
  refine ⟨measured, ?_⟩
  intro checked moved line target next asked planned after checks strides iterates
  have serial : kernels = .serial F n := Kernels.shared_eq_serial settings.threads runner visits.1
  rw [serial] at checks strides iterates ⊢
  obtain ⟨grows, interior⟩ := accepted.bounds
  obtain ⟨measured, _⟩ := check_carried measured noted checks
  obtain ⟨carried, ahead, origin, follows⟩ :=
    stride_follows accepted.firstStep_pos grows interior measured strides
  obtain ⟨reference, place, refers, differs, span, nonzero⟩ := State.change_refers follows ahead
  obtain rfl := iterate_moves strides iterates
  have position := moved.advance_position (.serial F n) settings line target
  have reaches := (congrArg (fun position => position.x.get) position).trans
    (serial_addScaled _ _ _)
  have turned := advance_turned carried accepted.firstStep_pos (zero_le_one.trans grows.le) ahead
    differs
  exact ⟨rfl, ahead, reaches, carried, reference, place, refers, span, nonzero, turned⟩

end Turning

/-! A leap across the oval, over real numbers. -/

namespace Oval

section Pairs

variable (r a b c d : ℝ)

theorem pair_dot : (Kernels.serial ℝ 2).dot #v[a, b] #v[c, d] = a * c + b * d := by
  rw [serial_dot, dotProduct, Fin.sum_univ_two]
  rfl

theorem pair_normSquared : (Kernels.serial ℝ 2).normSquared #v[a, b] = a * a + b * b := by
  rw [serial_normSquared, dotProduct, Fin.sum_univ_two]
  rfl

theorem pair_scale : (Kernels.serial ℝ 2).update (.scale r) #v[a, b] = #v[a * r, b * r] := rfl

theorem pair_addScaled :
    (Kernels.serial ℝ 2).update (.addScaled #v[c, d] r) #v[a, b] = #v[a + r * c, b + r * d] := rfl

end Pairs

noncomputable def begun : State ℝ 2 where
  tally := ⟨1, ⟨#v[(2 : Nat), 1], #v[(2 : Nat), (2 : Nat)], (3 : Nat)⟩⟩
  jitter := .ofSeed 0x5eedc0de
  x := #v[(2 : Nat), 1]
  gradient := #v[(2 : Nat), (2 : Nat)]
  value := (3 : Nat)
  real := true
  direction := #v[-(2 : Nat), -(2 : Nat)]
  directionNormSquared := (8 : Nat)
  step := 1
  initialGradientNorm := Scalar.sqrt (8 : Nat)
  runLength := (20 : Nat)
  sinceReset := 0
  recentBests := [(3 : Nat)]
  sinceImprovement := 0

noncomputable def view : Probed ℝ 2 where
  state := { begun with tally := ⟨2, ⟨#v[0, -1], #v[0, -(2 : Nat)], 1⟩⟩ }
  slope := -(8 : Nat)
  step := 1
  probe := ⟨⟨1, 1, (4 : Nat)⟩, #v[0, -(2 : Nat)]⟩
  line := (Record.create ⟨0, begun.value, -((8 : Nat) : ℝ)⟩ begun.gradient).add
    ⟨1, 1, (4 : Nat)⟩ #v[0, -(2 : Nat)]
  bestBefore := (3 : Nat)

theorem evaluate_eq (u v : ℝ) :
    ovalCaller.evaluate #v[u, v] = .ok (u ^ 2 / 2 + v ^ 2, #v[u, 2 * v]) := by
  have first : #v[u, v].get ⟨0, Nat.zero_lt_two⟩ = u := rfl
  have second : #v[u, v].get ⟨1, Nat.one_lt_two⟩ = v := rfl
  refine congrArg Except.ok ?_
  simp only [oval, first, second, two, Nat.cast_ofNat, sq]

theorem evaluate_start : ovalCaller.evaluate #v[2, 1] = .ok ((3 : ℝ), #v[2, 2]) := by
  rw [evaluate_eq]
  norm_num

theorem evaluate_probe : ovalCaller.evaluate #v[0, -1] = .ok ((1 : ℝ), #v[0, -2]) := by
  rw [evaluate_eq]
  norm_num

theorem fitMinimizer_eq :
    (⟨0, 3, -8⟩ : Sample ℝ).fitMinimizer ⟨1, 1, 4⟩ = some (2 / 3) := by
  have root : Real.sqrt 36 = 6 := by
    rw [Real.sqrt_eq_iff_mul_self_eq] <;> norm_num
  have known : Exact.sqrt (36 : ℝ) = 6 := root
  have cubic : (⟨0, 3, -8⟩ : Sample ℝ).cubicMinimizer ⟨1, 1, 4⟩ = some (2 / 3) := by
    norm_num [Sample.cubicMinimizer, isZero, three, Scalar.sqrt, known, Scalar.isFinite]
  rw [Sample.fitMinimizer, cubic]
  rfl

variable [Limited ℝ]

theorem begins (high : (3 : ℝ) < Limited.infinity) (small : Limited.bytes ℝ = 8) :
    Returns (start (.serial ℝ 2) .standard ovalCaller #v[2, 1]) () begun () := by
  have room : reserve 11 (Unbounded.bytes ℝ) = .ok () := by
    change reserve 11 (Limited.bytes ℝ) = _
    rw [small]
    rfl
  have tallied : (Tally.create #v[2, 1]).add #v[2, 1] 3 #v[2, 2] = begun.tally :=
    congrArg (Tally.mk 1) (if_pos high)
  have created : begun =
      State.create (.serial ℝ 2) .standard #v[2, 1] 3 #v[2, 2] begun.tally := by
    rw [State.create, pair_scale, pair_normSquared]
    norm_num [begun, Settings.standard]
  refine returns_bind.mpr ⟨_, (), evaluate_start, ?_⟩
  refine returns_bind.mpr ⟨(), (), returns_ofExcept.mpr ⟨room, rfl⟩, ?_⟩
  rw [tallied]
  exact returns_pure.mpr ⟨created, rfl⟩

theorem goesOn (high : (3 : ℝ) < Limited.infinity) :
    Returns (check (.serial ℝ 2) .standard ovalCaller 0 begun) () (none, begun) () := by
  have verdict : verdict? (.serial ℝ 2) .standard begun = none := by
    have exactly : (Exact.epsilon : ℝ) = 0 := rfl
    norm_num [verdict?, begun, toleranceSquared, Settings.standard, pair_normSquared,
      Scalar.epsilon, exactly, isZero, Tuning.standard]
  have bounded : ¬ ((3 : ℝ) == -Limited.infinity) = true := by
    rw [beq_iff_eq]
    linarith
  refine (if_neg bounded).trans ?_
  exact congrArg (fun verdict => Except.ok (verdict, begun)) verdict

theorem looks :
    Returns (look (.serial ℝ 2) .standard ovalCaller 1 begun) () (.probed view) () := by
  have slope : begun.slope (.serial ℝ 2) = -8 := by
    refine (pair_dot _ _ _ _).trans ?_
    norm_num
  have turns : Returns (downhill (.serial ℝ 2) ovalCaller 1 begun) () (some (-8), begun) () := by
    rw [downhill, slope]
    exact if_pos (by norm_num)
  have stepping : begun.probeStep .standard = (1, begun) := by
    norm_num [State.probeStep, begun, Settings.standard, Tuning.standard, isFinite]
  have place : (Kernels.serial ℝ 2).update (.addScaled begun.direction 1) begun.x =
      #v[0, -1] := by
    refine (pair_addScaled _ _ _ _ _).trans ?_
    norm_num
  have along : (Kernels.serial ℝ 2).dot #v[0, -2] begun.direction = 4 := by
    refine (pair_dot _ _ _ _).trans ?_
    norm_num
  have tallied : begun.tally.add #v[0, -1] 1 #v[0, -2] = view.state.tally :=
    congrArg (Tally.mk 2) (if_pos (by norm_num [begun]))
  refine returns_bind.mpr ⟨_, (), turns, ?_⟩
  dsimp only [Engine.plain]
  rw [stepping, Sample.make_eq]
  refine returns_bind.mpr ⟨(view.probe, ⟨view.state.tally, view.line⟩), (), ?_, ?_⟩
  · rw [probe, place]
    refine returns_bind.mpr ⟨_, (), evaluate_probe, returns_pure.mpr ⟨?_, rfl⟩⟩
    dsimp only
    rw [along, Sample.make_eq, tallied]
    rfl
  · exact returns_pure.mpr ⟨rfl, rfl⟩

theorem fits (high : (3 : ℝ) < Limited.infinity) :
    fit? (.serial ℝ 2) .standard view.state view.slope view.probe = some ⟨2 / 3, 1 / 3⟩ := by
  have threshold : view.state.recentThreshold = 3 :=
    (Exact.minNum_eq _ _).trans (min_eq_right high.le)
  have predicted : (⟨0, 3, -8⟩ : Sample ℝ).hermiteValue ⟨1, 1, 4⟩ (2 / 3) = 1 / 3 := by
    norm_num [Sample.hermiteValue, two, three]
  have trusted : view.state.trustedFit? (.serial ℝ 2) .standard ⟨0, 3, -8⟩ ⟨1, 1, 4⟩ #v[0, -2] =
      some ⟨2 / 3, 1 / 3⟩ := by
    rw [State.trustedFit?, fitMinimizer_eq]
    norm_num [predicted, view, begun, pair_normSquared, pair_dot, Settings.standard,
      Tuning.standard, two]
  rw [fit?, threshold, Sample.make_eq]
  refine (if_pos ?_).trans trusted
  norm_num [view]

theorem moves (iteration : Nat) (state : State ℝ 2) (line : Record ℝ 2)
    (target : State.Move ℝ 2) :
    Returns (move (.serial ℝ 2) .standard ovalCaller iteration state line target) ()
      (state.advance (.serial ℝ 2) .standard line target).state () := by
  unfold move
  dsimp only
  split <;> exact rfl

end Oval

/-- The move ends at two thirds of the probe, and turns. -/
theorem move_turns_oval : (Settings.standard : Settings ℝ).Accepted ∧
    ∃ (_ : Limited ℝ) (state checked moved next : State ℝ 2) (line : Record ℝ 2)
      (target : State.Move ℝ 2),
      let kernels := Kernels.shared ℝ 2 1 .inOrder
      Visits .standard .inOrder ovalCaller #v[2, 1] () 0 state () ∧
      Returns (check kernels .standard ovalCaller 0 state) () (none, checked) () ∧
      Returns (stride kernels .standard ovalCaller 1 checked) () (.moves moved line target) () ∧
      Returns (iterate kernels .standard ovalCaller 1 checked) () next () ∧
      target.step = 2 / 3 ∧
      ∃ reference place, line.Refers moved.gradient (2 / 3) reference place ∧
        2 / 3 - place ≠ 0 ∧ Turned .standard moved next (2 / 3) reference.get := by
  let _ : Limited ℝ := ⟨8, 8⟩
  have high : (3 : ℝ) < Limited.infinity := by
    change (3 : ℝ) < 8
    norm_num
  have serial : Kernels.shared ℝ 2 1 .inOrder = .serial ℝ 2 :=
    Kernels.shared_eq_serial 1 .inOrder Nat.zero_lt_one
  have visits : Visits .standard .inOrder ovalCaller #v[2, 1] () 0 Oval.begun () := by
    refine ⟨Nat.zero_lt_one, Oval.begun, (), ?_, .refl _ _ _⟩
    change Returns (start (.shared ℝ 2 1 .inOrder) _ _ _) _ _ _
    rw [serial]
    exact Oval.begins high rfl
  have plans : Returns (plan (.serial ℝ 2) .standard ovalCaller 1 Oval.begun) ()
      (.leap Oval.view ⟨2 / 3, 1 / 3⟩) () := by
    refine returns_bind.mpr ⟨_, (), Oval.looks, ?_⟩
    dsimp only [Engine.decide, Engine.plain]
    rw [Oval.fits high]
    exact returns_pure.mpr ⟨rfl, rfl⟩
  let target := Oval.view.leap (.serial ℝ 2) ⟨2 / 3, 1 / 3⟩
  have lands : Returns
      (Plan.land (.serial ℝ 2) .standard ovalCaller 1 (.leap Oval.view ⟨2 / 3, 1 / 3⟩)) ()
      (.moves Oval.view.state Oval.view.line target) () := returns_pure.mpr ⟨rfl, rfl⟩
  have strides : Returns (stride (.serial ℝ 2) .standard ovalCaller 1 Oval.begun) ()
      (.moves Oval.view.state Oval.view.line target) () :=
    returns_bind.mpr ⟨_, (), plans, lands⟩
  have iterates := iterate_of_stages plans lands (Oval.moves 1 Oval.view.state Oval.view.line target)
  have accepted : (Settings.standard : Settings ℝ).Accepted := .standard
  have checks := Oval.goesOn high
  rw [← serial] at checks strides iterates
  obtain ⟨_, moves⟩ := move_turns .standard accepted .inOrder ovalCaller #v[2, 1] () 0 Oval.begun
    () visits
  obtain ⟨_, _, _, _, reference, place, refers, _, nonzero, turned⟩ :=
    moves _ _ _ _ _ _ _ _ checks strides iterates
  exact ⟨accepted, inferInstance, Oval.begun, Oval.begun, _, _, _, _, visits, checks, strides,
    iterates, rfl, reference, place, refers, nonzero, turned⟩

end Minimization

end Descent

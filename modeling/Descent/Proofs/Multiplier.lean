import Mathlib.Algebra.Order.Group.MinMax
import Mathlib.Tactic.Ring
import Descent.Penalty
import Descent.Proofs.Exact

/-!
Offsets as multipliers, over exact numbers and pure functions. An offset stays where it is if its
constraint is met and leaves no slack under it. Where all offsets stay, every active penalty is
that of the value zero, so the penalized gradient is that of a function with multipliers, which
are twice the offsets.
-/

namespace Descent

open Scalar

/-! A single offset. -/

namespace Comparison

variable {F : Type} [Field F] [LinearOrder F]

def Met (comparison : Comparison) (value : F) : Prop :=
  match comparison with
  | equal => value = 0
  | greaterThan => 0 ≤ value
  | lessThan => value ≤ 0

def Allows (comparison : Comparison) (offset : F) : Prop :=
  match comparison with
  | equal => True
  | greaterThan => 0 ≤ offset
  | lessThan => offset ≤ 0

/-- An inequality that is not met with equality has no offset or multiplier. -/
def Tight (comparison : Comparison) (value offset : F) : Prop :=
  comparison ≠ .equal → offset * value = 0

section Sign

variable [IsStrictOrderedRing F]

/-- An offset at zero is held there by every value that is not negative. One above zero is held
by the value zero only. -/
theorem max_sub_eq_iff {rate : F} (positive : 0 < rate) (value offset : F) (allowed : 0 ≤ offset) :
    max (offset - rate * value) 0 = offset ↔ 0 ≤ value ∧ offset * value = 0 := by
  constructor
  · intro stays
    rcases allowed.eq_or_lt with rfl | away
    · have moved : 0 - rate * value ≤ 0 := max_eq_right_iff.mp stays
      have met : 0 ≤ value := by
        rw [zero_sub, neg_nonpos] at moved
        exact nonneg_of_mul_nonneg_right moved positive
      exact ⟨met, zero_mul value⟩
    · have unmoved : offset - rate * value = offset := by
        rcases max_choice (offset - rate * value) 0 with first | second
        · rw [← first, stays]
        · exact absurd (second.symm.trans stays) away.ne
      have zero : value = 0 := by
        rw [sub_eq_self, mul_eq_zero] at unmoved
        exact unmoved.resolve_left positive.ne'
      rw [zero]
      exact ⟨le_rfl, mul_zero offset⟩
  · rintro ⟨met, tight⟩
    rcases mul_eq_zero.mp tight with rfl | rfl
    · rw [zero_sub, max_eq_right (neg_nonpos.mpr (mul_nonneg positive.le met))]
    · rw [mul_zero, sub_zero, max_eq_left allowed]

theorem min_sub_eq_iff {rate : F} (positive : 0 < rate) (value offset : F) (allowed : offset ≤ 0) :
    min (offset - rate * value) 0 = offset ↔ value ≤ 0 ∧ offset * value = 0 := by
  have mirrored := max_sub_eq_iff positive (-value) (-offset) (neg_nonneg.mpr allowed)
  have turned : max (-offset - rate * -value) 0 = -min (offset - rate * value) 0 := by
    rw [← max_neg_neg, neg_zero]
    ring_nf
  rw [turned, neg_inj, neg_nonneg, neg_mul_neg] at mirrored
  exact mirrored

variable {comparison : Comparison} {value offset rate : F}

theorem allows_two_mul (allowed : comparison.Allows offset) : comparison.Allows (2 * offset) := by
  cases comparison with
  | equal => trivial
  | greaterThan => exact mul_nonneg zero_le_two allowed
  | lessThan => exact mul_nonpos_of_nonneg_of_nonpos zero_le_two allowed

theorem tight_two_mul_iff :
    comparison.Tight value (2 * offset) ↔ comparison.Tight value offset := by
  apply imp_congr_right
  intro _
  rw [mul_assoc, mul_eq_zero, or_iff_right two_ne_zero]

end Sign

variable [Exact F] {comparison : Comparison} {value offset rate : F}

theorem violation_nonneg [IsStrictOrderedRing F] : 0 ≤ comparison.violation value := by
  cases comparison with
  | equal => exact abs_nonneg value
  | greaterThan | lessThan =>
    rw [violation, Exact.maxNum_eq]
    exact le_max_right _ _

theorem violation_eq_zero_iff [IsStrictOrderedRing F] :
    comparison.violation value = 0 ↔ comparison.Met value := by
  cases comparison with
  | equal => exact abs_eq_zero
  | greaterThan => rw [violation, Exact.maxNum_eq, max_eq_right_iff, neg_nonpos, Met]
  | lessThan => rw [violation, Exact.maxNum_eq, max_eq_right_iff, Met]

theorem clamp_eq_iff [IsStrictOrderedRing F] (positive : 0 < rate)
    (allowed : comparison.Allows offset) :
    comparison.clamp (offset - rate * value) = offset ↔
      comparison.Met value ∧ comparison.Tight value offset := by
  cases comparison with
  | equal => simp [clamp, Met, Tight, positive.ne']
  | greaterThan =>
    rw [clamp, Exact.maxNum_eq, max_sub_eq_iff positive value offset allowed]
    simp [Met, Tight]
  | lessThan =>
    rw [clamp, Exact.minNum_eq, min_sub_eq_iff positive value offset allowed]
    simp [Met, Tight]

/-- Where an offset stays, a penalty is that of the value zero; without a penalty there is no
offset either. -/
theorem shifted?_eq_neg (met : comparison.Met value) (tight : comparison.Tight value offset)
    (allowed : comparison.Allows offset) :
    (comparison.shifted? value offset).getD 0 = -offset := by
  cases comparison with
  | equal =>
    have zero : value = 0 := met
    simp [shifted?, isActive, zero]
  | greaterThan =>
    have least : 0 ≤ offset := allowed
    rcases mul_eq_zero.mp (tight (by simp)) with rfl | rfl
    · have idle : ¬ value < 0 := not_lt.mpr met
      simp [shifted?, isActive, idle]
    · rcases least.eq_or_lt with rfl | away
      · simp [shifted?, isActive]
      · simp [shifted?, isActive, away]
  | lessThan =>
    have most : offset ≤ 0 := allowed
    rcases mul_eq_zero.mp (tight (by simp)) with rfl | rfl
    · have idle : ¬ 0 < value := not_lt.mpr met
      simp [shifted?, isActive, idle]
    · rcases most.eq_or_lt with rfl | away
      · simp [shifted?, isActive]
      · simp [shifted?, isActive, away]

end Comparison

/-! Gradients. -/

section Gradients

variable {F : Type} [Field F] {n : ℕ}

def listed (parts : List (Fin n × F)) (i : Fin n) : F :=
  (parts.map fun part => if part.1 = i then part.2 else 0).sum

theorem foldl_listed (parts : List (Fin n × F)) (scale : F) (gradient : Vector F n) (i : Fin n) :
    (parts.foldl
      (fun gradient part =>
        gradient.set part.1 (gradient.get part.1 + scale * part.2) part.1.isLt)
      gradient).get i = gradient.get i + scale * listed parts i := by
  induction parts generalizing gradient with
  | nil => simp [listed]
  | cons part rest ih =>
    rw [List.foldl_cons, ih, get_set, listed, listed, List.map_cons, List.sum_cons, mul_add,
      ← add_assoc]
    congr 1
    by_cases mentioned : part.1 = i
    · subst mentioned
      rw [if_pos rfl, if_pos rfl]
    · rw [if_neg (Ne.symm mentioned), if_neg mentioned, mul_zero, add_zero]

variable [LinearOrder F] [Exact F]

def Linear.gradientAt (function : Linear (Fin n) F) : Fin n → F := listed function.terms

def quotient (f : Vector F n → F) (x : Vector F n) (i : Fin n) (step : F) : F :=
  (f (x.set i (x.get i + step) i.isLt) - f (x.set i (x.get i - step) i.isLt)) / (2 * step)

namespace Nonlinear

/-- The partial derivatives that the function writes, otherwise difference quotients. -/
def partialsAt (function : Nonlinear (Fin n) Id F n) (steps : Vector (Positive F) n)
    (x : Vector F n) : Vector F function.arity :=
  match (function.gradient x function.partials).run with
  | some partials => partials
  | none =>
      function.indices.map fun i => quotient (fun y => (function.value y).run) x i (steps.get i).1

def gradientAt (function : Nonlinear (Fin n) Id F n) (steps : Vector (Positive F) n)
    (x : Vector F n) : Fin n → F :=
  listed (function.indices.zip (function.partialsAt steps x)).toList

theorem derive_run (function : Nonlinear (Fin n) Id F n) (steps : Vector (Positive F) n)
    (x : Vector F n) : (function.derive steps x).run = function.partialsAt steps x := by
  have quotients (i : Fin n) : centralDifference function.value x i (steps.get i) =
      pure (quotient (fun y => (function.value y).run) x i (steps.get i).1) := by
    rw [quotient, mul_comm]
    rfl
  rw [derive, partialsAt, Id.run_bind]
  cases (function.gradient x function.partials).run with
  | some partials => rfl
  | none =>
    simp only [quotients, Vector.mapM_pure]
    rfl

end Nonlinear

def Constraint.gradientAt (constraint : Constraint (Fin n) Id F n) (steps : Vector (Positive F) n)
    (x : Vector F n) : Fin n → F :=
  match constraint.form with
  | .linear function => function.gradientAt
  | .nonlinear function => function.gradientAt steps x

variable {steps : Vector (Positive F) n} {x : Vector F n}

theorem Nonlinear.addGradient_get (function : Nonlinear (Fin n) Id F n) (scale : F)
    (gradient : Vector F n) (i : Fin n) :
    (function.addGradient steps x scale gradient).run.2.get i =
      gradient.get i + scale * function.gradientAt steps x i := by
  rw [gradientAt, ← derive_run, ← foldl_listed, Vector.foldl_toList]
  rfl

theorem Constraint.addGradient_get (constraint : Constraint (Fin n) Id F n) (scale : F)
    (gradient : Vector F n) (i : Fin n) :
    (constraint.addGradient steps x scale gradient).run.2.get i =
      gradient.get i + scale * constraint.gradientAt steps x i := by
  rw [addGradient, gradientAt]
  cases constraint.form with
  | linear function => exact foldl_listed function.terms scale gradient i
  | nonlinear function => exact function.addGradient_get scale gradient i

section Step

variable (constraint : Constraint (Fin n) Id F n) (rest : List (Constraint (Fin n) Id F n))
  (total : F) (gradient : Vector F n)

theorem penalize_idle (idle : constraint.shifted? (constraint.value x).run = none) :
    (Problem.penalize steps x (constraint :: rest) total gradient).run.2 =
      (Problem.penalize steps x rest total gradient).run.2 := by
  rw [Problem.penalize]
  simp [idle]

theorem penalize_active {shifted : F}
    (active : constraint.shifted? (constraint.value x).run = some shifted) :
    (Problem.penalize steps x (constraint :: rest) total gradient).run.2 =
      (Problem.penalize steps x rest (total + shifted * shifted)
        (constraint.addGradient steps x (shifted + shifted) gradient).run.2).run.2 := by
  rw [Problem.penalize]
  simp [active]

end Step

theorem penalize_gradient (constraints : List (Constraint (Fin n) Id F n)) (total : F)
    (gradient : Vector F n) (i : Fin n) :
    (Problem.penalize steps x constraints total gradient).run.2.2.get i = gradient.get i +
      (constraints.map fun c => 2 * (c.shifted? (c.value x).run).getD 0 *
        c.gradientAt steps x i).sum := by
  induction constraints generalizing total gradient with
  | nil => simp [Problem.penalize]
  | cons c rest ih =>
    rw [List.map_cons, List.sum_cons, ← add_assoc]
    cases active : c.shifted? (c.value x).run with
    | none =>
      rw [penalize_idle c rest total gradient active, ih]
      simp
    | some shifted =>
      rw [penalize_active c rest total gradient active, ih, c.addGradient_get, Option.getD_some,
        two_mul]

end Gradients

/-! All offsets. -/

namespace Problem

variable {F : Type} [Field F] [LinearOrder F] [Exact F] {n : ℕ}

def offsets (problem : Problem Id F n) : List F := problem.constraints.map (·.offset)

/-- The point meets all constraints, and the gradient of the objective is that of the constraints
with multipliers of the right signs, which belong to constraints without slack. -/
structure Critical (problem : Problem Id F n) (x : Vector F n)
    (multiplier : Constraint (Fin n) Id F n → F) : Prop where
  met : ∀ c ∈ problem.constraints, c.comparison.Met (c.value x).run
  allowed : ∀ c ∈ problem.constraints, c.comparison.Allows (multiplier c)
  tight : ∀ c ∈ problem.constraints, c.comparison.Tight (c.value x).run (multiplier c)
  stationary : ∀ i, problem.objective.gradientAt problem.steps x i =
    (problem.constraints.map fun c => multiplier c * c.gradientAt problem.steps x i).sum

variable {problem : Problem Id F n} {x : Vector F n} {rate : F}

theorem evaluate_gradient (problem : Problem Id F n) (x : Vector F n) (i : Fin n) :
    (problem.evaluate x).run.1.2.get i = problem.objective.gradientAt problem.steps x i +
      (problem.constraints.map fun c => 2 * (c.shifted? (c.value x).run).getD 0 *
        c.gradientAt problem.steps x i).sum := by
  have objective : (problem.objective.addGradient problem.steps x 1 (Kernel.zeros n)).run.2.get i =
      problem.objective.gradientAt problem.steps x i := by
    have zero : (Kernel.zeros n : Vector F n).get i = 0 := Vector.getElem_replicate i.2
    rw [problem.objective.addGradient_get, zero, zero_add, one_mul]
  rw [← objective, ← penalize_gradient _ (problem.objective.value x).run]
  rfl

theorem offsets_adjustOffsets (problem : Problem Id F n) (rate : F) (x : Vector F n) :
    (problem.adjustOffsets rate x).run.offsets = problem.constraints.map fun c =>
      c.comparison.clamp (c.offset - rate * (c.value x).run) := by
  have adjusted : (problem.adjustOffsets rate x).run.constraints =
      problem.constraints.map fun c => c.adjustOffset (c.value x).run rate :=
    List.idRun_mapM
  rw [offsets, adjusted, List.map_map]
  rfl

theorem foldl_maxNum_eq_zero_iff {C : Type} {amount : C → F} (nonneg : ∀ c, 0 ≤ amount c)
    (constraints : List C) {start : F} (least : 0 ≤ start) :
    constraints.foldl (fun worst c => maxNum worst (amount c)) start = 0 ↔
      start = 0 ∧ ∀ c ∈ constraints, amount c = 0 := by
  induction constraints generalizing start with
  | nil => simp
  | cons c rest ih =>
    have larger : max start (amount c) = 0 ↔ start = 0 ∧ amount c = 0 := by
      constructor
      · intro none
        have left := none ▸ le_max_left start (amount c)
        have right := none ▸ le_max_right start (amount c)
        exact ⟨le_antisymm left least, le_antisymm right (nonneg c)⟩
      · rintro ⟨left, right⟩
        rw [left, right, max_self]
    rw [List.foldl_cons, Exact.maxNum_eq, ih (least.trans (le_max_left _ _)), larger,
      List.forall_mem_cons, and_assoc]

section Ordered

variable [IsStrictOrderedRing F]

theorem maxViolation_eq_zero_iff : (problem.maxViolation x).run = 0 ↔
    ∀ c ∈ problem.constraints, c.comparison.Met (c.value x).run := by
  have folded : (problem.maxViolation x).run = problem.constraints.foldl
      (fun worst c => maxNum worst (c.comparison.violation (c.value x).run)) 0 :=
    List.idRun_foldlM
  rw [folded, foldl_maxNum_eq_zero_iff (fun _ => Comparison.violation_nonneg) _ le_rfl,
    and_iff_right rfl]
  exact forall₂_congr fun _ _ => Comparison.violation_eq_zero_iff

/-- Offsets of allowed signs stay exactly where all constraints are met without slack. -/
theorem offsets_fixed_iff (positive : 0 < rate)
    (allowed : ∀ c ∈ problem.constraints, c.comparison.Allows c.offset) :
    (problem.adjustOffsets rate x).run.offsets = problem.offsets ↔
      ∀ c ∈ problem.constraints, c.comparison.Met (c.value x).run ∧
        c.comparison.Tight (c.value x).run c.offset := by
  rw [offsets_adjustOffsets, offsets, List.map_inj_left]
  apply forall₂_congr
  intro c member
  exact Comparison.clamp_eq_iff positive (allowed c member)

omit [IsStrictOrderedRing F] in
/-- Where they stay, the gradient has the multipliers. -/
theorem evaluate_gradient_of_fixed
    (allowed : ∀ c ∈ problem.constraints, c.comparison.Allows c.offset)
    (settled : ∀ c ∈ problem.constraints, c.comparison.Met (c.value x).run ∧
      c.comparison.Tight (c.value x).run c.offset) (i : Fin n) :
    (problem.evaluate x).run.1.2.get i = problem.objective.gradientAt problem.steps x i -
      2 * (problem.constraints.map fun c => c.offset * c.gradientAt problem.steps x i).sum := by
  have terms : (problem.constraints.map fun c => 2 * (c.shifted? (c.value x).run).getD 0 *
        c.gradientAt problem.steps x i) =
      problem.constraints.map fun c => -2 * (c.offset * c.gradientAt problem.steps x i) := by
    apply List.map_congr_left
    intro c member
    obtain ⟨met, tight⟩ := settled c member
    have shifted : (c.shifted? (c.value x).run).getD 0 = -c.offset :=
      Comparison.shifted?_eq_neg met tight (allowed c member)
    rw [shifted]
    ring
  rw [evaluate_gradient, terms, List.sum_map_mul_left]
  ring

/-- The outer loop rests at a point where the offsets stay and the penalized gradient is zero. It
rests at the points that are critical with twice the offsets for multipliers, and at no others. -/
theorem adjustOffsets_rests (problem : Problem Id F n) (rate : F) (x : Vector F n)
    (positive : 0 < rate) (allowed : ∀ c ∈ problem.constraints, c.comparison.Allows c.offset) :
    ((problem.adjustOffsets rate x).run.offsets = problem.offsets ↔
      (problem.maxViolation x).run = 0 ∧
        ∀ c ∈ problem.constraints, c.comparison.Tight (c.value x).run c.offset) ∧
    ((problem.maxViolation x).run = 0 ↔
      ∀ c ∈ problem.constraints, c.comparison.Met (c.value x).run) ∧
    ((problem.adjustOffsets rate x).run.offsets = problem.offsets →
      ∀ i, (problem.evaluate x).run.1.2.get i =
        problem.objective.gradientAt problem.steps x i -
          2 * (problem.constraints.map fun c =>
            c.offset * c.gradientAt problem.steps x i).sum) ∧
    ((problem.adjustOffsets rate x).run.offsets = problem.offsets ∧
        (∀ i, (problem.evaluate x).run.1.2.get i = 0) ↔
      problem.Critical x fun c => 2 * c.offset) := by
  have fixed := offsets_fixed_iff (x := x) positive allowed
  have doubled (i : Fin n) :
      (problem.constraints.map fun c => 2 * c.offset * c.gradientAt problem.steps x i).sum =
        2 * (problem.constraints.map fun c => c.offset * c.gradientAt problem.steps x i).sum := by
    rw [← List.sum_map_mul_left]
    simp only [mul_assoc]
  refine ⟨?_, maxViolation_eq_zero_iff, ?_, ?_, ?_⟩
  · rw [fixed, maxViolation_eq_zero_iff]
    exact forall₂_and
  · intro stays
    exact evaluate_gradient_of_fixed allowed (fixed.mp stays)
  · rintro ⟨stays, flat⟩
    have settled := fixed.mp stays
    constructor
    · exact fun c member => (settled c member).1
    · exact fun c member => Comparison.allows_two_mul (allowed c member)
    · exact fun c member => Comparison.tight_two_mul_iff.mpr (settled c member).2
    · intro i
      rw [doubled, ← sub_eq_zero, ← evaluate_gradient_of_fixed allowed settled, flat]
  · intro critical
    have settled (c : Constraint (Fin n) Id F n) (member : c ∈ problem.constraints) :
        c.comparison.Met (c.value x).run ∧ c.comparison.Tight (c.value x).run c.offset :=
      ⟨critical.met c member, Comparison.tight_two_mul_iff.mp (critical.tight c member)⟩
    refine ⟨fixed.mpr settled, fun i => ?_⟩
    rw [evaluate_gradient_of_fixed allowed settled, critical.stationary, doubled, sub_self]

end Ordered

/-- The nearest point to the origin with a first coordinate of at least one, a second coordinate
of three, and a sum that is at most ten. -/
def nearest : Problem Id ℚ 2 where
  objective := .create #[0, 1] (fun x => x[0] * x[0] + x[1] * x[1])
    fun x _ => some #v[2 * x[0], 2 * x[1]]
  constraints :=
    [{ form := .linear { terms := [(0, 1)], rhs := 1 }, comparison := .greaterThan, offset := 1 },
      { form := .nonlinear (.create #[1] (fun x => x[1] - 3) fun _ _ => none)
        comparison := .equal, offset := 3 },
      { form := .linear { terms := [(0, 1), (1, 1)], rhs := 10 }, comparison := .lessThan,
        offset := 0 }]
  steps := #v[⟨1, by decide +kernel⟩, ⟨1, by decide +kernel⟩]

/-- The offsets one, three and zero belong to the solution. -/
theorem adjustOffsets_rests_nearest :
    (0 : ℚ) < 1 ∧ (∀ c ∈ nearest.constraints, c.comparison.Allows c.offset) ∧
      (nearest.adjustOffsets 1 #v[1, 3]).run.offsets = [1, 3, 0] ∧
      (nearest.maxViolation #v[1, 3]).run = 0 ∧
      (∀ i, (nearest.evaluate #v[1, 3]).run.1.2.get i = 0) ∧
      nearest.Critical #v[1, 3] fun c => 2 * c.offset := by
  have allowed : ∀ c ∈ nearest.constraints, c.comparison.Allows c.offset := by
    simp [nearest, Comparison.Allows]
  have stays : (nearest.adjustOffsets 1 #v[1, 3]).run.offsets = [1, 3, 0] := by decide +kernel
  have flat : ∀ i, (nearest.evaluate #v[1, 3]).run.1.2.get i = 0 := by decide +kernel
  obtain ⟨fixed, _, _, critical⟩ :=
    adjustOffsets_rests nearest 1 #v[1, 3] one_pos allowed
  exact ⟨one_pos, allowed, stays, (fixed.mp stays).1, flat, critical.mp ⟨stays, flat⟩⟩

end Problem

end Descent

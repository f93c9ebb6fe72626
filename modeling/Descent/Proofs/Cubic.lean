import Mathlib.Order.Monotone.Defs
import Mathlib.Order.Interval.Set.Defs
import Mathlib.Tactic.FieldSimp
import Mathlib.Tactic.LinearCombination
import Mathlib.Tactic.Positivity
import Descent.Line.Sample
import Descent.Proofs.Numbers

/-!
The cubic through two samples of a line, where the nearer one falls and the further one rises. Its
slope is a quadratic function of the share of the way between them. It is level at one share only,
negative before and positive behind, so the cubic falls up to there and rises afterwards; and that
is the step that the fit finds, from whichever side the samples are given.
-/

namespace Descent

open Scalar

namespace Sample

section Shape

variable {F : Type} [Field F] [LinearOrder F] [Exact F] (a b : Sample F)

def between (share : F) : F := a.step + share * (b.step - a.step)

def bend : F := a.slope + b.slope - three * (a.value - b.value) / (a.step - b.step)

def slopeAt (share : F) : F :=
  a.slope - two * (a.slope + a.bend b) * share +
    (a.slope + b.slope + two * a.bend b) * share * share

/-- A share of the way, neither end, at which the cubic is level. -/
structure Level (flat : F) : Prop where
  pos : 0 < flat
  lt_one : flat < 1
  root : a.slopeAt b flat = 0

variable {a b}

theorem hermiteValue_left : a.hermiteValue b a.step = a.value := by
  simp [hermiteValue, two, three]

theorem between_share (apart : a.step ≠ b.step) (step : F) :
    a.between b ((step - a.step) / (b.step - a.step)) = step := by
  have width : b.step - a.step ≠ 0 := sub_ne_zero.mpr apart.symm
  rw [between, div_mul_cancel₀ _ width, add_sub_cancel]

theorem share_between (apart : a.step ≠ b.step) (share : F) :
    (a.between b share - a.step) / (b.step - a.step) = share := by
  have width : b.step - a.step ≠ 0 := sub_ne_zero.mpr apart.symm
  rw [between, add_sub_cancel_left, mul_div_cancel_right₀ _ width]

variable [IsStrictOrderedRing F]

theorem hermiteValue_right (ordered : a.step < b.step) : a.hermiteValue b b.step = b.value := by
  have width : b.step - a.step ≠ 0 := (sub_pos.mpr ordered).ne'
  simp only [hermiteValue, two, three, div_self width]
  push_cast
  ring

theorem between_div {gone left all : F} (whole : gone + left = all) (nonzero : all ≠ 0) :
    a.between b (gone / all) = b.step - (b.step - a.step) * left / all := by
  have share : gone / all = 1 - left / all := by
    rw [eq_sub_iff_add_eq, ← add_div, whole, div_self nonzero]
  rw [between, share]
  ring

theorem between_lt_between (ordered : a.step < b.step) {s t : F} :
    a.between b s < a.between b t ↔ s < t := by
  rw [between, between, add_lt_add_iff_left, mul_lt_mul_iff_left₀ (sub_pos.mpr ordered)]

/-- Simpson's rule is exact for the slope. -/
theorem hermiteValue_sub (apart : a.step ≠ b.step) (s t : F) :
    a.hermiteValue b (a.between b t) - a.hermiteValue b (a.between b s) =
      (b.step - a.step) * (t - s) / 6 *
        (a.slopeAt b s + 4 * a.slopeAt b ((s + t) / 2) + a.slopeAt b t) := by
  have width : a.step - b.step ≠ 0 := sub_ne_zero.mpr apart
  have chord : a.bend b * (b.step - a.step) =
      (a.slope + b.slope) * (b.step - a.step) + 3 * (a.value - b.value) := by
    simp only [bend, three, Nat.cast_ofNat]
    field_simp
    ring
  simp only [hermiteValue, two, three, Nat.cast_ofNat, share_between apart, slopeAt]
  linear_combination (t ^ 2 - s ^ 2 - 2 / 3 * (t ^ 3 - s ^ 3)) * chord

variable (falls : a.slope < 0) (rises : 0 < b.slope) {flat : F} (level : a.Level b flat)

include falls rises level

/-- The slope has the sign of the distance from the level share. -/
theorem slopeAt_eq {share : F} (first : 0 ≤ share) (last : share ≤ 1) :
    ∃ weight, 0 < weight ∧ a.slopeAt b share = (share - flat) * weight := by
  obtain ⟨pos, lt_one, root⟩ := level
  have behind : 0 < 1 - flat := sub_pos.mpr lt_one
  -- the root fixes the bend, so that the slopes at both ends are all that is left
  have parts : a.slopeAt b share * (flat * (1 - flat)) =
      (share - flat) * ((1 - share) * ((1 - flat) * -a.slope) + share * (flat * b.slope)) := by
    simp only [slopeAt, two, Nat.cast_ofNat] at root ⊢
    linear_combination share * (1 - share) * root
  have weights : 0 < (1 - share) * ((1 - flat) * -a.slope) + share * (flat * b.slope) := by
    have near : 0 < (1 - flat) * -a.slope := mul_pos behind (neg_pos.mpr falls)
    have far : 0 < flat * b.slope := mul_pos pos rises
    rcases first.lt_or_eq with further | rfl
    · exact add_pos_of_nonneg_of_pos (mul_nonneg (sub_nonneg.mpr last) near.le)
        (mul_pos further far)
    · rw [sub_zero, one_mul, zero_mul, add_zero]
      exact near
  refine ⟨_, div_pos weights (mul_pos pos behind), ?_⟩
  rw [← mul_div_assoc, ← parts, mul_div_cancel_right₀ _ (mul_pos pos behind).ne']

theorem slopeAt_neg {share : F} (first : 0 ≤ share) (before : share < flat) :
    a.slopeAt b share < 0 := by
  obtain ⟨weight, positive, same⟩ :=
    slopeAt_eq falls rises level first (before.trans level.lt_one).le
  rw [same]
  exact mul_neg_of_neg_of_pos (sub_neg.mpr before) positive

theorem slopeAt_pos {share : F} (behind : flat < share) (last : share ≤ 1) :
    0 < a.slopeAt b share := by
  obtain ⟨weight, positive, same⟩ :=
    slopeAt_eq falls rises level (level.pos.trans behind).le last
  rw [same]
  exact mul_pos (sub_pos.mpr behind) positive

variable (ordered : a.step < b.step) {s t : F}

include ordered

theorem hermiteValue_falls (first : 0 ≤ s) (further : s < t) (before : t ≤ flat) :
    a.hermiteValue b (a.between b t) < a.hermiteValue b (a.between b s) := by
  have start : a.slopeAt b s < 0 := slopeAt_neg falls rises level first (further.trans_le before)
  have middle : a.slopeAt b ((s + t) / 2) < 0 :=
    slopeAt_neg falls rises level (by linarith) (by linarith)
  have final : a.slopeAt b t ≤ 0 := by
    rcases before.lt_or_eq with less | rfl
    · exact (slopeAt_neg falls rises level (first.trans further.le) less).le
    · exact level.root.le
  rw [← sub_neg, hermiteValue_sub ordered.ne]
  exact mul_neg_of_pos_of_neg
    (div_pos (mul_pos (sub_pos.mpr ordered) (sub_pos.mpr further)) (by norm_num)) (by linarith)

theorem hermiteValue_climbs (behind : flat ≤ s) (further : s < t) (last : t ≤ 1) :
    a.hermiteValue b (a.between b s) < a.hermiteValue b (a.between b t) := by
  have final : 0 < a.slopeAt b t := slopeAt_pos falls rises level (behind.trans_lt further) last
  have middle : 0 < a.slopeAt b ((s + t) / 2) :=
    slopeAt_pos falls rises level (by linarith) (by linarith)
  have start : 0 ≤ a.slopeAt b s := by
    rcases behind.lt_or_eq with less | rfl
    · exact (slopeAt_pos falls rises level less (further.le.trans last)).le
    · exact level.root.ge
  rw [← sub_pos, hermiteValue_sub ordered.ne]
  exact mul_pos
    (div_pos (mul_pos (sub_pos.mpr ordered) (sub_pos.mpr further)) (by norm_num)) (by linarith)

theorem strictAntiOn_hermiteValue :
    StrictAntiOn (a.hermiteValue b) (Set.Icc a.step (a.between b flat)) := by
  intro x xs y ys less
  rw [← between_share ordered.ne x, ← between_share ordered.ne y,
    between_lt_between ordered] at less
  rw [← between_share ordered.ne x, ← between_share ordered.ne y]
  refine hermiteValue_falls falls rises level ordered ?_ less ?_
  · exact div_nonneg (sub_nonneg.mpr xs.1) (sub_pos.mpr ordered).le
  · rw [← not_lt, ← between_lt_between ordered, between_share ordered.ne, not_lt]
    exact ys.2

theorem strictMonoOn_hermiteValue :
    StrictMonoOn (a.hermiteValue b) (Set.Icc (a.between b flat) b.step) := by
  intro x xs y ys less
  rw [← between_share ordered.ne x, ← between_share ordered.ne y,
    between_lt_between ordered] at less
  rw [← between_share ordered.ne x, ← between_share ordered.ne y]
  refine hermiteValue_climbs falls rises level ordered ?_ less ?_
  · rw [← not_lt, ← between_lt_between ordered, between_share ordered.ne, not_lt]
    exact xs.1
  · rw [div_le_one (sub_pos.mpr ordered)]
    exact sub_le_sub_right ys.2 _

end Shape

/-! What the fit finds. -/

section Fit

variable (a b : Sample ℝ)

noncomputable def discriminant : ℝ := a.bend b * a.bend b - a.slope * b.slope

noncomputable def fitted : ℝ :=
  (√(a.discriminant b) + a.bend b - a.slope) /
    (b.slope - a.slope + √(a.discriminant b) + √(a.discriminant b))

theorem bend_swap : b.bend a = a.bend b := by
  rw [bend, bend, ← neg_sub a.value b.value, ← neg_sub a.step b.step, mul_neg, neg_div_neg_eq,
    add_comm b.slope]

theorem discriminant_swap : b.discriminant a = a.discriminant b := by
  rw [discriminant, discriminant, bend_swap, mul_comm b.slope]

/-- The fit as a formula, with the root on the side that `b` lies on. -/
theorem cubicMinimizer_eq {root denominator : ℝ} (apart : a.step ≠ b.step)
    (under : 0 ≤ a.discriminant b)
    (signed : root = if b.step - a.step < 0 then -√(a.discriminant b) else √(a.discriminant b))
    (same : b.slope - a.slope + root + root = denominator) (nonzero : denominator ≠ 0) :
    a.cubicMinimizer b =
      some (b.step - (b.step - a.step) * (b.slope + root - a.bend b) / denominator) := by
  rw [← same, signed] at nonzero ⊢
  exact (if_neg (Exact.isZero_iff.not.mpr (sub_ne_zero.mpr apart.symm))).trans
    ((if_pos under).trans (if_neg (Exact.isZero_iff.not.mpr nonzero)))

variable {a b} (falls : a.slope < 0) (rises : 0 < b.slope)

include falls rises

theorem discriminant_pos : 0 < a.discriminant b := by
  rw [discriminant]
  linarith [mul_neg_of_neg_of_pos falls rises, mul_self_nonneg (a.bend b)]

theorem abs_bend_lt_sqrt : |a.bend b| < √(a.discriminant b) := by
  refine Real.lt_sqrt_of_sq_lt ?_
  rw [sq_abs, discriminant, sq]
  linarith [mul_neg_of_neg_of_pos falls rises]

theorem denominator_pos : 0 < b.slope - a.slope + √(a.discriminant b) + √(a.discriminant b) := by
  linarith [Real.sqrt_nonneg (a.discriminant b)]

theorem level_fitted : a.Level b (a.fitted b) := by
  obtain ⟨low, high⟩ := abs_lt.mp (abs_bend_lt_sqrt falls rises)
  have denominator := denominator_pos falls rises
  have square : √(a.discriminant b) * √(a.discriminant b) =
      a.bend b * a.bend b - a.slope * b.slope :=
    Real.mul_self_sqrt (discriminant_pos falls rises).le
  constructor
  · exact div_pos (by linarith) denominator
  · rw [fitted, div_lt_one denominator]
    linarith
  · simp only [slopeAt, fitted, two, Nat.cast_ofNat]
    field_simp
    linear_combination (b.slope + a.slope - 2 * a.bend b) * square

variable (ordered : a.step < b.step)

include ordered

theorem cubicMinimizer_fitted : a.cubicMinimizer b = some (a.between b (a.fitted b)) := by
  have nonzero := (denominator_pos falls rises).ne'
  have signed : √(a.discriminant b) =
      if b.step - a.step < 0 then -√(a.discriminant b) else √(a.discriminant b) :=
    (if_neg (sub_pos.mpr ordered).not_gt).symm
  have whole : √(a.discriminant b) + a.bend b - a.slope +
      (b.slope + √(a.discriminant b) - a.bend b) =
      b.slope - a.slope + √(a.discriminant b) + √(a.discriminant b) := by ring
  rw [cubicMinimizer_eq a b ordered.ne (discriminant_pos falls rises).le signed rfl nonzero,
    fitted, between_div whole nonzero]

theorem cubicMinimizer_swapped : b.cubicMinimizer a = some (a.between b (a.fitted b)) := by
  have nonzero := (denominator_pos falls rises).ne'
  have under : 0 ≤ b.discriminant a := by
    rw [discriminant_swap]
    exact (discriminant_pos falls rises).le
  have signed : -√(a.discriminant b) =
      if a.step - b.step < 0 then -√(b.discriminant a) else √(b.discriminant a) := by
    rw [discriminant_swap, if_pos (sub_neg.mpr ordered)]
  have turned : a.slope - b.slope + -√(a.discriminant b) + -√(a.discriminant b) =
      -(b.slope - a.slope + √(a.discriminant b) + √(a.discriminant b)) := by ring
  rw [cubicMinimizer_eq b a ordered.ne' under signed turned (neg_ne_zero.mpr nonzero), bend_swap,
    fitted, between, div_neg]
  congr 1
  ring

/-- The fit lies strictly between the samples. -/
theorem exists_fitMinimizer :
    ∃ step, a.fitMinimizer b = some step ∧ a.step < step ∧ step < b.step := by
  have level := level_fitted falls rises
  have width : 0 < b.step - a.step := sub_pos.mpr ordered
  refine ⟨a.between b (a.fitted b), ?_, ?_, ?_⟩
  · rw [fitMinimizer, cubicMinimizer_fitted falls rises ordered, Option.some_or]
  · exact lt_add_of_pos_right _ (mul_pos level.pos width)
  · have share : a.fitted b * (b.step - a.step) < b.step - a.step :=
      mul_lt_of_lt_one_left width level.lt_one
    rw [between]
    linarith

end Fit

/-- Between a sample that falls and a later one that rises the cubic has one minimum, which the
fit finds from either side: the cubic falls strictly before it and rises strictly behind it. -/
theorem cubicMinimizer_minimizes (a b : Sample ℝ) (ordered : a.step < b.step)
    (falls : a.slope < 0) (rises : 0 < b.slope) :
    ∃ step, a.cubicMinimizer b = some step ∧ b.cubicMinimizer a = some step ∧
      a.step < step ∧ step < b.step ∧
      StrictAntiOn (a.hermiteValue b) (Set.Icc a.step step) ∧
      StrictMonoOn (a.hermiteValue b) (Set.Icc step b.step) ∧
      (∀ other ∈ Set.Icc a.step b.step, other ≠ step →
        a.hermiteValue b step < a.hermiteValue b other) ∧
      a.hermiteValue b step < a.value ∧ a.hermiteValue b step < b.value := by
  have level := level_fitted falls rises
  have forward := cubicMinimizer_fitted falls rises ordered
  obtain ⟨step, fit, after, before⟩ := exists_fitMinimizer falls rises ordered
  rw [fitMinimizer, forward, Option.some_or] at fit
  obtain rfl := Option.some.inj fit
  have antitone := strictAntiOn_hermiteValue falls rises level ordered
  have monotone := strictMonoOn_hermiteValue falls rises level ordered
  have least : ∀ other ∈ Set.Icc a.step b.step, other ≠ a.between b (a.fitted b) →
      a.hermiteValue b (a.between b (a.fitted b)) < a.hermiteValue b other := by
    intro other within apart
    rcases lt_or_gt_of_ne apart with less | greater
    · exact antitone ⟨within.1, less.le⟩ ⟨after.le, le_rfl⟩ less
    · exact monotone ⟨le_rfl, before.le⟩ ⟨greater.le, within.2⟩ greater
  refine ⟨_, forward, cubicMinimizer_swapped falls rises ordered, after, before, antitone,
    monotone, least, ?_, ?_⟩
  · have left := least a.step ⟨le_rfl, ordered.le⟩ after.ne
    rwa [hermiteValue_left] at left
  · have right := least b.step ⟨ordered.le, le_rfl⟩ before.ne'
    rwa [hermiteValue_right ordered] at right

/-- Two samples of `t ^ 3 - 3 * t`, around its minimum at one. -/
theorem cubicMinimizer_minimizes_cube :
    let a : Sample ℝ := ⟨0, 0, -3⟩
    let b : Sample ℝ := ⟨2, 2, 9⟩
    a.step < b.step ∧ a.slope < 0 ∧ 0 < b.slope ∧
      a.cubicMinimizer b = some 1 ∧ b.cubicMinimizer a = some 1 ∧
      a.hermiteValue b 1 < a.value ∧ a.hermiteValue b 1 < b.value := by
  intro a b
  have ordered : a.step < b.step := by norm_num [a, b]
  have falls : a.slope < 0 := by norm_num [a]
  have rises : 0 < b.slope := by norm_num [b]
  obtain ⟨step, forward, backward, after, before, -, -, least, left, right⟩ :=
    cubicMinimizer_minimizes a b ordered falls rises
  have cube (t : ℝ) : a.hermiteValue b t = t ^ 3 - 3 * t := by
    simp only [hermiteValue, a, b, two, three]
    push_cast
    ring
  -- the cubic exceeds its value at one by a product that is nowhere negative behind zero
  obtain rfl : step = 1 := by
    by_contra apart
    have lower := least 1 ⟨by norm_num [a], by norm_num [b]⟩ (Ne.symm apart)
    rw [cube, cube] at lower
    have product : 0 ≤ (step - 1) ^ 2 * (step + 2) :=
      mul_nonneg (sq_nonneg _) (add_nonneg after.le zero_le_two)
    linarith
  exact ⟨ordered, falls, rises, forward, backward, left, right⟩

end Sample

end Descent

import Mathlib.Analysis.Calculus.Deriv.Polynomial
import Mathlib.Analysis.Calculus.LocalExtr.Basic
import Descent.Proofs.Convexity

/-!
What the cubic fit finds through any two samples of a line. The slope of the cubic is a quadratic
function of the share of the way, and `bow` is half of that function's own slope. The fit looks for
the share at which the cubic is level and its bow is the signed root of the discriminant. This is
the minimum of the cubic, or a terrace if the discriminant is zero. Its closed form divides zero by
zero where both level shares are as far from the middle, which hides a minimum if the maximum is
midway.
-/

namespace Descent

open Filter Topology Scalar

/-! Functions that are cubic polynomials of the distance from a point. -/

section Expansion

def StrictMinAt (f : ℝ → ℝ) (t : ℝ) : Prop := ∀ᶠ s in 𝓝[≠] t, f t < f s

def StrictMaxAt (f : ℝ → ℝ) (t : ℝ) : Prop := ∀ᶠ s in 𝓝[≠] t, f s < f t

/-- The function is level here, but goes one way all along. -/
def TerraceAt (f : ℝ → ℝ) (t : ℝ) : Prop := HasDerivAt f 0 t ∧ (StrictMono f ∨ StrictAnti f)

/-- The function around `t`, by its slope, its curvature and its twist there. -/
def Expands (f : ℝ → ℝ) (t slope curvature twist : ℝ) : Prop :=
  ∀ s, f s - f t = slope * (s - t) + curvature * (s - t) ^ 2 + twist * (s - t) ^ 3

theorem strictMaxAt_iff_neg {f : ℝ → ℝ} {t : ℝ} :
    StrictMaxAt f t ↔ StrictMinAt (fun s => -f s) t := by
  simp only [StrictMaxAt, StrictMinAt, neg_lt_neg_iff]

theorem TerraceAt.neg {f : ℝ → ℝ} {t : ℝ} (terrace : TerraceAt f t) :
    TerraceAt (fun s => -f s) t := by
  refine ⟨?_, ?_⟩
  · simpa using terrace.1.fun_neg
  · exact terrace.2.symm.imp StrictAnti.neg StrictMono.neg

theorem not_strictMinAt_of_oneWay {f : ℝ → ℝ} {t : ℝ} (ways : StrictMono f ∨ StrictAnti f) :
    ¬ StrictMinAt f t := by
  intro lowest
  rcases ways with climbs | falls
  · obtain ⟨s, higher, before⟩ :=
      ((lowest.filter_mono (nhdsLT_le_nhdsNE t)).and self_mem_nhdsWithin).exists
    exact (climbs before).not_gt higher
  · obtain ⟨s, higher, behind⟩ :=
      ((lowest.filter_mono (nhdsGT_le_nhdsNE t)).and self_mem_nhdsWithin).exists
    exact (falls behind).not_gt higher

namespace Expands

variable {f : ℝ → ℝ} {t slope curvature twist : ℝ}

theorem hasDerivAt (expands : Expands f t slope curvature twist) : HasDerivAt f slope t := by
  have shape : f = fun s => f t + (slope * (s - t) + curvature * (s - t) ^ 2 +
      twist * (s - t) ^ 3) := by
    funext s
    rw [← expands s]
    ring
  have inner : HasDerivAt (fun s : ℝ => s - t) 1 t := (hasDerivAt_id t).sub_const t
  have sum := (((inner.const_mul slope).add ((inner.fun_pow 2).const_mul curvature)).add
    ((inner.fun_pow 3).const_mul twist)).const_add (f t)
  rw [shape]
  simpa using sum

theorem neg (expands : Expands f t slope curvature twist) :
    Expands (fun s => -f s) t (-slope) (-curvature) (-twist) := by
  intro s
  have change := expands s
  linear_combination -change

theorem change_eq (expands : Expands f t 0 curvature twist) (s : ℝ) :
    f s - f t = (s - t) ^ 2 * (curvature + twist * (s - t)) := by
  rw [expands s]
  ring

theorem not_strictMinAt (expands : Expands f t 0 curvature twist) (bends : curvature ≤ 0) :
    ¬ StrictMinAt f t := by
  intro lowest
  have lower (s : ℝ) (side : twist * (s - t) ≤ 0) : f s ≤ f t := by
    have product : (s - t) ^ 2 * (curvature + twist * (s - t)) ≤ 0 :=
      mul_nonpos_of_nonneg_of_nonpos (sq_nonneg _) (add_nonpos bends side)
    rw [← expands.change_eq] at product
    exact sub_nonpos.mp product
  rcases le_total 0 twist with upward | downward
  · obtain ⟨s, higher, before⟩ :=
      ((lowest.filter_mono (nhdsLT_le_nhdsNE t)).and self_mem_nhdsWithin).exists
    exact (lower s (mul_nonpos_of_nonneg_of_nonpos upward (sub_neg.mpr before).le)).not_gt higher
  · obtain ⟨s, higher, behind⟩ :=
      ((lowest.filter_mono (nhdsGT_le_nhdsNE t)).and self_mem_nhdsWithin).exists
    exact (lower s (mul_nonpos_of_nonpos_of_nonneg downward (sub_pos.mpr behind).le)).not_gt higher

theorem strictMinAt (expands : Expands f t 0 curvature twist) (bends : 0 < curvature) :
    StrictMinAt f t := by
  have near : ∀ᶠ s in 𝓝 t, 0 < curvature + twist * (s - t) := by
    have continuous : Continuous fun s => curvature + twist * (s - t) := by fun_prop
    refine continuous.continuousAt.eventually_const_lt ?_
    change 0 < curvature + twist * (t - t)
    rw [sub_self, mul_zero, add_zero]
    exact bends
  filter_upwards [nhdsWithin_le_nhds near, self_mem_nhdsWithin] with s positive apart
  have product := mul_pos (pow_two_pos_of_ne_zero (sub_ne_zero.mpr apart)) positive
  rw [← expands.change_eq] at product
  exact sub_pos.mp product

/-- At a minimum the function is level and bends up. -/
theorem strictMinAt_iff (expands : Expands f t slope curvature twist) :
    StrictMinAt f t ↔ slope = 0 ∧ 0 < curvature := by
  constructor
  · intro lowest
    have weak : IsLocalMin f t := by
      refine eventually_nhdsWithin_iff.mp lowest |>.mono fun s higher => ?_
      rcases eq_or_ne s t with rfl | apart
      · exact le_rfl
      · exact (higher apart).le
    obtain rfl : slope = 0 := weak.hasDerivAt_eq_zero expands.hasDerivAt
    exact ⟨rfl, not_le.mp fun bends => expands.not_strictMinAt bends lowest⟩
  · rintro ⟨rfl, bends⟩
    exact expands.strictMinAt bends

theorem strictMaxAt_iff (expands : Expands f t slope curvature twist) :
    StrictMaxAt f t ↔ slope = 0 ∧ curvature < 0 := by
  rw [strictMaxAt_iff_neg, expands.neg.strictMinAt_iff, neg_eq_zero, neg_pos]

theorem strictMono (expands : Expands f t 0 0 twist) (upward : 0 < twist) : StrictMono f := by
  intro x y further
  have cubes : (x - t) ^ 3 < (y - t) ^ 3 :=
    Odd.strictMono_pow (by decide) (sub_lt_sub_right further t)
  have first := expands x
  have second := expands y
  have raised := mul_lt_mul_of_pos_left cubes upward
  linarith

theorem terraceAt_iff (expands : Expands f t slope curvature twist) :
    TerraceAt f t ↔ slope = 0 ∧ curvature = 0 ∧ twist ≠ 0 := by
  constructor
  · intro terrace
    obtain rfl : slope = 0 := expands.hasDerivAt.unique terrace.1
    obtain rfl : curvature = 0 := by
      rcases lt_trichotomy curvature 0 with bends | straight | bends
      · have highest := strictMaxAt_iff_neg.mp (expands.strictMaxAt_iff.mpr ⟨rfl, bends⟩)
        exact absurd highest (not_strictMinAt_of_oneWay terrace.neg.2)
      · exact straight
      · exact absurd (expands.strictMinAt bends) (not_strictMinAt_of_oneWay terrace.2)
    refine ⟨rfl, rfl, ?_⟩
    rintro rfl
    have same : f (t + 1) = f t := by
      have change := expands (t + 1)
      linarith
    rcases terrace.2 with climbs | falls
    · exact (climbs (lt_add_one t)).ne' same
    · exact (falls (lt_add_one t)).ne same
  · rintro ⟨rfl, rfl, twisted⟩
    refine ⟨expands.hasDerivAt, ?_⟩
    rcases lt_or_gt_of_ne twisted with downward | upward
    · right
      have turned := expands.neg
      rw [neg_zero] at turned
      simpa only [neg_neg] using (turned.strictMono (neg_pos.mpr downward)).neg
    · exact .inl (expands.strictMono upward)

end Expands

end Expansion

/-! The cubic through two samples around any step. -/

namespace Sample

section Bow

variable (a b : Sample ℝ)

noncomputable def share (step : ℝ) : ℝ := (step - a.step) / (b.step - a.step)

/-- The leading coefficient of `slopeAt`. -/
noncomputable def twist : ℝ := a.slope + b.slope + two * a.bend b

noncomputable def bow (share : ℝ) : ℝ := a.twist b * share - (a.slope + a.bend b)

noncomputable def signedRoot : ℝ :=
  if b.step - a.step < 0 then -√(a.discriminant b) else √(a.discriminant b)

noncomputable def denominator : ℝ := b.slope - a.slope + a.signedRoot b + a.signedRoot b

theorem bow_mul_self (share : ℝ) :
    a.bow b share * a.bow b share = a.twist b * a.slopeAt b share + a.discriminant b := by
  simp only [bow, slopeAt, twist, discriminant, two, Nat.cast_ofNat]
  ring

theorem slopeAt_sub (s t : ℝ) :
    a.slopeAt b s - a.slopeAt b t = (s - t) * (a.bow b s + a.bow b t) := by
  simp only [bow, slopeAt, twist, two, Nat.cast_ofNat]
  ring

theorem bow_sub (s t : ℝ) : a.bow b s - a.bow b t = a.twist b * (s - t) := by
  rw [bow, bow]
  ring

theorem denominator_eq : a.denominator b = 2 * (a.bow b (1 / 2) + a.signedRoot b) := by
  simp only [denominator, bow, twist, two, Nat.cast_ofNat]
  ring

variable {a b}

theorem bow_half_of_flat {share : ℝ} (flat : a.bow b share = 0) :
    a.bow b (1 / 2) + a.bow b share = a.twist b * (1 / 2 - share) := by
  rw [← bow_sub, flat, add_zero, sub_zero]

theorem signedRoot_mul_self (under : 0 ≤ a.discriminant b) :
    a.signedRoot b * a.signedRoot b = a.discriminant b := by
  have square := Real.mul_self_sqrt under
  rw [signedRoot]
  split
  · rw [neg_mul_neg, square]
  · exact square

/-- The closed form solves for the share that is level and has the signed root as its bow. -/
theorem eq_closed_form_iff {share : ℝ}
    (square : a.signedRoot b * a.signedRoot b = a.discriminant b)
    (nonzero : a.denominator b ≠ 0) :
    share = (a.signedRoot b + a.bend b - a.slope) / a.denominator b ↔
      a.slopeAt b share = 0 ∧ a.bow b share = a.signedRoot b := by
  rw [eq_div_iff nonzero]
  simp only [slopeAt, bow, twist, discriminant, denominator, two, Nat.cast_ofNat] at *
  generalize a.signedRoot b = root at *
  constructor
  · intro solved
    have rooted : (a.slope + b.slope + 2 * a.bend b) * share - (a.slope + a.bend b) = root := by
      refine mul_right_cancel₀ nonzero ?_
      linear_combination (a.slope + b.slope + 2 * a.bend b) * solved - 2 * square
    refine ⟨(mul_eq_zero.mp ?_).resolve_right nonzero, rooted⟩
    linear_combination (b.slope - a.slope + root + root) * share * rooted +
      (root - a.slope - a.bend b) * solved + square
  · rintro ⟨level, rooted⟩
    linear_combination 2 * level + (1 - 2 * share) * rooted

variable (apart : a.step ≠ b.step)

include apart

theorem between_eq_iff {share step : ℝ} : a.between b share = step ↔ share = a.share b step := by
  constructor
  · rintro rfl
    exact (share_between apart share).symm
  · rintro rfl
    exact between_share apart step

theorem share_middle : a.share b ((a.step + b.step) / 2) = 1 / 2 := by
  have width : b.step - a.step ≠ 0 := sub_ne_zero.mpr apart.symm
  rw [share, div_eq_iff width]
  ring

theorem share_eq_half_iff {step : ℝ} : a.share b step = 1 / 2 ↔ step = (a.step + b.step) / 2 := by
  rw [← share_middle apart, ← between_eq_iff apart, share, between_share apart, eq_comm]

theorem expands_hermiteValue (step : ℝ) :
    Expands (a.hermiteValue b) step (a.slopeAt b (a.share b step))
      (a.bow b (a.share b step) / (b.step - a.step))
      (a.twist b / (3 * (b.step - a.step) ^ 2)) := by
  intro other
  have width : b.step - a.step ≠ 0 := sub_ne_zero.mpr apart.symm
  have gap : other - step = (b.step - a.step) * (a.share b other - a.share b step) := by
    rw [share, share, ← sub_div, sub_sub_sub_cancel_right, mul_div_cancel₀ _ width]
  have change := hermiteValue_sub apart (a.share b step) (a.share b other)
  rw [(between_eq_iff apart).mpr rfl, (between_eq_iff apart).mpr rfl] at change
  rw [change, gap]
  field_simp
  simp only [slopeAt, bow, twist, two, Nat.cast_ofNat]
  ring

theorem eq_signedRoot_iff {x : ℝ} (square : x * x = a.discriminant b) :
    x = a.signedRoot b ↔ 0 ≤ x / (b.step - a.step) := by
  have width : b.step - a.step ≠ 0 := sub_ne_zero.mpr apart.symm
  rw [signedRoot, ← square, Real.sqrt_mul_self_eq_abs]
  split
  · next back =>
    rw [le_div_iff_of_neg back, zero_mul, ← neg_eq_iff_eq_neg, eq_comm, abs_eq_neg_self]
  · next onward =>
    have ahead : 0 < b.step - a.step := lt_of_le_of_ne (not_lt.mp onward) width.symm
    rw [le_div_iff₀ ahead, zero_mul, eq_comm, abs_eq_self]

theorem cubicMinimizer_eq_some_iff {step : ℝ} :
    a.cubicMinimizer b = some step ↔
      0 ≤ a.discriminant b ∧ a.denominator b ≠ 0 ∧
        a.share b step = (a.signedRoot b + a.bend b - a.slope) / a.denominator b := by
  have wide : ¬ isZero (b.step - a.step) = true :=
    Exact.isZero_iff.not.mpr (sub_ne_zero.mpr apart.symm)
  by_cases under : 0 ≤ a.discriminant b
  · by_cases zero : a.denominator b = 0
    · have missing : a.cubicMinimizer b = none :=
        (if_neg wide).trans ((if_pos under).trans (if_pos (Exact.isZero_iff.mpr zero)))
      simp [missing, zero]
    · have whole : a.signedRoot b + a.bend b - a.slope + (b.slope + a.signedRoot b - a.bend b) =
          a.denominator b := by
        rw [denominator]
        ring
      have formula : a.cubicMinimizer b = some (b.step -
          (b.step - a.step) * (b.slope + a.signedRoot b - a.bend b) / a.denominator b) :=
        cubicMinimizer_eq a b apart under rfl rfl zero
      rw [formula, ← between_div whole zero, Option.some_inj, between_eq_iff apart]
      simp [under, zero, eq_comm]
  · have missing : a.cubicMinimizer b = none := (if_neg wide).trans (if_neg under)
    simp [missing, under]

/-- The fit finds the level step where the cubic does not bend down, unless it bends up midway as
much as it bends down there. -/
theorem cubicMinimizer_eq_some_iff_level {step : ℝ} :
    a.cubicMinimizer b = some step ↔
      a.slopeAt b (a.share b step) = 0 ∧ 0 ≤ a.bow b (a.share b step) / (b.step - a.step) ∧
        a.bow b (1 / 2) + a.bow b (a.share b step) ≠ 0 := by
  rw [cubicMinimizer_eq_some_iff apart]
  constructor
  · rintro ⟨under, nonzero, closed⟩
    have square := signedRoot_mul_self under
    obtain ⟨level, rooted⟩ := (eq_closed_form_iff square nonzero).mp closed
    rw [denominator_eq, ← rooted] at nonzero
    rw [← rooted] at square
    exact ⟨level, (eq_signedRoot_iff apart square).mp rooted, right_ne_zero_of_mul nonzero⟩
  · rintro ⟨level, sided, nonzero⟩
    have square : a.bow b (a.share b step) * a.bow b (a.share b step) = a.discriminant b := by
      rw [bow_mul_self, level, mul_zero, zero_add]
    have under : 0 ≤ a.discriminant b := square ▸ mul_self_nonneg _
    have rooted := (eq_signedRoot_iff apart square).mpr sided
    have divides : a.denominator b ≠ 0 := by
      rw [denominator_eq, ← rooted]
      exact mul_ne_zero two_ne_zero nonzero
    exact ⟨under, divides,
      (eq_closed_form_iff (signedRoot_mul_self under) divides).mpr ⟨level, rooted⟩⟩

theorem strictMinAt_hermiteValue_iff {step : ℝ} :
    StrictMinAt (a.hermiteValue b) step ↔
      a.slopeAt b (a.share b step) = 0 ∧ 0 < a.bow b (a.share b step) / (b.step - a.step) :=
  (expands_hermiteValue apart step).strictMinAt_iff

theorem strictMaxAt_middle_iff :
    StrictMaxAt (a.hermiteValue b) ((a.step + b.step) / 2) ↔
      a.slopeAt b (1 / 2) = 0 ∧ a.bow b (1 / 2) / (b.step - a.step) < 0 := by
  rw [(expands_hermiteValue apart _).strictMaxAt_iff, share_middle apart]

theorem terraceAt_hermiteValue_iff {step : ℝ} :
    TerraceAt (a.hermiteValue b) step ↔
      a.slopeAt b (a.share b step) = 0 ∧ a.bow b (a.share b step) = 0 ∧ a.twist b ≠ 0 := by
  have width : b.step - a.step ≠ 0 := sub_ne_zero.mpr apart.symm
  rw [(expands_hermiteValue apart step).terraceAt_iff, div_eq_zero_iff, or_iff_left width,
    div_ne_zero_iff, and_iff_left (mul_ne_zero three_ne_zero (pow_ne_zero 2 width))]

theorem strictMaxAt_middle_iff_of_strictMinAt {step : ℝ}
    (lowest : StrictMinAt (a.hermiteValue b) step) :
    StrictMaxAt (a.hermiteValue b) ((a.step + b.step) / 2) ↔
      a.bow b (1 / 2) + a.bow b (a.share b step) = 0 := by
  obtain ⟨level, bends⟩ := (strictMinAt_hermiteValue_iff apart).mp lowest
  have gap := a.slopeAt_sub b (1 / 2) (a.share b step)
  rw [level, sub_zero] at gap
  rw [strictMaxAt_middle_iff apart]
  constructor
  · rintro ⟨flat, bent⟩
    rw [flat, zero_eq_mul] at gap
    refine gap.resolve_left fun same => ?_
    rw [← sub_eq_zero.mp same] at bends
    exact lt_asymm bends bent
  · intro opposite
    rw [opposite, mul_zero] at gap
    rw [eq_neg_of_add_eq_zero_left opposite, neg_div]
    exact ⟨gap, neg_lt_zero.mpr bends⟩

/-- What the fit finds: the minimum, unless the maximum is midway, or a terrace that is not. -/
theorem cubicMinimizer_eq_some_iff_extremum {step : ℝ} :
    a.cubicMinimizer b = some step ↔
      (StrictMinAt (a.hermiteValue b) step ∧
        ¬ StrictMaxAt (a.hermiteValue b) ((a.step + b.step) / 2)) ∨
      (TerraceAt (a.hermiteValue b) step ∧ step ≠ (a.step + b.step) / 2) := by
  have width : b.step - a.step ≠ 0 := sub_ne_zero.mpr apart.symm
  rw [cubicMinimizer_eq_some_iff_level apart]
  constructor
  · rintro ⟨level, sided, nonzero⟩
    rcases sided.lt_or_eq with bends | straight
    · have lowest := (strictMinAt_hermiteValue_iff apart).mpr ⟨level, bends⟩
      exact .inl ⟨lowest, (strictMaxAt_middle_iff_of_strictMinAt apart lowest).not.mpr nonzero⟩
    · have flat := (div_eq_zero_iff.mp straight.symm).resolve_right width
      rw [bow_half_of_flat flat] at nonzero
      refine .inr ⟨(terraceAt_hermiteValue_iff apart).mpr
        ⟨level, flat, left_ne_zero_of_mul nonzero⟩, fun middle => ?_⟩
      rw [(share_eq_half_iff apart).mpr middle, sub_self, mul_zero] at nonzero
      exact nonzero rfl
  · rintro (⟨lowest, apartMax⟩ | ⟨terrace, offMiddle⟩)
    · obtain ⟨level, bends⟩ := (strictMinAt_hermiteValue_iff apart).mp lowest
      exact ⟨level, bends.le,
        (strictMaxAt_middle_iff_of_strictMinAt apart lowest).not.mp apartMax⟩
    · obtain ⟨level, flat, twisted⟩ := (terraceAt_hermiteValue_iff apart).mp terrace
      refine ⟨level, ?_, ?_⟩
      · rw [flat, zero_div]
      · rw [bow_half_of_flat flat]
        refine mul_ne_zero twisted (sub_ne_zero.mpr fun same => offMiddle ?_)
        exact (share_eq_half_iff apart).mp same.symm

end Bow

/-! True samples of a polynomial. -/

section Cubic

variable {p : Polynomial ℝ} (cubic : p.natDegree ≤ 3)

include cubic

theorem eval_eq (t : ℝ) :
    p.eval t = p.coeff 0 + p.coeff 1 * t + p.coeff 2 * t ^ 2 + p.coeff 3 * t ^ 3 := by
  rw [Polynomial.eval_eq_sum_range' (Nat.lt_succ_of_le cubic)]
  simp [Finset.sum_range_succ]

theorem expands_eval (t : ℝ) :
    Expands p.eval t (p.coeff 1 + 2 * p.coeff 2 * t + 3 * p.coeff 3 * t ^ 2)
      (p.coeff 2 + 3 * p.coeff 3 * t) (p.coeff 3) := by
  intro s
  dsimp only
  rw [eval_eq cubic, eval_eq cubic]
  ring

theorem hermiteValue_eval {x y : ℝ} (apart : x ≠ y) :
    (on p.eval x).hermiteValue (on p.eval y) = p.eval := by
  have width : y - x ≠ 0 := sub_ne_zero.mpr apart.symm
  have slope (t : ℝ) := (expands_eval cubic t).hasDerivAt.deriv
  funext t
  rw [hermiteValue, on, on, slope, slope]
  simp only [eval_eq cubic, two, three, Nat.cast_ofNat]
  field_simp
  ring

end Cubic

/-- The fit finds the strict minimum of the cubic, unless the maximum is exactly midway, or else a
terrace that is not. So it finds the minimum and nothing else just if neither of these happens;
and from two true samples of a cubic polynomial it finds the minimum just if the maximum is not
midway. -/
theorem cubicMinimizer_finds (a b : Sample ℝ) (apart : a.step ≠ b.step) :
    let cubic := a.hermiteValue b
    let middle := (a.step + b.step) / 2
    (∀ step, a.cubicMinimizer b = some step ↔
      (StrictMinAt cubic step ∧ ¬ StrictMaxAt cubic middle) ∨
        (TerraceAt cubic step ∧ step ≠ middle)) ∧
    ((∀ step, a.cubicMinimizer b = some step ↔ StrictMinAt cubic step) ↔
      (∀ step, StrictMinAt cubic step → ¬ StrictMaxAt cubic middle) ∧
        ∀ step, TerraceAt cubic step → step = middle) ∧
    ∀ (p : Polynomial ℝ) (least : ℝ), p.natDegree ≤ 3 → a = .on p.eval a.step →
      b = .on p.eval b.step → StrictMinAt p.eval least →
      (a.cubicMinimizer b = some least ↔ ¬ StrictMaxAt p.eval middle) := by
  intro cubic middle
  have found (step : ℝ) : a.cubicMinimizer b = some step ↔
      (StrictMinAt cubic step ∧ ¬ StrictMaxAt cubic middle) ∨
        (TerraceAt cubic step ∧ step ≠ middle) := cubicMinimizer_eq_some_iff_extremum apart
  have plain {step : ℝ} (lowest : StrictMinAt cubic step) : ¬ TerraceAt cubic step :=
    fun terrace => not_strictMinAt_of_oneWay terrace.2 lowest
  refine ⟨found, ⟨fun finds => ⟨fun step lowest => ?_, fun step terrace => ?_⟩, ?_⟩, ?_⟩
  · rcases (found step).mp ((finds step).mpr lowest) with ⟨_, apartMax⟩ | ⟨terrace, _⟩
    · exact apartMax
    · exact absurd terrace (plain lowest)
  · by_contra offMiddle
    exact plain ((finds step).mp ((found step).mpr (.inr ⟨terrace, offMiddle⟩))) terrace
  · rintro ⟨apartMax, midway⟩ step
    rw [found]
    constructor
    · rintro (⟨lowest, _⟩ | ⟨terrace, offMiddle⟩)
      · exact lowest
      · exact absurd (midway step terrace) offMiddle
    · exact fun lowest => .inl ⟨lowest, apartMax step lowest⟩
  · intro p least degree left right lowest
    have same : cubic = p.eval := by
      change a.hermiteValue b = _
      rw [left, right]
      exact hermiteValue_eval degree apart
    rw [← same] at lowest ⊢
    rw [found, or_iff_left fun terrace => plain lowest terrace.1, and_iff_right lowest]

/-- The minimum of `t ^ 3 - 3 * t` at one is found from the steps three and minus two, but not
from minus four and two: the maximum is midway between them. -/
theorem cubicMinimizer_finds_cube :
    let p : Polynomial ℝ := .X ^ 3 - .C 3 * .X
    p.natDegree ≤ 3 ∧ StrictMinAt p.eval 1 ∧ StrictMaxAt p.eval (-1) ∧
      (3 : ℝ) ≠ -2 ∧ (on p.eval 3).cubicMinimizer (on p.eval (-2)) = some 1 ∧
      (-4 : ℝ) ≠ 2 ∧ (on p.eval (-4)).cubicMinimizer (on p.eval 2) ≠ some 1 := by
  intro p
  have degree : p.natDegree ≤ 3 := by
    simp only [p]
    compute_degree
  have value (t : ℝ) : p.eval t = t ^ 3 - 3 * t := by simp [p]
  have around (t : ℝ) : Expands p.eval t (3 * t ^ 2 - 3) (3 * t) 1 := by
    intro s
    dsimp only
    rw [value, value]
    ring
  have lowest : StrictMinAt p.eval 1 := (around 1).strictMinAt_iff.mpr (by norm_num)
  have highest : StrictMaxAt p.eval (-1) := (around (-1)).strictMaxAt_iff.mpr (by norm_num)
  have first : (3 : ℝ) ≠ -2 := by norm_num
  have second : (-4 : ℝ) ≠ 2 := by norm_num
  obtain ⟨_, _, finds⟩ := cubicMinimizer_finds (on p.eval 3) (on p.eval (-2)) first
  obtain ⟨_, _, misses⟩ := cubicMinimizer_finds (on p.eval (-4)) (on p.eval 2) second
  refine ⟨degree, lowest, highest, first, ?_, second, ?_⟩
  · refine (finds p 1 degree rfl rfl lowest).mpr fun bent => ?_
    have level := ((around _).strictMaxAt_iff.mp bent).1
    norm_num [on] at level
  · refine (misses p 1 degree rfl rfl lowest).not.mpr (not_not.mpr ?_)
    have midway : ((on p.eval (-4)).step + (on p.eval 2).step) / 2 = -1 := by norm_num [on]
    rw [midway]
    exact highest

/-- The minimum of `-t + 5 / 2 * t ^ 2 - 2 * t ^ 3` at a third is missed from its samples at zero
and one, for the maximum is at one half. From samples at zero and three the terrace of
`2 * (2 - t / 6) ^ 3` is taken for a minimum, which that function does not have. -/
theorem cubicMinimizer_misses :
    let a : Sample ℝ := ⟨0, 0, -1⟩
    let b : Sample ℝ := ⟨1, -1 / 2, -2⟩
    let c : Sample ℝ := ⟨0, 16, -4⟩
    let d : Sample ℝ := ⟨3, 27 / 4, -9 / 4⟩
    (a.step ≠ b.step ∧ StrictMinAt (a.hermiteValue b) (1 / 3) ∧ a.cubicMinimizer b = none) ∧
      c.step ≠ d.step ∧ c.cubicMinimizer d = some 12 ∧
        ∀ step, ¬ StrictMinAt (c.hermiteValue d) step := by
  intro a b c d
  have first : a.step ≠ b.step := by norm_num [a, b]
  have second : c.step ≠ d.step := by norm_num [c, d]
  have hump (t : ℝ) :
      Expands (a.hermiteValue b) t (-1 + 5 * t - 6 * t ^ 2) (5 / 2 - 6 * t) (-2) := by
    intro s
    simp only [hermiteValue, a, b, two, three, Nat.cast_ofNat]
    ring
  have slide : Expands (c.hermiteValue d) 12 0 0 (-1 / 108) := by
    intro s
    simp only [hermiteValue, c, d, two, three, Nat.cast_ofNat]
    ring
  have lowest : StrictMinAt (a.hermiteValue b) (1 / 3) :=
    (hump _).strictMinAt_iff.mpr (by norm_num)
  have highest : StrictMaxAt (a.hermiteValue b) ((a.step + b.step) / 2) :=
    (hump _).strictMaxAt_iff.mpr (by norm_num [a, b])
  have terrace : TerraceAt (c.hermiteValue d) 12 := slide.terraceAt_iff.mpr (by norm_num)
  refine ⟨⟨first, lowest, Option.eq_none_iff_forall_ne_some.mpr fun step found => ?_⟩, second, ?_,
    fun step => not_strictMinAt_of_oneWay terrace.2⟩
  · rcases (cubicMinimizer_eq_some_iff_extremum first).mp found with ⟨_, apartMax⟩ | ⟨level, _⟩
    · exact apartMax highest
    · exact not_strictMinAt_of_oneWay level.2 lowest
  · refine (cubicMinimizer_eq_some_iff_extremum second).mpr (.inr ⟨terrace, ?_⟩)
    norm_num [c, d]

end Sample

end Descent

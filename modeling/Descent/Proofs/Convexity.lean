import Mathlib.Analysis.Convex.Deriv
import Descent.Proofs.Bracketing
import Descent.Proofs.Cubic

/-!
The careful search of a convex function. A convex function lies above its tangents, so its slope at
one sample says on which side nothing is lower. A search that is told true values and slopes
therefore never loses a minimum: all that is lower than its best sample lies inside its bracket,
and neither of the exits for suspicious data is taken.
-/

namespace Descent

open Scalar

/-! Above the tangent. -/

section Tangent

variable {φ : ℝ → ℝ} {x y : ℝ} (convex : ConvexOn ℝ Set.univ φ) (smooth : Differentiable ℝ φ)

include convex smooth

theorem tangent_le (x y : ℝ) : φ x + deriv φ x * (y - x) ≤ φ y := by
  rcases lt_trichotomy x y with behind | rfl | before
  · have chord : deriv φ x ≤ slope φ x y :=
      convex.deriv_le_slope (Set.mem_univ x) (Set.mem_univ y) behind (smooth x)
    rw [slope_def_field, le_div_iff₀ (sub_pos.mpr behind)] at chord
    linarith
  · rw [sub_self, mul_zero, add_zero]
  · have chord : slope φ y x ≤ deriv φ x :=
      convex.slope_le_deriv (Set.mem_univ y) (Set.mem_univ x) before (smooth x)
    rw [slope_def_field, div_le_iff₀ (sub_pos.mpr before)] at chord
    linarith

theorem lt_before (falls : deriv φ x < 0) (before : y < x) : φ x < φ y := by
  have tangent := tangent_le convex smooth x y
  have climbed := mul_pos_of_neg_of_neg falls (sub_neg.mpr before)
  linarith

theorem lt_behind (rises : 0 < deriv φ x) (behind : x < y) : φ x < φ y := by
  have tangent := tangent_le convex smooth x y
  have climbed := mul_pos rises (sub_pos.mpr behind)
  linarith

theorem le_before (falls : deriv φ x ≤ 0) (before : y ≤ x) : φ x ≤ φ y := by
  have tangent := tangent_le convex smooth x y
  have climbed := mul_nonneg_of_nonpos_of_nonpos falls (sub_nonpos.mpr before)
  linarith

theorem le_behind (rises : 0 ≤ deriv φ x) (behind : x ≤ y) : φ x ≤ φ y := by
  have tangent := tangent_le convex smooth x y
  have climbed := mul_nonneg rises (sub_nonneg.mpr behind)
  linarith

theorem deriv_nonpos (behind : x < y) (lower : φ y ≤ φ x) : deriv φ x ≤ 0 :=
  not_lt.mp fun rises => (lt_behind convex smooth rises behind).not_ge lower

theorem deriv_nonneg (before : y < x) (lower : φ y ≤ φ x) : 0 ≤ deriv φ x :=
  not_lt.mp fun falls => (lt_before convex smooth falls before).not_ge lower

end Tangent

namespace Sample

noncomputable def on (φ : ℝ → ℝ) (step : ℝ) : Sample ℝ where
  step
  value := φ step
  slope := deriv φ step

end Sample

namespace Bracket

/-! What taking in a true sample keeps. -/

section Enclosure

variable {φ : ℝ → ℝ} {ends next : Ends ℝ} {step : ℝ}

def Ends.outset (ends : Ends ℝ) : ℝ := ends.left.elim 0 Sample.step

/-- The bracket keeps true samples, nothing outside of it is lower than the best, and no minimum
was counted as lost. The best lies behind the left end if it rises, and is the start if there is
no left end. -/
structure Encloses (φ : ℝ → ℝ) (ends : Ends ℝ) : Prop where
  best : ends.best = .on φ ends.best.step
  left : ∀ left ∈ ends.left, left = .on φ left.step
  alone : ends.left = none → ends.best.step = 0
  rising : 0 < ends.best.slope → ends.outset < ends.best.step
  before : ∀ x ≤ ends.outset, ends.best.value ≤ φ x
  behind : ∀ right ∈ ends.right, ∀ x ≥ right.step, ends.best.value ≤ φ x
  kept : ends.lostMinima = 0

namespace Encloses

theorem value (encloses : Encloses φ ends) : ends.best.value = φ ends.best.step :=
  congrArg Sample.value encloses.best

theorem slope (encloses : Encloses φ ends) : ends.best.slope = deriv φ ends.best.step :=
  congrArg Sample.slope encloses.best

theorem le_of_worse (encloses : Encloses φ ends)
    (worse : (Sample.on φ step).isBetterThan ends.best = false) :
    φ ends.best.step ≤ φ step := by
  rw [← encloses.value]
  exact (Prod.Lex.toLex_le_toLex'.mp (Sample.not_isBetterThan_iff_rank.mp worse)).1

theorem le_of_better (encloses : Encloses φ ends)
    (better : (Sample.on φ step).isBetterThan ends.best = true) :
    φ step ≤ φ ends.best.step := by
  rw [← encloses.value]
  exact (Prod.Lex.toLex_le_toLex'.mp (Sample.isBetterThan_iff_rank.mp better).le).1

theorem apart_of_better (encloses : Encloses φ ends)
    (better : (Sample.on φ step).isBetterThan ends.best = true) : step ≠ ends.best.step := by
  rintro rfl
  rw [← encloses.best] at better
  exact lt_irrefl _ (Sample.isBetterThan_iff_rank.mp better)

variable (convex : ConvexOn ℝ Set.univ φ) (smooth : Differentiable ℝ φ)

include convex smooth

/-- A lower sample further out takes the place of the best. -/
theorem ahead (encloses : Encloses φ ends)
    (better : (Sample.on φ step).isBetterThan ends.best = true) (further : ends.best.step < step) :
    Encloses φ { ends with left := some ends.best, best := .on φ step } := by
  have lower := encloses.le_of_better better
  constructor
  · rfl
  · rintro left ⟨⟩
    exact encloses.best
  · exact nofun
  · exact fun _ => further
  · intro x within
    have falls := deriv_nonpos convex smooth further lower
    exact lower.trans (le_before convex smooth falls within)
  · intro right member x outside
    exact (lower.trans_eq encloses.value.symm).trans (encloses.behind right member x outside)
  · exact encloses.kept

/-- A lower sample before the best takes its place. As there is none before the start, an end is
known there. -/
theorem back (encloses : Encloses φ ends) (descends : deriv φ 0 < 0)
    (better : (Sample.on φ step).isBetterThan ends.best = true)
    (near : ¬ ends.best.step < step) :
    Encloses φ { ends with right := some ends.best, best := .on φ step } := by
  have lower := encloses.le_of_better better
  have before : step < ends.best.step :=
    lt_of_le_of_ne (not_lt.mp near) (encloses.apart_of_better better)
  constructor
  · rfl
  · exact encloses.left
  · intro missing
    have origin := encloses.alone missing
    rw [origin] at lower before
    exact absurd lower (lt_before convex smooth descends before).not_ge
  · intro rises
    refine lt_of_not_ge fun within => ?_
    have higher : φ ends.best.step ≤ φ step := by
      rw [← encloses.value]
      exact encloses.before step within
    exact (lt_behind convex smooth rises before).not_ge higher
  · intro x within
    exact (lower.trans_eq encloses.value.symm).trans (encloses.before x within)
  · rintro right ⟨⟩ x outside
    have rises := deriv_nonneg convex smooth before lower
    exact lower.trans (le_behind convex smooth rises outside)
  · exact encloses.kept

theorem beyond (encloses : Encloses φ ends)
    (worse : (Sample.on φ step).isBetterThan ends.best = false)
    (further : ends.best.step < step) :
    0 ≤ deriv φ step ∧ ∀ x ≥ step, ends.best.value ≤ φ x := by
  have higher := encloses.le_of_worse worse
  have rises := deriv_nonneg convex smooth further higher
  refine ⟨rises, fun x outside => ?_⟩
  rw [encloses.value]
  exact higher.trans (le_behind convex smooth rises outside)

theorem under (encloses : Encloses φ ends)
    (worse : (Sample.on φ step).isBetterThan ends.best = false)
    (near : ¬ ends.best.step < step) (apart : 0 < ends.best.slope → step ≠ ends.best.step) :
    deriv φ step ≤ 0 ∧ ∀ x ≤ step, ends.best.value ≤ φ x := by
  have higher := encloses.le_of_worse worse
  have falls : deriv φ step ≤ 0 := by
    rcases (not_lt.mp near).lt_or_eq with before | same
    · exact deriv_nonpos convex smooth before higher
    · rw [same, ← encloses.slope]
      exact not_lt.mp fun rises => apart rises same
  refine ⟨falls, fun x outside => ?_⟩
  rw [encloses.value]
  exact higher.trans (le_before convex smooth falls outside)

/-- All in all, a true sample keeps the enclosure, unless it repeats a best sample that rises. -/
theorem places (encloses : Encloses φ ends) (descends : deriv φ 0 < 0)
    (apart : 0 < ends.best.slope → step ≠ ends.best.step)
    (placed : Places ends (.on φ step) next) : Encloses φ next := by
  cases placed with
  | ahead better further => exact encloses.ahead convex smooth better further
  | back better near => exact encloses.back convex smooth descends better near
  | beyond worse further =>
    obtain ⟨rises, outside⟩ := encloses.beyond convex smooth worse further
    have notFalling : ¬ (Sample.on φ step).slope < 0 := rises.not_gt
    rw [if_neg notFalling]
    split
    · exact { encloses with behind := by rintro right ⟨⟩; exact outside }
    · exact encloses
  | before worse near =>
    obtain ⟨falls, outside⟩ := encloses.under convex smooth worse near apart
    have notRising : ¬ 0 < (Sample.on φ step).slope := falls.not_gt
    rw [if_neg notRising]
    split
    · constructor
      · exact encloses.best
      · rintro left ⟨⟩
        rfl
      · exact nofun
      · exact fun rises => lt_of_le_of_ne (not_lt.mp near) (apart rises)
      · exact outside
      · exact encloses.behind
      · exact encloses.kept
    · exact encloses

/-- Before a best sample that rises there is an end that falls: were it flat, nothing would be
lower. -/
theorem left_falls (encloses : Encloses φ ends) (descends : deriv φ 0 < 0)
    (rises : 0 < ends.best.slope) :
    ∃ left, ends.left = some left ∧ left.step < ends.best.step ∧ left.slope < 0 := by
  have known : ends.left ≠ none := by
    intro missing
    rw [encloses.slope, encloses.alone missing] at rises
    exact rises.not_gt descends
  obtain ⟨left, known⟩ := Option.ne_none_iff_exists'.mp known
  have outset : ends.outset = left.step := by
    rw [Ends.outset, known]
    rfl
  have ordered : left.step < ends.best.step := by
    rw [← outset]
    exact encloses.rising rises
  have lower : φ ends.best.step ≤ φ left.step := by
    rw [← encloses.value]
    exact encloses.before left.step outset.ge
  refine ⟨left, known, ordered, ?_⟩
  rw [encloses.left left known]
  change deriv φ left.step < 0
  refine lt_of_le_of_ne (deriv_nonpos convex smooth ordered lower) fun flat => ?_
  have least (x : ℝ) : φ ends.best.step ≤ φ x := by
    have tangent := tangent_le convex smooth left.step x
    rw [flat, zero_mul, add_zero] at tangent
    exact lower.trans tangent
  have level : deriv φ ends.best.step = 0 :=
    IsLocalMin.deriv_eq_zero (Filter.Eventually.of_forall least)
  rw [encloses.slope, level] at rises
  exact lt_irrefl 0 rises

end Encloses

end Enclosure

/-! Bisections after a loss. -/

section Bisections

variable {F : Type} [Scalar F] (tuning : Tuning F) (bracket : Bracket F) (sample : Sample F)

theorem measureWidth_bisectionsWithLost :
    (bracket.measureWidth tuning).bisectionsWithLost = bracket.bisectionsWithLost := by
  unfold measureWidth
  split <;> rfl

variable {tuning bracket sample}

theorem merge_bisectionsWithLost {bisected : Bool}
    (kept : (bracket.merge tuning sample bisected).lostMinima = 0) :
    (bracket.merge tuning sample bisected).bisectionsWithLost = bracket.bisectionsWithLost := by
  cases bisected with
  | false =>
    exact (measureWidth_bisectionsWithLost tuning _).trans (place_bisectionsWithLost _ sample)
  | true =>
    have none := (congrArg Ends.lostMinima (measureWidth_ends tuning _)).symm.trans kept
    exact (measureWidth_bisectionsWithLost tuning _).trans
      ((if_neg none.not_gt).trans (place_bisectionsWithLost _ sample))

end Bisections

/-! The states of a search that is told the truth. -/

section Truthful

variable {φ : ℝ → ℝ} {bracket : Bracket ℝ} {tuning : Tuning ℝ} {firstStep step : ℝ}

/-- The bracket encloses all that is lower, and nothing in it is suspicious. -/
structure Sound (φ : ℝ → ℝ) (bracket : Bracket ℝ) : Prop where
  encloses : Encloses φ bracket.ends
  patient : bracket.bisectionsWithLost = 0

theorem Sound.not_lostMinimum (sound : Sound φ bracket)
    (limit : 0 < tuning.bisectionsWithLostLimit) :
    bracket.exit? tuning ≠ some .lostMinimum := by
  intro ends
  have spent : tuning.bisectionsWithLostLimit ≤ bracket.bisectionsWithLost := meets_of_exit? ends
  rw [sound.patient] at spent
  exact spent.not_gt limit

theorem Sound.not_suspect (sound : Sound φ bracket) : bracket.exit? tuning ≠ some .suspect := by
  intro ends
  have lost : tuning.lostMinimumLimit < bracket.lostMinima := (meets_of_exit? ends).1
  rw [show bracket.lostMinima = 0 from sound.encloses.kept] at lost
  exact Nat.not_lt_zero _ lost

theorem Sound.inside (sound : Sound φ bracket) {x : ℝ} (lower : φ x < bracket.best.value) :
    bracket.left.elim 0 Sample.step < x ∧ ∀ right ∈ bracket.right, x < right.step := by
  constructor
  · exact lt_of_not_ge fun before => (sound.encloses.before x before).not_gt lower
  · intro right member
    exact lt_of_not_ge fun behind => (sound.encloses.behind right member x behind).not_gt lower

variable (convex : ConvexOn ℝ Set.univ φ) (smooth : Differentiable ℝ φ) (descends : deriv φ 0 < 0)

include convex smooth descends

theorem Sound.merge (sound : Sound φ bracket)
    (apart : 0 < bracket.best.slope → step ≠ bracket.best.step) (bisected : Bool) :
    Sound φ (bracket.merge tuning (.on φ step) bisected) := by
  have encloses := sound.encloses.places convex smooth descends apart
    (merge_places tuning bracket (.on φ step) bisected)
  constructor
  · exact encloses
  · exact (merge_bisectionsWithLost encloses.kept).trans sound.patient

theorem Sound.next_before (sound : Sound φ bracket) (rises : 0 < bracket.best.slope) :
    (bracket.next tuning firstStep).1 < bracket.best.step := by
  obtain ⟨left, known, ordered, falls⟩ :=
    sound.encloses.left_falls convex smooth descends rises
  obtain ⟨fitted, fit, -, before⟩ := Sample.exists_fitMinimizer falls rises ordered
  have middle : half * (left.step + bracket.best.step) < bracket.best.step := by
    change left.step < bracket.best.step at ordered
    rw [half_eq]
    linarith
  have between : bracket.subInterval = some (left, bracket.best) := by
    rw [subInterval, if_neg rises.not_gt, if_pos rises]
    exact congrArg (Option.map _) known
  rw [next, show bracket.left = some left from known]
  change (bracket.nextStep tuning).1 < bracket.best.step
  rw [nextStep, between]
  dsimp only
  split
  · exact middle
  · rw [show left.fitMinimizer bracket.best = some fitted from fit]
    dsimp only
    split
    · exact before
    · exact middle

variable (tuning firstStep) in
/-- A true answer keeps the search sound. -/
theorem Sound.absorb_next (sound : Sound φ bracket) :
    Sound φ (bracket.absorb tuning (.on φ (bracket.next tuning firstStep).1)
      (bracket.next tuning firstStep).2) := by
  have counted : Sound φ { bracket with probes := bracket.probes + 1 } :=
    ⟨sound.encloses, sound.patient⟩
  exact counted.merge convex smooth descends
    (fun rises => (sound.next_before convex smooth descends rises).ne) _

theorem stageAt_sound (tuning : Tuning ℝ) (firstStep : ℝ) {S : Type}
    {probe : ℝ → S → Id (Sample ℝ × S)}
    (truthful : ∀ step carried, (probe step carried).1 = .on φ step) {first : Bracket ℝ × S}
    (sound : Sound φ first.1) (k : ℕ) : Sound φ (stageAt tuning probe firstStep first k).1 := by
  induction k with
  | zero => exact sound
  | succ k ih =>
    have told := ih.absorb_next tuning firstStep convex smooth descends
    rw [← truthful _ (stageAt tuning probe firstStep first k).2] at told
    exact told

theorem opening_sound [Limited ℝ] (tuning : Tuning ℝ) {seed : Option (Sample ℝ)}
    (truthful : ∀ sample ∈ seed, sample = .on φ sample.step) :
    ∃ opened, opening tuning (.on φ 0) seed = .ok opened ∧ opened.probes = 0 ∧
      Sound φ opened := by
  obtain ⟨created, creates, fresh, patient⟩ : ∃ created, create (.on φ 0) = .ok created ∧
      created.probes = 0 ∧ created.bisectionsWithLost = 0 :=
    ⟨_, if_pos descends, rfl, rfl⟩
  have start : created.best = .on φ 0 := congrArg Ends.best (create_ends creates)
  have encloses : Encloses φ created.ends := by
    rw [create_ends creates]
    constructor
    · rfl
    · exact nofun
    · exact fun _ => rfl
    · exact fun rises => absurd descends rises.not_gt
    · exact fun x before => le_before convex smooth descends.le before
    · exact nofun
    · rfl
  rw [opening, creates]
  cases seed with
  | none => exact ⟨created, rfl, fresh, encloses, patient⟩
  | some sample =>
    refine ⟨_, rfl, (merge_probes tuning created sample false).trans fresh, ?_⟩
    rw [truthful sample rfl]
    refine Sound.merge convex smooth descends ⟨encloses, patient⟩ (fun rises => ?_) false
    rw [start] at rises
    exact absurd descends rises.not_gt

end Truthful

end Bracket

/-- A careful search of a convex function that it is told the truth about never counts a minimum
as lost. Neither of the exits for suspicious data is taken, and at every stage all that is lower
than the best sample lies between the ends, the left one being the start as long as none is
known. -/
theorem search_encloses [Limited ℝ] (tuning : Tuning ℝ)
    (limit : 0 < tuning.bisectionsWithLostLimit) (φ : ℝ → ℝ) (convex : ConvexOn ℝ Set.univ φ)
    (smooth : Differentiable ℝ φ) (descends : deriv φ 0 < 0) (seed : Option (Sample ℝ))
    (known : ∀ sample ∈ seed, sample = .on φ sample.step) (firstStep : ℝ) {S : Type}
    (probe : ℝ → S → Id (Sample ℝ × S)) (carried : S)
    (truthful : ∀ step carried, (probe step carried).1 = .on φ step) :
    ∃ opened, Bracket.opening tuning (.on φ 0) seed = .ok opened ∧
      (∀ k,
        let bracket := (stageAt tuning probe firstStep (opened, carried) k).1
        bracket.lostMinima = 0 ∧
        bracket.exit? tuning ≠ some .lostMinimum ∧ bracket.exit? tuning ≠ some .suspect ∧
        ∀ x, φ x < bracket.best.value →
          bracket.left.elim 0 Sample.step < x ∧ ∀ right ∈ bracket.right, x < right.step) ∧
      (search tuning probe firstStep opened carried).1.exit ≠ .lostMinimum ∧
      (search tuning probe firstStep opened carried).1.exit ≠ .suspect := by
  obtain ⟨opened, opens, fresh, sound⟩ :=
    Bracket.opening_sound convex smooth descends tuning known
  have stages (k : ℕ) :
      Bracket.Sound φ (stageAt tuning probe firstStep (opened, carried) k).1 :=
    Bracket.stageAt_sound convex smooth descends tuning firstStep truthful sound k
  refine ⟨opened, opens, fun k => ⟨(stages k).encloses.kept, (stages k).not_lostMinimum limit,
    (stages k).not_suspect, fun x => (stages k).inside⟩, ?_⟩
  obtain ⟨last, ends⟩ := exists_exit tuning probe firstStep (opened, carried) fresh
  constructor
  · intro lost
    exact (stages last).not_lostMinimum limit (ends.trans (congrArg some lost))
  · intro suspect
    exact (stages last).not_suspect (ends.trans (congrArg some suspect))

/-- Five is known of a parabola, and its minimum stays inside the bracket until it is found. -/
theorem search_encloses_parabola :
    let φ : ℝ → ℝ := fun t => (t - 1) ^ 2
    0 < (Tuning.standard : Tuning ℝ).bisectionsWithLostLimit ∧ ConvexOn ℝ Set.univ φ ∧
    Differentiable ℝ φ ∧ deriv φ 0 < 0 ∧
    ∃ (_ : Limited ℝ) (opened : Bracket ℝ),
      Bracket.opening .standard (.on φ 0) (some (.on φ 5)) = .ok opened ∧
      ∀ k,
        let bracket := (stageAt .standard (fun step carried => (.on φ step, carried)) 3
          (opened, ()) k).1
        bracket.best.value ≤ 0 ∨
          bracket.left.elim 0 Sample.step < 1 ∧ ∀ right ∈ bracket.right, 1 < right.step := by
  intro φ
  have slope (t : ℝ) : HasDerivAt φ (2 * (t - 1)) t := by
    have inner : HasDerivAt (fun t : ℝ => t - 1) 1 t := (hasDerivAt_id t).sub_const 1
    simpa using inner.fun_pow 2
  have limit : 0 < (Tuning.standard : Tuning ℝ).bisectionsWithLostLimit := Nat.zero_lt_two
  have smooth : Differentiable ℝ φ := fun t => (slope t).differentiableAt
  have descends : deriv φ 0 < 0 := by
    rw [(slope 0).deriv]
    norm_num
  have convex : ConvexOn ℝ Set.univ φ := by
    refine ⟨convex_univ, fun x _ y _ a b first second whole => ?_⟩
    obtain rfl : b = 1 - a := eq_sub_of_add_eq' whole
    have gap : 0 ≤ a * (1 - a) * (x - y) ^ 2 := mul_nonneg (mul_nonneg first second) (sq_nonneg _)
    simp only [φ, smul_eq_mul]
    linarith
  let _ : Limited ℝ := ⟨0, 8⟩
  obtain ⟨opened, opens, stages, -⟩ := search_encloses .standard limit φ convex smooth descends
    (some (.on φ 5)) (by rintro sample ⟨⟩; rfl) 3 (fun step carried => (.on φ step, carried)) ()
    (fun _ _ => rfl)
  refine ⟨limit, convex, smooth, descends, inferInstance, opened, opens, fun k => ?_⟩
  obtain ⟨-, -, -, inside⟩ := stages k
  refine or_iff_not_imp_left.mpr fun above => inside 1 ?_
  have lowest : φ 1 = 0 := by norm_num [φ]
  rw [lowest]
  exact not_le.mp above

end Descent

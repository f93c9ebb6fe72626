import Mathlib.Data.List.Induction
import Descent.Proofs.Journal
import Descent.Proofs.Lawful

/-!
The tally of a list of evaluations, and what its best point is: the first evaluation whose value
is least among the defined ones, if any value is below infinity, and otherwise the point that the
tally was created with.
-/

namespace Descent

open Scalar

variable {F : Type} {n : Nat}

/-- Of all the evaluations, `least` is the first with the lowest defined value. -/
structure Leads [Scalar F] (earlier : List (Evaluation F n)) (least : Evaluation F n)
    (later : List (Evaluation F n)) : Prop where
  defined : isNaN least.value = false
  below : ∀ other ∈ earlier, isNaN other.value = false → least.value < other.value
  atMost : ∀ other ∈ later, isNaN other.value = false → least.value ≤ other.value

namespace Tally

variable [Unbounded F]

/-- The tally after some evaluations that followed its creation at `x`. -/
def after (x : Vector F n) (evaluations : List (Evaluation F n)) : Tally F n :=
  evaluations.foldl
    (fun tally evaluation => tally.add evaluation.point evaluation.value evaluation.gradient)
    (create x)

theorem after_append (x : Vector F n) (evaluations : List (Evaluation F n))
    (last : Evaluation F n) :
    after x (evaluations ++ [last]) =
      (after x evaluations).add last.point last.value last.gradient :=
  List.foldl_append

theorem after_evaluations (x : Vector F n) (evaluations : List (Evaluation F n)) :
    (after x evaluations).evaluations = evaluations.length := by
  induction evaluations using List.reverseRecOn with
  | nil => rfl
  | append_singleton evaluations last ih => simp [after_append, add, ih]

variable [Lawful F]

open Lawful

-- A lower value takes the lead.
theorem leads_last {earlier later : List (Evaluation F n)} {least last : Evaluation F n}
    (leads : Leads earlier least later) (lower : last.value < least.value) :
    Leads (earlier ++ least :: later) last [] where
  defined := isNaN_eq_false_iff.mpr (defined_of_le (le_of_lt lower)).1
  below := by
    intro other member defined
    rcases List.mem_append.mp member with before | tail
    · exact lt_of_lt_of_le lower (le_of_lt (leads.below other before defined))
    · rcases List.mem_cons.mp tail with rfl | behind
      · exact lower
      · exact lt_of_lt_of_le lower (leads.atMost other behind defined)
  atMost := by
    intro other member
    exact absurd member List.not_mem_nil

-- Any other value does not, an equal one included: the first of several stays in front.
theorem leads_kept {earlier later : List (Evaluation F n)} {least last : Evaluation F n}
    (leads : Leads earlier least later) (notLower : ¬ last.value < least.value) :
    Leads earlier least (later ++ [last]) where
  defined := leads.defined
  below := leads.below
  atMost := by
    intro other member defined
    rcases List.mem_append.mp member with before | tail
    · exact leads.atMost other before defined
    · obtain rfl := List.mem_singleton.mp tail
      exact le_of_not_lt (isNaN_eq_false_iff.mp defined)
        (isNaN_eq_false_iff.mp leads.defined) notLower

-- The first value below infinity takes the lead from the point the tally was created with.
theorem leads_first {evaluations : List (Evaluation F n)} {last : Evaluation F n}
    (none : ∀ other ∈ evaluations, ¬ other.value < Unbounded.infinity)
    (lower : last.value < Unbounded.infinity) : Leads evaluations last [] where
  defined := isNaN_eq_false_iff.mpr (defined_of_le (le_of_lt lower)).1
  below := by
    intro other member defined
    exact lt_of_lt_of_le lower
      (le_of_not_lt (isNaN_eq_false_iff.mp defined) infinity_defined (none other member))
  atMost := by
    intro other member
    exact absurd member List.not_mem_nil

/-- What the best point is after some evaluations. -/
theorem after_best (x : Vector F n) (evaluations : List (Evaluation F n)) :
    (∃ earlier least later, evaluations = earlier ++ least :: later ∧
      Leads earlier least later ∧ least.value < Unbounded.infinity ∧
      (after x evaluations).best = ⟨least.point, least.gradient, least.value⟩) ∨
    ((∀ other ∈ evaluations, ¬ other.value < Unbounded.infinity) ∧
      (after x evaluations).best = ⟨x, Kernel.zeros n, Unbounded.infinity⟩) := by
  induction evaluations using List.reverseRecOn with
  | nil => exact Or.inr ⟨fun _ member => absurd member List.not_mem_nil, rfl⟩
  | append_singleton evaluations last ih =>
    rw [after_append]
    rcases ih with ⟨earlier, least, later, split, leads, finite, best⟩ | ⟨none, best⟩
    · by_cases lower : last.value < least.value
      · left
        refine ⟨evaluations, last, [], rfl, split ▸ leads_last leads lower, ?_, ?_⟩
        · exact lt_of_lt_of_le lower (le_of_lt finite)
        · simp [add, best, lower]
      · left
        refine ⟨earlier, least, later ++ [last], by simp [split], leads_kept leads lower,
          finite, ?_⟩
        simp [add, best, lower]
    · by_cases lower : last.value < Unbounded.infinity
      · left
        exact ⟨evaluations, last, [], rfl, leads_first none lower, lower,
          by simp [add, best, lower]⟩
      · right
        refine ⟨?_, by simp [add, best, lower]⟩
        intro other member
        rcases List.mem_append.mp member with before | tail
        · exact none other before
        · exact List.mem_singleton.mp tail ▸ lower

theorem after_best_le (x : Vector F n) (evaluations later : List (Evaluation F n)) :
    (after x (evaluations ++ later)).best.value ≤ (after x evaluations).best.value := by
  induction later using List.reverseRecOn with
  | nil =>
    rw [List.append_nil]
    rcases after_best x evaluations with ⟨_, least, _, _, leads, _, best⟩ | ⟨_, best⟩
    · rw [best]
      exact isNaN_eq_false_iff.mp leads.defined
    · rw [best]
      exact infinity_defined
  | append_singleton later last ih =>
    rw [← List.append_assoc, after_append, add]
    dsimp only
    split
    · next lower => exact le_trans (le_of_lt lower) ih
    · exact ih

theorem after_best_value (x : Vector F n) (evaluations later : List (Evaluation F n)) :
    (after x (evaluations ++ later)).best.value = (after x evaluations).best.value ∨
      (after x (evaluations ++ later)).best.value < (after x evaluations).best.value := by
  induction later using List.reverseRecOn with
  | nil =>
    rw [List.append_nil]
    exact Or.inl rfl
  | append_singleton later last ih =>
    rw [← List.append_assoc, after_append, add]
    dsimp only
    split
    · next lower =>
      right
      rcases ih with same | below
      · rw [← same]
        exact lower
      · exact lt_of_lt_of_le lower (le_of_lt below)
    · exact ih

theorem after_best_top (x : Vector F n) (evaluations : List (Evaluation F n)) :
    (after x evaluations).best.value = Unbounded.infinity ∨
      (after x evaluations).best.value < Unbounded.infinity := by
  rcases after_best x evaluations with ⟨_, _, _, _, _, below, best⟩ | ⟨_, best⟩
  · rw [best]
    exact Or.inr below
  · rw [best]
    exact Or.inl rfl

theorem after_best_defined (x : Vector F n) (evaluations : List (Evaluation F n)) :
    (after x evaluations).best.value ≤ (after x evaluations).best.value := by
  rcases after_best_top x evaluations with top | below
  · rw [top]
    exact infinity_defined
  · exact (defined_of_le (le_of_lt below)).1

theorem leads_of_finite {x : Vector F n} {evaluations : List (Evaluation F n)}
    (finite : isFinite (after x evaluations).best.value = true) :
    ∃ earlier least later, evaluations = earlier ++ least :: later ∧
      Leads earlier least later ∧ least.value < Unbounded.infinity ∧
      (after x evaluations).best = ⟨least.point, least.gradient, least.value⟩ := by
  rcases after_best x evaluations with found | ⟨_, best⟩
  · exact found
  · rw [best, isFinite_infinity] at finite
    exact absurd finite Bool.false_ne_true

end Tally

end Descent

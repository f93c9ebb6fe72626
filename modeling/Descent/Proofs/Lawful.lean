import Descent.Scalar

/-!
Laws that an arithmetic may keep. Defined numbers are those that compare with themselves. Among
them the comparisons form a total preorder with infinity on top; an undefined number compares
with nothing. Two numbers may be equal without being the same, as the zeros of both signs are.
Nothing is said about rounding.
-/

namespace Descent

open Scalar

class Lawful (F : Type) [Unbounded F] : Prop where
  defined_of_le {x y : F} : x ≤ y → x ≤ x ∧ y ≤ y
  le_trans {x y z : F} : x ≤ y → y ≤ z → x ≤ z
  le_total {x y : F} : x ≤ x → y ≤ y → x ≤ y ∨ y ≤ x
  lt_iff {x y : F} : x < y ↔ x ≤ y ∧ ¬ y ≤ x
  beq_iff {x y : F} : (x == y) = true ↔ x ≤ y ∧ y ≤ x
  le_infinity {x : F} : x ≤ x → x ≤ Unbounded.infinity
  isFinite_infinity : isFinite (Unbounded.infinity : F) = false
  zero_defined : (0 : F) ≤ 0
  neg_defined {x : F} : x ≤ x → -x ≤ -x
  neg_le_of_neg_le {x y : F} : -x ≤ y → -y ≤ x
  abs_defined_iff {x : F} : Scalar.abs x ≤ Scalar.abs x ↔ x ≤ x
  zero_add_zero : (0 : F) + 0 = 0
  zero_mul_zero : (0 : F) * 0 = 0
  sqrt_zero : sqrt (0 : F) = 0
  square_neg (x : F) : x * (-1) * (x * (-1)) = x * x

/-- The one thing that going down a line needs: steepest descent descends. -/
class Opposing (F : Type) [Scalar F] : Prop where
  neg_lt_zero {x : F} : 0 < x → -x < 0

class Forward (F : Type) [Scalar F] : Prop where
  zero_lt_one : (0 : F) < 1

/-- The finite numbers are those between both infinities. -/
class Enclosed (F : Type) [Unbounded F] : Prop where
  isFinite_iff {x : F} :
    isFinite x = true ↔ -Unbounded.infinity < x ∧ x < Unbounded.infinity

/-- No magnitude but that of a zero comes down to zero. -/
class Magnitudes (F : Type) [Scalar F] : Prop where
  abs_le_zero_iff {x : F} : Scalar.abs x ≤ 0 ↔ isZero x = true

namespace Lawful

variable {F : Type} [Unbounded F] [Lawful F] {x y z : F}

theorem infinity_defined : (Unbounded.infinity : F) ≤ Unbounded.infinity :=
  (defined_of_le (le_infinity zero_defined)).2

theorem isNaN_eq_false_iff : isNaN x = false ↔ x ≤ x := by
  rw [isNaN, Bool.not_eq_false', beq_iff]
  exact and_self_iff

theorem le_of_lt (less : x < y) : x ≤ y := (lt_iff.mp less).1

theorem not_le_of_lt (less : x < y) : ¬ y ≤ x := (lt_iff.mp less).2

theorem lt_irrefl (x : F) : ¬ x < x := fun less => not_le_of_lt less (le_of_lt less)

theorem lt_of_le_of_lt (atMost : x ≤ y) (less : y < z) : x < z :=
  lt_iff.mpr ⟨le_trans atMost (le_of_lt less),
    fun back => not_le_of_lt less (le_trans back atMost)⟩

theorem lt_of_lt_of_le (less : x < y) (atMost : y ≤ z) : x < z :=
  lt_iff.mpr ⟨le_trans (le_of_lt less) atMost,
    fun back => not_le_of_lt less (le_trans atMost back)⟩

theorem le_of_not_lt (left : x ≤ x) (right : y ≤ y) (notLess : ¬ x < y) : y ≤ x := by
  rcases le_total right left with back | forth
  · exact back
  · exact Classical.byContradiction fun apart => notLess (lt_iff.mpr ⟨forth, apart⟩)

theorem not_infinity_lt (x : F) : ¬ Unbounded.infinity < x := by
  intro less
  exact not_le_of_lt less (le_infinity (defined_of_le (le_of_lt less)).2)

theorem le_of_beq_neg_infinity (bottom : (x == -Unbounded.infinity) = true) (defined : y ≤ y) :
    x ≤ y := by
  have least : -Unbounded.infinity ≤ y := neg_le_of_neg_le (le_infinity (neg_defined defined))
  exact le_trans (beq_iff.mp bottom).1 least

/-! The larger of two numbers, where an undefined one yields. -/

theorem maxNum_defined (left : x ≤ x) : maxNum x y ≤ maxNum x y := by
  rw [maxNum, if_neg (by simpa using isNaN_eq_false_iff.mpr left)]
  split
  · next less => exact (defined_of_le (le_of_lt less)).2
  · exact left

theorem maxNum_le_iff (left : x ≤ x) : maxNum x y ≤ z ↔ x ≤ z ∧ (y ≤ y → y ≤ z) := by
  rw [maxNum, if_neg (by simpa using isNaN_eq_false_iff.mpr left)]
  split
  · next less =>
    have step := le_of_lt less
    exact ⟨fun bound => ⟨le_trans step bound, fun _ => bound⟩,
      fun bounds => bounds.2 (defined_of_le step).2⟩
  · next notLess =>
    exact ⟨fun bound => ⟨bound, fun right => le_trans (le_of_not_lt left right notLess) bound⟩,
      fun bounds => bounds.1⟩

end Lawful

section Largest

variable {F : Type} [Unbounded F] [Lawful F]

theorem foldl_maxNum_defined (numbers : List F) {start : F} (defined : start ≤ start) :
    numbers.foldl maxNum start ≤ numbers.foldl maxNum start := by
  induction numbers generalizing start with
  | nil => exact defined
  | cons number rest ih => exact ih (Lawful.maxNum_defined defined)

-- Undefined numbers are passed over: the bound says nothing about them.
theorem foldl_maxNum_le_iff (numbers : List F) {start bound : F} (defined : start ≤ start) :
    numbers.foldl maxNum start ≤ bound ↔
      start ≤ bound ∧ ∀ number ∈ numbers, number ≤ number → number ≤ bound := by
  induction numbers generalizing start with
  | nil => simp
  | cons number rest ih =>
    rw [List.foldl_cons, ih (Lawful.maxNum_defined defined), Lawful.maxNum_le_iff defined,
      List.forall_mem_cons, and_assoc]

end Largest

end Descent

import Mathlib.Analysis.Real.Sqrt
import Mathlib.Data.Rat.Sqrt
import Descent.Proofs.Exact
import Descent.Proofs.Lawful

/-!
Exact numbers to minimize over. A minimization also needs a root, and a value that stands for
"nothing found yet". An ordered field has no value above all others, so any of its numbers may
stand there; what is proved over exact numbers holds whichever it is.
-/

namespace Descent

open Scalar

/-- The number that stands for infinity, and the storage of one number. -/
class Limited (F : Type) where
  infinity : F
  bytes : Nat

instance Exact.unbounded {F : Type} [Field F] [LinearOrder F] [Exact F] [Limited F] :
    Unbounded F where
  infinity := Limited.infinity
  bytes := Limited.bytes F

section Signs

variable {F : Type} [Field F] [LinearOrder F] [IsStrictOrderedRing F] [Exact F]

instance : Opposing F where
  neg_lt_zero := neg_neg_of_pos

instance : Forward F where
  zero_lt_one := one_pos

end Signs

class Rooted (F : Type) [Field F] [LinearOrder F] [Exact F] : Prop where
  sqrt_nonneg (x : F) : 0 ≤ Scalar.sqrt x
  sqrt_mul_self (x : F) : Scalar.sqrt (x * x) = |x|

class Euclidean (F : Type) [Field F] [LinearOrder F] [Exact F] : Prop extends Rooted F where
  mul_self_sqrt {x : F} : 0 ≤ x → Scalar.sqrt x * Scalar.sqrt x = x

noncomputable instance : Exact ℝ where
  sqrt := Real.sqrt
  epsilon := 0

instance : Euclidean ℝ where
  sqrt_nonneg := Real.sqrt_nonneg
  sqrt_mul_self := Real.sqrt_mul_self_eq_abs
  mul_self_sqrt := Real.mul_self_sqrt

/-- Rational numbers with the roots that are rational. They can be computed with. -/
def Fraction : Type := ℚ

namespace Fraction

instance : Field Fraction := inferInstanceAs (Field ℚ)

instance : LinearOrder Fraction := inferInstanceAs (LinearOrder ℚ)

instance : IsStrictOrderedRing Fraction := inferInstanceAs (IsStrictOrderedRing ℚ)

instance : Exact Fraction where
  sqrt := Rat.sqrt
  epsilon := 0

instance : Rooted Fraction where
  sqrt_nonneg := Rat.sqrt_nonneg
  sqrt_mul_self := Rat.sqrt_eq

instance : Limited Fraction where
  infinity := ((1000000 : Nat) : Fraction)
  bytes := 8

end Fraction

end Descent

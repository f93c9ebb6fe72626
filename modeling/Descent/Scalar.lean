/-!
The arithmetic that every method of this library computes in. A scalar type carries field
operations, an order whose comparisons may be false both ways, an absolute value and a root.
Nothing is assumed about rounding: the same definitions run in binary64 and binary32 and can be
read over exact numbers. What a comparison answers on a number that is not one is part of the
instance, so code that must be safe there says `¬ a ≤ b` where it means it.
-/

namespace Descent

/-- Numbers to compute with. The comparisons are decidable and need not be total. -/
class Scalar (F : Type) extends Zero F, One F, NatCast F, OfScientific F, Neg F,
    Add F, Sub F, Mul F, Div F, LT F, LE F, BEq F where
  lessDecidable : DecidableLT F
  atMostDecidable : DecidableLE F
  abs : F → F
  sqrt : F → F
  isFinite : F → Bool
  epsilon : F

attribute [reducible, instance] Scalar.lessDecidable Scalar.atMostDecidable

/-- Scalars with a value above all others, which stands for "nothing found yet". -/
class Unbounded (F : Type) extends Scalar F where
  infinity : F
  bytes : Nat

namespace Scalar

variable {F : Type} [Scalar F]

/-- A number that differs from itself is no number. -/
def isNaN (x : F) : Bool := !(x == x)

def isZero (x : F) : Bool := x == 0

/-- The larger operand; an undefined one yields to the other. -/
def maxNum (x y : F) : F :=
  if isNaN x then y else if x < y then y else x

def minNum (x y : F) : F :=
  if isNaN x then y else if y < x then y else x

def two : F := ((2 : Nat) : F)

def three : F := ((3 : Nat) : F)

def half : F := OfScientific.ofScientific 5 true 1

end Scalar

end Descent

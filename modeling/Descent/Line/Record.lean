import Descent.Line.Sample

/-!
The best and the second best sample of a line, each with the gradient found there.
-/

namespace Descent

structure Marked (F : Type) (n : Nat) where
  sample : Sample F
  gradient : Vector F n

structure Record (F : Type) (n : Nat) where
  best : Marked F n
  second : Option (Marked F n)

namespace Record

variable {F : Type} {n : Nat}

def create (start : Sample F) (gradient : Vector F n) : Record F n :=
  { best := ⟨start, gradient⟩, second := none }

variable [Scalar F]

def add (record : Record F n) (sample : Sample F) (gradient : Vector F n) : Record F n :=
  if sample.isBetterThan record.best.sample then
    { best := ⟨sample, gradient⟩, second := some record.best }
  else if record.second.all fun second => sample.isBetterThan second.sample then
    { record with second := some ⟨sample, gradient⟩ }
  else record

/-- The best entry that is not at `step`. -/
def reference (record : Record F n) (step : F) : Option (Marked F n) :=
  if record.best.sample.sameStep step then
    record.second.filter fun second => !second.sample.sameStep step
  else some record.best

end Record

end Descent

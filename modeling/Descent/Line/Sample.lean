import Descent.Scalar

/-!
What is known about one point of a search line, and the cubic and straight models through two
such points.
-/

namespace Descent

open Scalar

structure Sample (F : Type) where
  step : F
  value : F
  slope : F

namespace Sample

variable {F : Type}

/-- An undefined value is kept as infinity, so that it never wins a comparison. -/
def make [Unbounded F] (step value slope : F) : Sample F where
  step
  value := if isNaN value then Unbounded.infinity else value
  slope

variable [Scalar F]

/-- The lower value wins, and of equal values the flatter sample. -/
def isBetterThan (sample other : Sample F) : Bool :=
  sample.value < other.value ||
    (sample.value == other.value && Scalar.abs sample.slope < Scalar.abs other.slope)

def sameStep (sample : Sample F) (step : F) : Bool :=
  Scalar.abs (sample.step - step) ≤
    sqrt Scalar.epsilon * maxNum (Scalar.abs sample.step) (Scalar.abs step)

/-- The local minimum of the cubic that matches value and slope of both samples. -/
def cubicMinimizer (a b : Sample F) : Option F :=
  let width := b.step - a.step
  if isZero width then none
  else
    let d1 := a.slope + b.slope - three * (a.value - b.value) / (a.step - b.step)
    let discriminant := d1 * d1 - a.slope * b.slope
    if 0 ≤ discriminant then
      let root := sqrt discriminant
      let d2 := if width < 0 then -root else root
      let denominator := b.slope - a.slope + d2 + d2
      if isZero denominator then none
      else
        let step := b.step - width * (b.slope + d2 - d1) / denominator
        if isFinite step then some step else none
    else none

/-- The zero of the straight line through the slopes, where it rises. -/
def secantMinimizer (a b : Sample F) : Option F :=
  let width := b.step - a.step
  let change := b.slope - a.slope
  if 0 < change * width then
    let step := a.step - a.slope * width / change
    if isFinite step then some step else none
  else none

def fitMinimizer (a b : Sample F) : Option F :=
  (cubicMinimizer a b).or (secantMinimizer a b)

def hermiteValue (a b : Sample F) (step : F) : F :=
  let width := b.step - a.step
  let u := (step - a.step) / width
  let u2 := u * u
  let u3 := u2 * u
  let h00 := two * u3 - three * u2 + 1
  let h10 := u3 - two * u2 + u
  let h01 := three * u2 - two * u3
  let h11 := u3 - u2
  h00 * a.value + h10 * width * a.slope + h01 * b.value + h11 * width * b.slope

end Sample

end Descent

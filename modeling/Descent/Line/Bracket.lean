import Descent.Line.Sample
import Descent.Tuning

/-!
The careful line search. Up to three samples are kept along the line, `left`, `best` and `right`
in the order of their steps, where `best` is not beaten by any sample seen. Without a sample
beyond a minimum the search expands; afterwards it fits inside the part of the bracket in which
the slope changes sign. Once a bracket keeps too much of its width the search only bisects.

All decisions are functions of the samples seen, `exit?`, `next` and `merge`. `search` alternates
them with probes of the line.
-/

namespace Descent

open Scalar

inductive Exit where
  | sufficientDecrease
  /-- Bisected repeatedly after a minimum had dropped out of the bracket. -/
  | lostMinimum
  /-- Many dropped minima and many bisections between flat slopes. -/
  | suspect
  | stale
  | probeLimit
  deriving DecidableEq

def Exit.label : Exit → String
  | sufficientDecrease => "SufficientDecrease"
  | lostMinimum => "LostMinimum"
  | suspect => "Suspect"
  | stale => "Stale"
  | probeLimit => "ProbeLimit"

structure Bracket (F : Type) where
  start : Sample F
  left : Option (Sample F)
  best : Sample F
  right : Option (Sample F)
  /-- Only bisect from now on. -/
  robust : Bool
  /-- Distance of the ends when both were last known. -/
  width : F
  probes : Nat
  lostMinima : Nat
  suspectBisections : Nat
  bisectionsWithLost : Nat
  stale : Nat

structure Found (F : Type) where
  best : Sample F
  exit : Exit
  probes : Nat

namespace Bracket

variable {F : Type}

def create [Unbounded F] (start : Sample F) : Except Fault (Bracket F) :=
  if start.slope < 0 then
    .ok
      { start
        left := none
        best := start
        right := none
        robust := false
        width := Unbounded.infinity
        probes := 0
        lostMinima := 0
        suspectBisections := 0
        bisectionsWithLost := 0
        stale := 0 }
  else .error .uphill

variable [Scalar F] (tuning : Tuning F)

def decreasedEnough (bracket : Bracket F) : Bool :=
  !isZero bracket.best.step &&
    bracket.best.value ≤ bracket.start.value +
      tuning.sufficientDecrease * bracket.best.step * bracket.start.slope &&
    Scalar.abs bracket.best.slope ≤ tuning.slopeShrink * Scalar.abs bracket.start.slope

def exit? (bracket : Bracket F) : Option Exit :=
  if bracket.decreasedEnough tuning then some .sufficientDecrease
  else if tuning.bisectionsWithLostLimit ≤ bracket.bisectionsWithLost then some .lostMinimum
  else if tuning.lostMinimumLimit < bracket.lostMinima ∧
      tuning.suspectBisectionLimit < bracket.suspectBisections then some .suspect
  else if tuning.staleProbeLimit ≤ bracket.stale then some .stale
  else if tuning.maxProbes ≤ bracket.probes then some .probeLimit
  else none

def subInterval (bracket : Bracket F) : Option (Sample F × Sample F) :=
  let best := bracket.best
  if best.slope < 0 then bracket.right.map fun right => (best, right)
  else if 0 < best.slope then bracket.left.map fun left => (left, best)
  else
    match bracket.left with
    | some left => some (left, best)
    | none => bracket.right.map fun right => (best, right)

/-- Where the fit through `left` and `best` has its minimum, but at least twice as far out as
`best` and at most `maxStepGrowth` times as far. -/
def expansionStep (bracket : Bracket F) : F :=
  let best := bracket.best
  let lower := best.step + best.step
  let upper := tuning.maxStepGrowth * best.step
  let fitted := (bracket.left.bind fun left => left.fitMinimizer best).getD upper
  minNum (maxNum fitted lower) upper

def nextStep (bracket : Bracket F) : F × Bool :=
  match bracket.subInterval with
  | none => (bracket.expansionStep tuning, false)
  | some (a, b) =>
      let midpoint := half * (a.step + b.step)
      if bracket.robust then (midpoint, true)
      else
        let margin := half * (1 - tuning.fitInterior) * (b.step - a.step)
        match a.fitMinimizer b with
        | some step =>
            if a.step + margin ≤ step ∧ step ≤ b.step - margin then (step, false)
            else (midpoint, true)
        | none => (midpoint, true)

/-- `firstStep` is used while only the start is known. -/
def next (bracket : Bracket F) (firstStep : F) : F × Bool :=
  if bracket.left.isNone && bracket.right.isNone then (firstStep, false)
  else bracket.nextStep tuning

def repeats (bracket : Bracket F) (sample : Sample F) : Bool :=
  (sample.value == bracket.best.value && sample.slope == bracket.best.slope) ||
    bracket.best.sameStep sample.step ||
    bracket.left.any (·.sameStep sample.step) ||
    bracket.right.any (·.sameStep sample.step)

/-- Take the sample in as the new best or as a closer end. One that is not the best and still
descends away from it shows that a minimum lies outside. -/
def place (bracket : Bracket F) (sample : Sample F) : Bracket F :=
  if sample.isBetterThan bracket.best then
    if bracket.best.step < sample.step then
      { bracket with left := some bracket.best, best := sample }
    else
      { bracket with right := some bracket.best, best := sample }
  else if bracket.best.step < sample.step then
    { bracket with
      right :=
        if bracket.right.all fun right => sample.step < right.step then some sample
        else bracket.right
      lostMinima := if sample.slope < 0 then bracket.lostMinima + 1 else bracket.lostMinima }
  else
    { bracket with
      left :=
        if bracket.left.all fun left => left.step < sample.step then some sample
        else bracket.left
      lostMinima := if 0 < sample.slope then bracket.lostMinima + 1 else bracket.lostMinima }

def looksFlat (bracket : Bracket F) : Bool :=
  match bracket.left, bracket.right with
  | some left, some right =>
      let slope := bracket.best.slope
      let largest := [left.slope, slope, right.slope].foldl
        (fun largest x => maxNum largest (Scalar.abs x)) 0
      let spread := maxNum (Scalar.abs (left.slope - slope)) (Scalar.abs (right.slope - slope))
      spread ≤ tuning.suspectSlopeRatio * largest
  | _, _ => false

def countBisection (bracket : Bracket F) : Bracket F :=
  { bracket with
    bisectionsWithLost :=
      if 0 < bracket.lostMinima then bracket.bisectionsWithLost + 1
      else bracket.bisectionsWithLost
    suspectBisections :=
      if bracket.looksFlat tuning then bracket.suspectBisections + 1
      else bracket.suspectBisections }

def measureWidth (bracket : Bracket F) : Bracket F :=
  match bracket.left, bracket.right with
  | some left, some right =>
      let width := right.step - left.step
      { bracket with
        robust := bracket.robust || tuning.bracketShrink * bracket.width < width
        width }
  | _, _ => bracket

def merge (bracket : Bracket F) (sample : Sample F) (bisected : Bool) : Bracket F :=
  let counted := { bracket with stale := if bracket.repeats sample then bracket.stale + 1 else 0 }
  let placed := counted.place sample
  let judged := if bisected then placed.countBisection tuning else placed
  judged.measureWidth tuning

def absorb (bracket : Bracket F) (sample : Sample F) (bisected : Bool) : Bracket F :=
  { bracket with probes := bracket.probes + 1 }.merge tuning sample bisected

theorem place_probes (bracket : Bracket F) (sample : Sample F) :
    (bracket.place sample).probes = bracket.probes := by
  unfold place
  split <;> split <;> rfl

theorem measureWidth_probes (bracket : Bracket F) :
    (bracket.measureWidth tuning).probes = bracket.probes := by
  unfold measureWidth
  split <;> rfl

theorem merge_probes (bracket : Bracket F) (sample : Sample F) (bisected : Bool) :
    (bracket.merge tuning sample bisected).probes = bracket.probes := by
  cases bisected <;>
    simp [merge, measureWidth_probes, countBisection, place_probes]

theorem absorb_probes (bracket : Bracket F) (sample : Sample F) (bisected : Bool) :
    (bracket.absorb tuning sample bisected).probes = bracket.probes + 1 := by
  simp [absorb, merge_probes]

theorem probes_lt_of_exit?_none (bracket : Bracket F)
    (goesOn : bracket.exit? tuning = none) : bracket.probes < tuning.maxProbes := by
  grind [exit?]

end Bracket

/-- Probe the line until the bracket says that it is enough. `S` is what the prober carries. -/
def search {m : Type → Type} [Monad m] {F S : Type} [Scalar F] (tuning : Tuning F)
    (probe : F → S → m (Sample F × S)) (firstStep : F) (bracket : Bracket F) (carried : S) :
    m (Found F × S) := do
  match _goesOn : bracket.exit? tuning with
  | some exit => pure ({ best := bracket.best, exit, probes := bracket.probes }, carried)
  | none =>
      let (step, bisected) := bracket.next tuning firstStep
      let (sample, carried) ← probe step carried
      search tuning probe firstStep (bracket.absorb tuning sample bisected) carried
termination_by tuning.maxProbes - bracket.probes
decreasing_by
  have below := bracket.probes_lt_of_exit?_none tuning ‹_›
  rw [Bracket.absorb_probes]
  omega

end Descent

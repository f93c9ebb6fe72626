import Descent.Fault
import Descent.Grid
import Descent.Kernel

/-!
Triangular factors of a square matrix, found column by column with implicitly scaled pivoting.
The factors share one grid: the unit lower triangle strictly below the diagonal, the upper one on
and above it. Position `j` of the pivots is the row that was exchanged with row `j` when column
`j` was finished, so the interchanges are undone by applying them in order.

A matrix with a row of zeros is singular. A pivot that comes out as zero otherwise is replaced
by a tiny number, and the factorization goes on.
-/

namespace Descent

open Scalar

inductive Failure where
  | singular
  | tooManyTrials (trials : Nat)
  deriving DecidableEq

def Failure.text : Failure → String
  | singular => "singular matrix in LU decomposition"
  | tooManyTrials trials => s!"no convergence after {trials} Newton-Raphson trials"

structure Workspace (F : Type) (n : Nat) where
  matrix : Grid F n n
  scale : Vector F n
  permutation : Vector Nat n

namespace Workspace

/-- Storage of unchecked shape. The rules are tested in this order. -/
def ofParts {F : Type} {rows columns s p : Nat} (matrix : Grid F rows columns)
    (scale : Vector F s) (permutation : Vector Nat p) : Except Fault (Workspace F rows) :=
  if square : columns = rows then
    if scales : s = rows then
      if slots : p = rows then
        .ok ⟨matrix.map (·.cast square), scale.cast scales, permutation.cast slots⟩
      else .error (.precondition .permutationLength)
    else .error (.precondition .scaleLength)
  else .error (.precondition .square)

end Workspace

/-- The state after some columns are finished. -/
structure Elimination (F : Type) (n : Nat) where
  factors : Grid F n n
  scale : Vector F n
  pivots : Vector (Fin n) n
  parity : F

namespace Elimination

variable {F : Type} [Scalar F] {n : Nat}

/-- Stands in for a pivot that is exactly zero. -/
def tiny : F := 1e-20

def weight? (row : Vector F n) : Option F :=
  let largest := row.foldl (fun largest x => maxNum largest (Scalar.abs x)) 0
  if isZero largest then none else some (1 / largest)

/-- Weigh the rows from the first on. A row without a weight ends it; the weights found by then
are kept with the failure. -/
def weights (matrix : Grid F n n) (scale : Vector F n) : Except (Vector F n) (Vector F n) :=
  Fin.foldlM n
    (fun scale i => match weight? (matrix.get i) with
      | some weight => .ok (scale.set i weight i.isLt)
      | none => .error scale)
    scale

def reduced (a : Grid F n n) (i j : Fin n) : F :=
  Fin.foldl (min i.val j.val)
    (fun sum k =>
      let k : Fin n := ⟨k, by omega⟩
      sum - a.entry i k * a.entry k j)
    (a.entry i j)

/-- Reduce column `j` from its first row on; later rows see the earlier ones reduced. -/
def reduceColumn (a : Grid F n n) (j : Fin n) : Grid F n n :=
  Fin.foldl n (fun a i => a.put i j (reduced a i j)) a

/-- The row on or below the diagonal whose weighted entry is largest, the last one among equals,
with that weighted entry. -/
def bestRow (a : Grid F n n) (scale : Vector F n) (j : Fin n) : F × Fin n :=
  Fin.foldl n
    (fun best i =>
      let figure := scale.get i * Scalar.abs (a.entry i j)
      if j ≤ i ∧ best.1 ≤ figure then (figure, i) else best)
    (0, j)

def exchange (state : Elimination F n) (j best : Fin n) : Elimination F n :=
  if best = j then state
  else
    { state with
      factors := state.factors.exchange best j
      parity := -state.parity
      scale := state.scale.set best (state.scale.get j) best.isLt }

def mendPivot (a : Grid F n n) (j : Fin n) : Grid F n n :=
  if isZero (a.entry j j) then a.put j j tiny else a

def divideColumn (a : Grid F n n) (j : Fin n) : Grid F n n :=
  let inverse := 1 / a.entry j j
  Fin.foldl n (fun a i => if j < i then a.put i j (a.entry i j * inverse) else a) a

def column (state : Elimination F n) (j : Fin n) : Elimination F n :=
  let reduced := reduceColumn state.factors j
  let best := (bestRow reduced state.scale j).2
  let exchanged := exchange { state with factors := reduced } j best
  { exchanged with
    factors := divideColumn (mendPivot exchanged.factors j) j
    pivots := exchanged.pivots.set j best j.isLt }

def run (matrix : Grid F n n) (scale : Vector F n) : Elimination F n :=
  Fin.foldl n column
    { factors := matrix, scale, pivots := Vector.ofFn id, parity := 1 }

end Elimination

namespace Workspace

variable {F : Type} [Scalar F] {n : Nat}

/-- Overwrite the matrix with its factors and answer the parity of the row interchanges. On
failure only the scale has changed, up to the first row of zeros. -/
def decompose (work : Workspace F n) : Except Failure F × Workspace F n :=
  match Elimination.weights work.matrix work.scale with
  | .error scale => (.error .singular, { work with scale })
  | .ok scale =>
      let done := Elimination.run work.matrix scale
      (.ok done.parity,
        { matrix := done.factors
          scale := done.scale
          permutation := done.pivots.map Fin.val })

end Workspace

structure Factorization (F : Type) (n : Nat) where
  factors : Grid F n n
  pivots : Vector (Fin n) n
  parity : F

namespace Factorization

variable {F : Type} [Scalar F] {n : Nat}

def ofMatrix (matrix : Grid F n n) : Except Failure (Factorization F n) :=
  match Elimination.weights matrix (Kernel.zeros n) with
  | .error _ => .error .singular
  | .ok scale =>
      let done := Elimination.run matrix scale
      .ok { factors := done.factors, pivots := done.pivots, parity := done.parity }

/-- The right-hand side on its way, and the first row at which it was not zero. -/
structure Forward (F : Type) (n : Nat) where
  values : Vector F n
  start : Option (Fin n)

/-- Undo interchange `i` and eliminate with the unit lower triangle. Columns before the first
nonzero entry have nothing to contribute and are left out. -/
def forwardRow (factors : Grid F n n) (pivots : Vector (Fin n) n) (state : Forward F n)
    (i : Fin n) : Forward F n :=
  let source := pivots.get i
  let value := state.values.get source
  let values := state.values.set source (state.values.get i) source.isLt
  match state.start with
  | some start =>
      let value := Fin.foldl i.val
        (fun sum j =>
          let j : Fin n := ⟨j, by omega⟩
          if start ≤ j then sum - factors.entry i j * values.get j else sum)
        value
      { values := values.set i value i.isLt, start := some start }
  | none =>
      { values := values.set i value i.isLt, start := if isZero value then none else some i }

def backwardRow (factors : Grid F n n) (i : Fin n) (values : Vector F n) : Vector F n :=
  let rest := Fin.foldl n
    (fun sum j => if i < j then sum - factors.entry i j * values.get j else sum)
    (values.get i)
  values.set i (rest / factors.entry i i) i.isLt

/-- Overwrite a right-hand side with the solution, given factors and interchanges. -/
def substitute (factors : Grid F n n) (pivots : Vector (Fin n) n) (b : Vector F n) :
    Vector F n :=
  let forward := Fin.foldl n (forwardRow factors pivots) { values := b, start := none }
  Fin.foldr n (backwardRow factors) forward.values

/-- The same for operands of unchecked shape: every interchange must name a row, and no row may
be shorter than the grid is high. -/
def substituteChecked {rows columns : Nat} (factors : Grid F rows columns)
    (permutation : Array Nat) (b : Array F) : Except Fault (Array F) :=
  if lengths : permutation.size = rows ∧ b.size = rows then
    if wide : rows ≤ columns then
      if inside : ∀ i (below : i < permutation.size), permutation[i] < rows then
        let square : Grid F rows rows :=
          factors.map fun row => (row.take rows).cast (Nat.min_eq_left wide)
        let pivots : Vector (Fin rows) rows :=
          Vector.ofFn fun i => ⟨permutation[i], inside i (by omega)⟩
        .ok (substitute square pivots ⟨b, lengths.2⟩).toArray
      else .error .outOfBounds
    else .error .outOfBounds
  else .error .lengthMismatch

def solve (lu : Factorization F n) (b : Vector F n) : Vector F n :=
  substitute lu.factors lu.pivots b

def solveChecked (lu : Factorization F n) (b : Array F) : Except Fault (Array F) :=
  if fits : b.size = n then .ok (lu.solve ⟨b, fits⟩).toArray
  else .error (.precondition .rightHandSide)

def determinant (lu : Factorization F n) : F :=
  Fin.foldl n (fun product i => product * lu.factors.entry i i) lu.parity

end Factorization

end Descent

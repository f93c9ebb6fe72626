import Descent.Difference
import Descent.Kernel

/-!
Functions and constraints of a constrained problem. A constraint compares a value with zero and
carries an offset, the shift at which its penalty vanishes.

Variables are named by an index type. As stated by a user the indices are natural numbers;
`rename?` turns them into positions of a vector of known length, and everything that evaluates
gradients works on positions, so that no index can miss there.
-/

namespace Descent

open Scalar

inductive Comparison where
  | equal
  | greaterThan
  | lessThan
  deriving DecidableEq

def Comparison.label : Comparison → String
  | equal => "Equal"
  | greaterThan => "GreaterThan"
  | lessThan => "LessThan"

namespace Comparison

variable {F : Type} [Scalar F]

def violation (comparison : Comparison) (value : F) : F :=
  match comparison with
  | equal => Scalar.abs value
  | greaterThan => maxNum (-value) 0
  | lessThan => maxNum value 0

def isActive (comparison : Comparison) (value offset : F) : Bool :=
  match comparison with
  | equal => true
  | greaterThan => value < offset
  | lessThan => offset < value

/-- The penalized distance, where there is a penalty. -/
def shifted? (comparison : Comparison) (value offset : F) : Option F :=
  if comparison.isActive value offset then some (value - offset) else none

/-- The nearest offset of the sign that the comparison allows. -/
def clamp (comparison : Comparison) (offset : F) : F :=
  match comparison with
  | equal => offset
  | greaterThan => maxNum offset 0
  | lessThan => minNum offset 0

end Comparison

/-- A weighted sum of variables, less a right-hand side. -/
structure Linear (I F : Type) where
  terms : List (I × F)
  rhs : F

/-- A function of the point. It may know its partial derivatives by the listed variables; those
it leaves unwritten keep their previous values. -/
structure Nonlinear (I : Type) (m : Type → Type) (F : Type) (n : Nat) where
  arity : Nat
  indices : Vector I arity
  partials : Vector F arity
  value : Vector F n → m F
  /-- The partial derivatives at a point, written over the given ones, or nothing. -/
  gradient : Vector F n → Vector F arity → m (Option (Vector F arity))

inductive Form (I : Type) (m : Type → Type) (F : Type) (n : Nat) where
  | linear (function : Linear I F)
  | nonlinear (function : Nonlinear I m F n)

structure Constraint (I : Type) (m : Type → Type) (F : Type) (n : Nat) where
  form : Form I m F n
  comparison : Comparison
  offset : F

/-! Naming variables. -/

def position? (n : Nat) (index : Nat) : Option (Fin n) :=
  if inside : index < n then some ⟨index, inside⟩ else none

section Naming

variable {I J : Type} {m : Type → Type} {F : Type} {n : Nat}

namespace Linear

def rename? (f : I → Option J) (function : Linear I F) : Option (Linear J F) := do
  let terms ← function.terms.mapM fun term => return (← f term.1, term.2)
  pure { terms, rhs := function.rhs }

def rename (f : I → J) (function : Linear I F) : Linear J F :=
  { terms := function.terms.map fun term => (f term.1, term.2), rhs := function.rhs }

end Linear

namespace Nonlinear

def rename? (f : I → Option J) (function : Nonlinear I m F n) : Option (Nonlinear J m F n) := do
  let indices ← function.indices.mapM f
  pure { function with indices }

def rename (f : I → J) (function : Nonlinear I m F n) : Nonlinear J m F n :=
  { function with indices := function.indices.map f }

end Nonlinear

namespace Constraint

def rename? (f : I → Option J) (constraint : Constraint I m F n) :
    Option (Constraint J m F n) := do
  let form ← match constraint.form with
    | .linear function => Form.linear <$> function.rename? f
    | .nonlinear function => Form.nonlinear <$> function.rename? f
  pure { form, comparison := constraint.comparison, offset := constraint.offset }

def rename (f : I → J) (constraint : Constraint I m F n) : Constraint J m F n :=
  { form := match constraint.form with
      | .linear function => .linear (function.rename f)
      | .nonlinear function => .nonlinear (function.rename f)
    comparison := constraint.comparison
    offset := constraint.offset }

end Constraint

end Naming

namespace Linear

variable {F : Type} [Scalar F] {n : Nat}

def value (function : Linear (Fin n) F) (x : Vector F n) : F :=
  function.terms.foldl (fun sum term => sum + term.2 * x.get term.1) (-function.rhs)

def addGradient (function : Linear (Fin n) F) (scale : F) (gradient : Vector F n) :
    Vector F n :=
  function.terms.foldl
    (fun gradient term =>
      gradient.set term.1 (gradient.get term.1 + scale * term.2) term.1.isLt)
    gradient

end Linear

namespace Nonlinear

variable {F : Type} [Scalar F] {m : Type → Type} [Monad m] {n : Nat}

def create {I : Type} (indices : Array I) (value : Vector F n → m F)
    (gradient : Vector F n → Vector F indices.size → m (Option (Vector F indices.size))) :
    Nonlinear I m F n :=
  { arity := indices.size
    indices := indices.toVector
    partials := Kernel.zeros indices.size
    value
    gradient }

def addPartials {arity : Nat} (indices : Vector (Fin n) arity) (partials : Vector F arity)
    (scale : F) (gradient : Vector F n) : Vector F n :=
  (indices.zip partials).foldl
    (fun gradient part =>
      gradient.set part.1 (gradient.get part.1 + scale * part.2) part.1.isLt)
    gradient

/-- The partial derivatives at `x`, in the order of the indices: known ones if the function
writes them, otherwise difference quotients. -/
def derive (function : Nonlinear (Fin n) m F n) (steps : Vector (Positive F) n)
    (x : Vector F n) : m (Vector F function.arity) := do
  match ← function.gradient x function.partials with
  | some partials => pure partials
  | none => function.indices.mapM fun i => centralDifference function.value x i (steps.get i)

def addGradient (function : Nonlinear (Fin n) m F n) (steps : Vector (Positive F) n)
    (x : Vector F n) (scale : F) (gradient : Vector F n) :
    m (Nonlinear (Fin n) m F n × Vector F n) := do
  let partials ← function.derive steps x
  pure ({ function with partials }, addPartials function.indices partials scale gradient)

end Nonlinear

namespace Constraint

variable {F : Type} [Scalar F] {m : Type → Type} [Monad m] {n : Nat}

def create {I : Type} (form : Form I m F n) (comparison : Comparison) : Constraint I m F n :=
  { form, comparison, offset := 0 }

def resetOffset {I : Type} (constraint : Constraint I m F n) : Constraint I m F n :=
  { constraint with offset := 0 }

def value (constraint : Constraint (Fin n) m F n) (x : Vector F n) : m F :=
  match constraint.form with
  | .linear function => pure (function.value x)
  | .nonlinear function => function.value x

def violation (constraint : Constraint (Fin n) m F n) (x : Vector F n) : m F := do
  pure (constraint.comparison.violation (← constraint.value x))

/-- The value of a constraint as stated. A linear one may name a variable that is not there. -/
def valueAt [MonadExceptOf Fault m] (constraint : Constraint Nat m F n) (x : Vector F n) : m F :=
  match constraint.form with
  | .linear function =>
      match function.rename? (position? n) with
      | some function => pure (function.value x)
      | none => throw .outOfBounds
  | .nonlinear function => function.value x

def violationAt [MonadExceptOf Fault m] (constraint : Constraint Nat m F n) (x : Vector F n) :
    m F := do
  pure (constraint.comparison.violation (← constraint.valueAt x))

def shifted? {I : Type} (constraint : Constraint I m F n) (value : F) : Option F :=
  constraint.comparison.shifted? value constraint.offset

def addGradient (constraint : Constraint (Fin n) m F n) (steps : Vector (Positive F) n)
    (x : Vector F n) (scale : F) (gradient : Vector F n) :
    m (Constraint (Fin n) m F n × Vector F n) :=
  match constraint.form with
  | .linear function => pure (constraint, function.addGradient scale gradient)
  | .nonlinear function => do
      let (function, gradient) ← function.addGradient steps x scale gradient
      pure ({ constraint with form := .nonlinear function }, gradient)

def adjustOffset (constraint : Constraint (Fin n) m F n) (value rate : F) :
    Constraint (Fin n) m F n :=
  { constraint with
    offset := constraint.comparison.clamp (constraint.offset - rate * value) }

end Constraint

/-- The largest violation. An undefined one counts as none. -/
def maxViolation {F : Type} [Scalar F] {m : Type → Type} [Monad m] {C : Type}
    (violation : C → m F) (constraints : List C) : m F :=
  constraints.foldlM (fun worst constraint => return maxNum worst (← violation constraint)) 0

end Descent

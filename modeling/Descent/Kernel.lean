import Descent.Fault
import Descent.Scalar

/-!
Dense vector arithmetic. An assignment to a vector is a value of `Update`; what it does to one
entry is `Update.entry`, and everything else about it follows from there. `Update.apply` and the
reductions below work on vectors whose lengths agree by type. The checked forms at the end take
operands of any length and refuse those that do not fit.
-/

namespace Descent

open Scalar

inductive Operation where
  | zero
  | copy
  | scale
  | dot
  | normSquared
  | addScaled
  | addTwoScaled
  | addThreeScaled
  | multiply
  | divide
  deriving DecidableEq

def Operation.label : Operation → String
  | zero => "zero"
  | copy => "copy"
  | scale => "scale"
  | dot => "dot"
  | normSquared => "norm_squared"
  | addScaled => "add_scaled"
  | addTwoScaled => "add_two_scaled"
  | addThreeScaled => "add_three_scaled"
  | multiply => "multiply"
  | divide => "divide"

/-- An assignment to a target vector. `V` is the type of the operands beside the target. -/
inductive Update (V F : Type) where
  | zero
  | copy (source : V)
  | scale (factor : F)
  | addScaled (u : V) (r : F)
  | addTwoScaled (u : V) (r : F) (v : V) (s : F)
  | addThreeScaled (u : V) (r : F) (v : V) (s : F) (w : V) (t : F)
  | multiply (factors : V)
  | divide (divisors : V)

namespace Update

variable {V W F : Type} {n : Nat}

def operation : Update V F → Operation
  | zero => .zero
  | copy _ => .copy
  | scale _ => .scale
  | addScaled .. => .addScaled
  | addTwoScaled .. => .addTwoScaled
  | addThreeScaled .. => .addThreeScaled
  | multiply _ => .multiply
  | divide _ => .divide

def operands : Update V F → List V
  | zero | scale _ => []
  | copy u | addScaled u _ | multiply u | divide u => [u]
  | addTwoScaled u _ v _ => [u, v]
  | addThreeScaled u _ v _ w _ => [u, v, w]

def convert (fit : V → Except Fault W) : Update V F → Except Fault (Update W F)
  | zero => pure zero
  | copy u => return copy (← fit u)
  | scale r => pure (scale r)
  | addScaled u r => return addScaled (← fit u) r
  | addTwoScaled u r v s => return addTwoScaled (← fit u) r (← fit v) s
  | addThreeScaled u r v s w t => return addThreeScaled (← fit u) r (← fit v) s (← fit w) t
  | multiply u => return multiply (← fit u)
  | divide u => return divide (← fit u)

/-- The new value of entry `i`, whose old value is `x`. Sums are taken from the left. -/
def entry [Scalar F] (update : Update (Vector F n) F) (i : Fin n) (x : F) : F :=
  match update with
  | zero => 0
  | copy u => u.get i
  | scale r => x * r
  | addScaled u r => x + r * u.get i
  | addTwoScaled u r v s => x + r * u.get i + s * v.get i
  | addThreeScaled u r v s w t => x + r * u.get i + s * v.get i + t * w.get i
  | multiply u => x * u.get i
  | divide u => x / u.get i

def apply [Scalar F] (update : Update (Vector F n) F) (target : Vector F n) : Vector F n :=
  Vector.ofFn fun i => update.entry i (target.get i)

end Update

@[simp]
theorem get_set {A : Type} {n : Nat} (v : Vector A n) (i k : Fin n) (x : A) :
    (v.set i x i.isLt).get k = if k = i then x else v.get k := by
  by_cases same : k = i
  · subst same
    rw [if_pos rfl]
    exact Vector.getElem_set_self k.isLt
  · rw [if_neg same]
    exact Vector.getElem_set_ne i.isLt k.isLt fun back => same (Fin.ext back.symm)

namespace Kernel

variable {F : Type} [Scalar F] {n : Nat}

def sum (v : Vector F n) : F := v.foldl (· + ·) 0

def dot (a b : Vector F n) : F := sum (a.zipWith (· * ·) b)

def normSquared (v : Vector F n) : F := sum (v.map fun x => x * x)

def absSum (v : Vector F n) : F := sum (v.map Scalar.abs)

def zeros (n : Nat) : Vector F n := Vector.replicate n 0

end Kernel

/-! Operands of any length. The target decides the length, and every operand must have it. -/

def exactly {F : Type} (length : Nat) (operand : Array F) : Except Fault (Vector F length) :=
  if fits : operand.size = length then .ok ⟨operand, fits⟩ else .error .lengthMismatch

namespace Update

variable {F : Type} [Scalar F]

def checked (update : Update (Array F) F) (target : Array F) : Except Fault (Array F) := do
  let fitted ← update.convert (exactly target.size)
  pure (fitted.apply target.toVector).toArray

end Update

namespace Kernel

variable {F : Type} [Scalar F]

def dotChecked (a b : Array F) : Except Fault F := do
  pure (dot a.toVector (← exactly a.size b))

end Kernel

end Descent

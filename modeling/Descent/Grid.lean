import Descent.Scalar

/-!
Matrices stored by rows.
-/

namespace Descent

abbrev Grid (F : Type) (rows columns : Nat) := Vector (Vector F columns) rows

namespace Grid

variable {F : Type} {m n : Nat}

def entry (a : Grid F m n) (i : Fin m) (j : Fin n) : F := (a.get i).get j

def put (a : Grid F m n) (i : Fin m) (j : Fin n) (x : F) : Grid F m n :=
  a.set i ((a.get i).set j x j.isLt) i.isLt

def exchange (a : Grid F m n) (i j : Fin m) : Grid F m n := a.swap i j i.isLt j.isLt

end Grid

end Descent

import Descent.Fault

/-!
Cutting `0 .. length` into contiguous spans of nearly equal size. Every span takes the remaining
length divided by the number of spans still to come, so the larger ones come last.
-/

namespace Descent

/-- The indices from `start` on that are below `stop`. -/
structure Span where
  start : Nat
  stop : Nat
  deriving DecidableEq, Repr

namespace Span

def size (span : Span) : Nat := span.stop - span.start

def indices (span : Span) : List Nat := List.range' span.start span.size

def cut (start rest : Nat) : Nat → List Span
  | 0 => []
  | count + 1 =>
      let size := rest / (count + 1)
      ⟨start, start + size⟩ :: cut (start + size) (rest - size) count

end Span

/-- A stored span takes two machine words. -/
def spanBytes : Nat := 16

def partition (length threads : Nat) : Except Fault (List Span) := do
  Precondition.threads.guard (0 < threads)
  reserve threads spanBytes
  pure (Span.cut 0 length threads)

end Descent

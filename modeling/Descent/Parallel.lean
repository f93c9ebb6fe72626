import Descent.Kernel
import Descent.Partition

/-!
Vector arithmetic cut into tasks. A runner is given a batch of tasks on a shared state and runs
each of them once, in an order of its own. Tasks of one batch touch disjoint parts of the state:
an assignment writes the entries of its span, a reduction its own slot, and the slots are added
in span order afterwards. So the order of the tasks shows nowhere; the number of spans shows only
in the grouping of sums.

A context with a single thread hands nothing to the runner. With more threads the target must
have the length of the context, and so must both operands of a reduction and the operand of
`copy` and `addScaled`; the other operands are only read along the spans, so they must cover the
length and may exceed it.
-/

namespace Descent

open Scalar

/-- Runs the tasks of a batch, each of them once. The order may depend on everything that a runner
is given in a call: the operation, the tasks and the state that they are to work on. -/
structure Runner where
  order {S : Type} : Operation → Array (S → S) → S → List Nat
  complete {S : Type} (operation : Operation) (tasks : Array (S → S)) (state : S) :
    (order operation tasks state).Perm (List.range tasks.size)

namespace Runner

def inOrder : Runner where
  order _ tasks _ := List.range tasks.size
  complete _ _ _ := .refl _

def reversed : Runner where
  order _ tasks _ := (List.range tasks.size).reverse
  complete _ _ _ := List.reverse_perm _

def run {S : Type} (runner : Runner) (operation : Operation) (tasks : Array (S → S))
    (state : S) : S :=
  (runner.order operation tasks state).foldl
    (fun state index => match tasks[index]? with
      | some task => task state
      | none => state)
    state

end Runner

namespace Span

variable {F : Type} [Scalar F] {n : Nat}

def assign (span : Span) (entry : Fin n → F → F) (v : Vector F n) : Vector F n :=
  span.indices.foldl
    (fun v index =>
      if inside : index < n then v.set index (entry ⟨index, inside⟩ v[index]) else v)
    v

def slice (span : Span) (v : Vector F n) : Vector F (min span.stop n - span.start) :=
  v.extract span.start span.stop

end Span

structure Context where
  threads : Nat
  length : Nat

namespace Context

def create (threads length : Nat) : Except Fault Context := do
  discard (partition length threads)
  pure { threads, length }

def spans (context : Context) : List Span := Span.cut 0 context.length context.threads

def isSerial (context : Context) : Bool := context.threads == 1

variable {F : Type} [Scalar F] {n : Nat}

def spread (context : Context) (runner : Runner) (update : Update (Vector F n) F)
    (target : Vector F n) : Vector F n :=
  let tasks := context.spans.toArray.map fun span => span.assign update.entry
  runner.run update.operation tasks target

/-- One task for each span stores what `part` says of it; the stored values are then added. -/
def reduce (context : Context) (runner : Runner) (operation : Operation) (part : Span → F) : F :=
  let tasks := context.spans.toArray.mapIdx fun slot span (slots : Array F) =>
    slots.setIfInBounds slot (part span)
  (runner.run operation tasks (Array.replicate tasks.size 0)).foldl (· + ·) 0

def spreadDot (context : Context) (runner : Runner) (a b : Vector F n) : F :=
  context.reduce runner .dot fun span => Kernel.dot (span.slice a) (span.slice b)

def spreadNormSquared (context : Context) (runner : Runner) (v : Vector F n) : F :=
  context.reduce runner .normSquared fun span => Kernel.normSquared (span.slice v)

/-! Operands of any length. -/

/-- What became of an operation, and the batches that the runner was given for it. -/
structure Performed (A : Type) where
  batches : List (Operation × Nat)
  result : Except Fault A

def covering (length : Nat) (operand : Array F) : Except Fault (Vector F length) :=
  if covers : length ≤ operand.size then
    .ok ⟨operand.extract 0 length, by simp [Nat.min_eq_left covers]⟩
  else .error .outOfBounds

/-- Whether the operands of an assignment are compared with the length beforehand. -/
def compares : Update (Array F) F → Bool
  | .copy _ | .addScaled .. => true
  | _ => false

def update (context : Context) (runner : Runner) (update : Update (Array F) F)
    (target : Array F) : Performed (Array F) :=
  if context.isSerial then ⟨[], update.checked target⟩
  else if compares update && update.operands.any (·.size != context.length) then
    ⟨[], .error .lengthMismatch⟩
  else if fits : target.size = context.length then
    ⟨[(update.operation, context.spans.length)], do
      let fitted ← update.convert (covering context.length)
      pure (context.spread runner fitted ⟨target, fits⟩).toArray⟩
  else ⟨[], .error .lengthMismatch⟩

def dot (context : Context) (runner : Runner) (a b : Array F) : Performed F :=
  if context.isSerial then ⟨[], Kernel.dotChecked a b⟩
  else if fits : a.size = context.length ∧ b.size = context.length then
    ⟨[(.dot, context.spans.length)],
      .ok (context.spreadDot runner ⟨a, fits.1⟩ (⟨b, fits.2⟩ : Vector F context.length))⟩
  else ⟨[], .error .lengthMismatch⟩

def normSquared (context : Context) (runner : Runner) (v : Array F) : Performed F :=
  if context.isSerial then ⟨[], .ok (Kernel.normSquared v.toVector)⟩
  else if fits : v.size = context.length then
    ⟨[(.normSquared, context.spans.length)],
      .ok (context.spreadNormSquared runner (⟨v, fits⟩ : Vector F context.length))⟩
  else ⟨[], .error .lengthMismatch⟩

end Context

structure Kernels (F : Type) (n : Nat) where
  update : Update (Vector F n) F → Vector F n → Vector F n
  dot : Vector F n → Vector F n → F
  normSquared : Vector F n → F

namespace Kernels

variable (F : Type) [Scalar F] (n : Nat)

def serial : Kernels F n where
  update := Update.apply
  dot := Kernel.dot
  normSquared := Kernel.normSquared

def shared (threads : Nat) (runner : Runner) : Kernels F n :=
  let context : Context := { threads, length := n }
  if context.isSerial then serial F n
  else
    { update := context.spread runner
      dot := context.spreadDot runner
      normSquared := context.spreadNormSquared runner }

end Kernels

end Descent

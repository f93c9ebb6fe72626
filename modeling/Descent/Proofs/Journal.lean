import Descent.Minimize
import Descent.Proofs.Execution

/-!
A caller that writes down everything it is asked. It answers what the caller below answers, so
a run with it is a run of that caller, and the journal tells in which order it was asked what.
-/

namespace Descent

structure Evaluation (F : Type) (n : Nat) where
  point : Vector F n
  value : F
  gradient : Vector F n

inductive Entry (F : Type) (n : Nat) where
  | evaluated (evaluation : Evaluation F n)
  | asked (x : Vector F n) (best : F) (iterations : Nat) (stop : Bool)
  | polled (cancelled : Bool)
  | cancelled
  | noted (event : Event F)

/-- Oldest entry first. -/
abbrev Journal (F : Type) (n : Nat) := List (Entry F n)

namespace Journal

variable {F : Type} {n : Nat}

def evaluations (journal : Journal F n) : List (Evaluation F n) :=
  journal.filterMap fun
    | .evaluated evaluation => some evaluation
    | _ => none

@[simp]
theorem evaluations_nil : evaluations ([] : Journal F n) = [] := rfl

@[simp]
theorem evaluations_append (journal later : Journal F n) :
    evaluations (journal ++ later) = evaluations journal ++ evaluations later :=
  List.filterMap_append

@[simp]
theorem evaluations_evaluated (evaluation : Evaluation F n) :
    evaluations [.evaluated evaluation] = [evaluation] := rfl

@[simp]
theorem evaluations_asked (x : Vector F n) (best : F) (iterations : Nat) (stop : Bool) :
    evaluations [.asked x best iterations stop] = [] := rfl

@[simp]
theorem evaluations_polled (cancelled : Bool) :
    evaluations ([.polled cancelled] : Journal F n) = [] := rfl

@[simp]
theorem evaluations_cancelled : evaluations ([.cancelled] : Journal F n) = [] := rfl

@[simp]
theorem evaluations_noted (event : Event F) :
    evaluations ([.noted event] : Journal F n) = [] := rfl

end Journal

namespace Caller

variable {m : Type → Type} [Monad m] {F : Type} {n : Nat}

def record {A : Type} (program : m A) (entry : A → Entry F n) : StateT (Journal F n) m A := do
  let answer ← program
  modify (· ++ [entry answer])
  pure answer

def recorded (caller : Caller m F n) : Caller (StateT (Journal F n) m) F n where
  evaluate x := record (caller.evaluate x) fun answer => .evaluated ⟨x, answer.1, answer.2⟩
  shouldStop x best iterations :=
    record (caller.shouldStop x best iterations) (.asked x best iterations)
  isCancelled := record caller.isCancelled .polled
  cancel := record caller.cancel fun _ => .cancelled
  note event := record (caller.note event) fun _ => .noted event

/-- A caller with a function for an objective, which never stops a run. -/
def ofFunction (f : Vector F n → F × Vector F n) : Caller m F n where
  evaluate x := pure (f x)
  shouldStop _ _ _ := pure false
  isCancelled := pure false
  cancel := pure ()
  note _ := pure ()

variable [MonadExceptOf Fault m] {World : Type} [Execution m World]
variable {A : Type} {before after : Journal F n × World}

open Execution

theorem returns_record {program : m A} {entry : A → Entry F n} {answer : A} :
    Returns (record program entry) before answer after ↔
      Returns program before.2 answer after.2 ∧ after.1 = before.1 ++ [entry answer] := by
  constructor
  · intro ran
    obtain ⟨value, middle, first, rest⟩ := returns_bind.mp ran
    obtain ⟨noted, written, second, last⟩ := returns_bind.mp rest
    obtain ⟨rfl, rfl⟩ := returns_pure.mp last
    obtain ⟨returned, kept⟩ := returns_lift.mp first
    obtain rfl := returns_modify.mp second
    exact ⟨returned, by rw [kept]⟩
  · rintro ⟨returned, written⟩
    refine returns_bind.mpr ⟨answer, (before.1, after.2), returns_lift.mpr ⟨returned, rfl⟩, ?_⟩
    refine returns_bind.mpr ⟨⟨⟩, after, ?_, returns_pure.mpr ⟨rfl, rfl⟩⟩
    exact returns_modify.mpr (Prod.ext written rfl)

theorem evaluations_of_evaluate {caller : Caller m F n} {x : Vector F n}
    {answer : F × Vector F n} (ran : Returns (caller.recorded.evaluate x) before answer after) :
    Journal.evaluations after.1 =
      Journal.evaluations before.1 ++ [⟨x, answer.1, answer.2⟩] := by
  rw [(returns_record.mp ran).2, Journal.evaluations_append, Journal.evaluations_evaluated]

/-! Everything else that is asked leaves the evaluations as they are. -/

theorem evaluations_of_shouldStop {caller : Caller m F n} {x : Vector F n} {best : F}
    {iterations : Nat} {stop : Bool}
    (ran : Returns (caller.recorded.shouldStop x best iterations) before stop after) :
    Journal.evaluations after.1 = Journal.evaluations before.1 := by
  simp [(returns_record.mp ran).2]

theorem evaluations_of_isCancelled {caller : Caller m F n} {cancelled : Bool}
    (ran : Returns caller.recorded.isCancelled before cancelled after) :
    Journal.evaluations after.1 = Journal.evaluations before.1 := by
  simp [(returns_record.mp ran).2]

theorem evaluations_of_cancel {caller : Caller m F n} {done : Unit}
    (ran : Returns caller.recorded.cancel before done after) :
    Journal.evaluations after.1 = Journal.evaluations before.1 := by
  simp [(returns_record.mp ran).2]

theorem evaluations_of_note {caller : Caller m F n} {event : Event F} {done : Unit}
    (ran : Returns (caller.recorded.note event) before done after) :
    Journal.evaluations after.1 = Journal.evaluations before.1 := by
  simp [(returns_record.mp ran).2]

end Caller

end Descent

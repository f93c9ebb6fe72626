import Descent.Fault

/-!
What it means that a program returns. `Returns program before answer after` says that the
program, started in the world `before`, ends with `answer` and leaves the world `after`. A
program that throws returns nothing. Every statement about code in a monad of the caller's
choice is made through this relation, so that only its four laws are needed.
-/

namespace Descent

class Execution (m : Type → Type) (World : outParam Type) [Monad m] [MonadExceptOf Fault m] where
  Returns {A : Type} (program : m A) (before : World) (answer : A) (after : World) : Prop
  returns_pure {A : Type} {value answer : A} {before after : World} :
    Returns (pure value) before answer after ↔ answer = value ∧ after = before
  returns_bind {A B : Type} {program : m A} {next : A → m B} {answer : B} {before after : World} :
    Returns (program >>= next) before answer after ↔
      ∃ value middle, Returns program before value middle ∧
        Returns (next value) middle answer after
  not_returns_throw {A : Type} {fault : Fault} {answer : A} {before after : World} :
    ¬ Returns (throw fault) before answer after
  returns_unique {A : Type} {program : m A} {answer answer' : A} {before after after' : World} :
    Returns program before answer after → Returns program before answer' after' →
      answer' = answer ∧ after' = after

/-- A program without a world of its own. -/
instance : Execution (Except Fault) Unit where
  Returns program _ answer _ := program = .ok answer
  returns_pure := by
    intro A value answer before after
    exact ⟨fun same => ⟨(Except.ok.inj same).symm, rfl⟩, fun same => congrArg Except.ok same.1.symm⟩
  returns_bind := by
    intro A B program next answer before after
    cases program with
    | error fault =>
      constructor
      · intro impossible
        exact nomatch impossible
      · rintro ⟨value, middle, impossible, rest⟩
        exact nomatch impossible
    | ok value =>
      constructor
      · intro rest
        exact ⟨value, (), rfl, rest⟩
      · rintro ⟨value', middle, same, rest⟩
        cases same
        exact rest
  not_returns_throw := by
    intro A fault answer before after impossible
    exact nomatch impossible
  returns_unique := by
    intro A program answer answer' before after after' ran ran'
    exact ⟨Except.ok.inj (ran'.symm.trans ran), rfl⟩

/-- A program that carries a state beside the world. -/
instance {S World : Type} {m : Type → Type} [Monad m] [MonadExceptOf Fault m]
    [Execution m World] : Execution (StateT S m) (S × World) where
  Returns program before answer after :=
    Execution.Returns (program.run before.1) before.2 (answer, after.1) after.2
  returns_pure := by
    intro A value answer before after
    refine Execution.returns_pure.trans ?_
    rw [Prod.mk.injEq, and_assoc]
    exact and_congr_right fun _ => (Prod.ext_iff (x := after) (y := before)).symm
  returns_bind := by
    intro A B program next answer before after
    refine Execution.returns_bind.trans ?_
    constructor
    · rintro ⟨value, middle, first, rest⟩
      exact ⟨value.1, (value.2, middle), first, rest⟩
    · rintro ⟨value, middle, first, rest⟩
      exact ⟨(value, middle.1), middle.2, first, rest⟩
  not_returns_throw := by
    intro A fault answer before after thrown
    obtain ⟨value, middle, impossible, _⟩ := Execution.returns_bind.mp thrown
    exact Execution.not_returns_throw impossible
  returns_unique := by
    intro A program answer answer' before after after' ran ran'
    obtain ⟨same, world⟩ := Execution.returns_unique ran ran'
    obtain ⟨rfl, carried⟩ := Prod.mk.inj same
    exact ⟨rfl, Prod.ext carried world⟩

namespace Execution

variable {m : Type → Type} {World : Type} [Monad m] [MonadExceptOf Fault m] [Execution m World]
variable {A B : Type} {before after : World}

theorem returns_ofExcept {outcome : Except Fault A} {answer : A} :
    Returns (MonadExcept.ofExcept outcome : m A) before answer after ↔
      outcome = .ok answer ∧ after = before := by
  cases outcome with
  | error fault =>
    constructor
    · intro thrown
      exact absurd thrown not_returns_throw
    · rintro ⟨impossible, _⟩
      exact nomatch impossible
  | ok value =>
    refine returns_pure.trans (and_congr_left fun _ => ?_)
    exact ⟨fun same => congrArg Except.ok same.symm, fun same => (Except.ok.inj same).symm⟩

theorem returns_map [LawfulMonad m] {program : m A} {f : A → B} {answer : B} :
    Returns (f <$> program) before answer after ↔
      ∃ value, Returns program before value after ∧ answer = f value := by
  rw [← bind_pure_comp, returns_bind]
  constructor
  · rintro ⟨value, middle, first, last⟩
    obtain ⟨rfl, rfl⟩ := returns_pure.mp last
    exact ⟨value, first, rfl⟩
  · rintro ⟨value, first, rfl⟩
    exact ⟨value, after, first, returns_pure.mpr ⟨rfl, rfl⟩⟩

theorem returns_mapM [LawfulMonad m] {f : A → m B} {items : List A} {answers : List B}
    (ran : Returns (items.mapM f) before answers after) :
    ∀ answer ∈ answers, ∃ item ∈ items, ∃ asked left, Returns (f item) asked answer left := by
  induction items generalizing answers before after with
  | nil =>
    obtain ⟨rfl, _⟩ := returns_pure.mp ran
    exact fun _ member => nomatch member
  | cons item rest ih =>
    rw [List.mapM_cons] at ran
    obtain ⟨first, middle, head, tail⟩ := returns_bind.mp ran
    obtain ⟨others, _, looped, last⟩ := returns_bind.mp tail
    obtain ⟨rfl, _⟩ := returns_pure.mp last
    intro answer member
    cases member with
    | head => exact ⟨item, List.mem_cons_self, before, middle, head⟩
    | tail _ later =>
      obtain ⟨source, among, asked⟩ := ih looped answer later
      exact ⟨source, List.mem_cons_of_mem item among, asked⟩

theorem returns_lift {S : Type} {program : m A} {answer : A} {carried left : S × World} :
    Returns (monadLift program : StateT S m A) carried answer left ↔
      Returns program carried.2 answer left.2 ∧ left.1 = carried.1 := by
  refine returns_bind.trans ?_
  constructor
  · rintro ⟨value, middle, first, last⟩
    obtain ⟨same, rfl⟩ := returns_pure.mp last
    obtain ⟨rfl, kept⟩ := Prod.mk.inj same
    exact ⟨first, kept⟩
  · rintro ⟨first, kept⟩
    exact ⟨answer, left.2, first, returns_pure.mpr ⟨by rw [kept], rfl⟩⟩

theorem returns_get {S : Type} {answer : S} {carried left : S × World} :
    Returns (get : StateT S m S) carried answer left ↔ answer = carried.1 ∧ left = carried := by
  refine returns_pure.trans ?_
  rw [Prod.mk.injEq, Prod.ext_iff, and_assoc]

theorem returns_set {S : Type} {state : S} {answer : PUnit} {carried left : S × World} :
    Returns (set state : StateT S m PUnit) carried answer left ↔ left = (state, carried.2) := by
  refine returns_pure.trans ?_
  rw [Prod.mk.injEq, Prod.ext_iff]
  exact ⟨fun same => ⟨same.1.2, same.2⟩, fun same => ⟨⟨rfl, same.1⟩, same.2⟩⟩

theorem returns_modify {S : Type} {f : S → S} {answer : PUnit} {carried left : S × World} :
    Returns (modify f : StateT S m PUnit) carried answer left ↔
      left = (f carried.1, carried.2) := by
  refine returns_pure.trans ?_
  rw [Prod.mk.injEq, Prod.ext_iff]
  exact ⟨fun same => ⟨same.1.2, same.2⟩, fun same => ⟨⟨rfl, same.1⟩, same.2⟩⟩

end Execution

/-! Outcomes that can be computed. -/

/-- The outcome is an answer, and the answer has a property. -/
def Yields {A : Type} (outcome : Except Fault A) (property : A → Prop) : Prop :=
  ∃ answer, outcome = .ok answer ∧ property answer

instance {A : Type} (outcome : Except Fault A) (property : A → Prop) [DecidablePred property] :
    Decidable (Yields outcome property) :=
  match outcome with
  | .error _ => isFalse fun ⟨_, impossible, _⟩ => nomatch impossible
  | .ok answer =>
      decidable_of_iff (property answer)
        ⟨fun holds => ⟨answer, rfl, holds⟩, fun ⟨_, same, holds⟩ => Except.ok.inj same ▸ holds⟩

end Descent

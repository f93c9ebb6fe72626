import Mathlib.Data.List.Forall2
import Descent.Penalty
import Descent.Proofs.Correspondence

/-!
What becomes of the functions of a problem. An inner run evaluates them and stores partial
derivatives with them, and that is all that it changes; only a move of the offsets changes more.
So a solve calls the functions that it was given, and what these keep of the world, the solve
keeps.
-/

namespace Descent

open Scalar Execution

theorem toList_mapM {m : Type → Type} [Monad m] [LawfulMonad m] {A B : Type} {n : Nat} {f : A → m B}
    {items : Vector A n} : Vector.toList <$> items.mapM f = items.toList.mapM f := by
  rw [← Vector.toList_toArray, ← Array.toList_mapM, ← Vector.toArray_mapM, ← comp_map]
  rfl

/-! Functions as stated, and functions whose indices name variables. -/

section Naming

theorem forall₂_of_mapM_some {A B : Type} {f : A → Option B} {items : List A} {answers : List B}
    (looped : items.mapM f = some answers) :
    List.Forall₂ (fun item answer => f item = some answer) items answers := by
  induction items generalizing answers with
  | nil =>
    cases looped
    exact .nil
  | cons item rest ih =>
    simp only [List.mapM_cons, Option.bind_eq_bind, Option.bind_eq_some_iff] at looped
    obtain ⟨first, head, others, tail, same⟩ := looped
    cases same
    exact .cons head (ih tail)

theorem mem_of_mapM_some {A B : Type} {f : A → Option B} {items : List A} {answers : List B}
    (looped : items.mapM f = some answers) :
    ∀ answer ∈ answers, ∃ item ∈ items, f item = some answer := by
  have paired := forall₂_of_mapM_some looped
  clear looped
  induction paired with
  | nil => exact fun _ member => nomatch member
  | @cons item answer rest _ head _ ih =>
    intro found among
    rcases List.mem_cons.mp among with rfl | later
    · exact ⟨item, List.mem_cons_self, head⟩
    · obtain ⟨source, member, same⟩ := ih found later
      exact ⟨source, List.mem_cons_of_mem item member, same⟩

variable {I J : Type} {m : Type → Type} {F : Type} {n : Nat} {f : I → Option J}

theorem Nonlinear.rename?_eq_some {function : Nonlinear I m F n} {named : Nonlinear J m F n}
    (renamed : function.rename? f = some named) : ∃ indices, named = { function with indices } := by
  obtain ⟨indices, _, same⟩ := Option.bind_eq_some_iff.mp renamed
  exact ⟨indices, (Option.some.inj same).symm⟩

theorem Constraint.rename?_eq_some {constraint : Constraint I m F n} {named : Constraint J m F n}
    (renamed : constraint.rename? f = some named) :
    named.comparison = constraint.comparison ∧ named.offset = constraint.offset ∧
      ((∃ function left, constraint.form = .linear function ∧ function.rename? f = some left ∧
          named.form = .linear left) ∨
        ∃ function left, constraint.form = .nonlinear function ∧ function.rename? f = some left ∧
          named.form = .nonlinear left) := by
  obtain ⟨form, comparison, offset⟩ := constraint
  cases form with
  | linear function =>
    obtain ⟨_, present, same⟩ := Option.bind_eq_some_iff.mp renamed
    obtain ⟨left, found, rfl⟩ := Option.map_eq_some_iff.mp present
    cases same
    exact ⟨rfl, rfl, .inl ⟨function, left, rfl, found, rfl⟩⟩
  | nonlinear function =>
    obtain ⟨_, present, same⟩ := Option.bind_eq_some_iff.mp renamed
    obtain ⟨left, found, rfl⟩ := Option.map_eq_some_iff.mp present
    cases same
    exact ⟨rfl, rfl, .inr ⟨function, left, rfl, found, rfl⟩⟩

theorem Problem.create_eq_ok_iff [Scalar F] {objective : Nonlinear Nat m F n}
    {constraints : List (Constraint Nat m F n)} {stepSizes : Array F} {problem : Problem m F n} :
    create objective constraints stepSizes = .ok problem ↔
      (∃ counted : stepSizes.size = n,
        (⟨stepSizes, counted⟩ : Vector F n).mapM positive? = some problem.steps) ∧
      objective.rename? (position? n) = some problem.objective ∧
      constraints.mapM (Constraint.rename? (position? n)) = some problem.constraints := by
  unfold create
  split
  · next counted =>
    split
    · next absent => simp [counted, absent]
    · next steps present =>
      split
      · next named stated first second =>
        rw [first, second]
        constructor
        · intro same
          cases same
          exact ⟨⟨counted, present⟩, rfl, rfl⟩
        · rintro ⟨⟨_, stepped⟩, named, stated⟩
          rw [present] at stepped
          cases stepped
          cases named
          cases stated
          rfl
      · next unnamed =>
        constructor
        · intro impossible
          cases impossible
        · rintro ⟨_, named, stated⟩
          exact absurd stated (unnamed _ _ named)
  · next uncounted => simp [uncounted]

theorem Problem.create_offsets [Scalar F] {objective : Nonlinear Nat m F n}
    {constraints : List (Constraint Nat m F n)} {stepSizes : Array F} {problem : Problem m F n}
    (created : create objective constraints stepSizes = .ok problem) :
    problem.constraints.map (·.offset) = constraints.map (·.offset) := by
  have paired := forall₂_of_mapM_some (create_eq_ok_iff.mp created).2.2
  clear created
  generalize problem.constraints = named at paired ⊢
  induction paired with
  | nil => rfl
  | cons head _ ih =>
    rw [List.map_cons, List.map_cons, ih, (Constraint.rename?_eq_some head).2.1]

end Naming

section Blank

variable {I : Type} {m : Type → Type} {F : Type} [Scalar F] {n : Nat}

/-- The function without the partial derivatives that are stored with it. -/
def Nonlinear.blank (function : Nonlinear I m F n) : Nonlinear I m F n :=
  { function with partials := Kernel.zeros function.arity }

def Form.blank : Form I m F n → Form I m F n
  | linear function => linear function
  | nonlinear function => nonlinear function.blank

def Constraint.blank (constraint : Constraint I m F n) : Constraint I m F n :=
  { constraint with form := constraint.form.blank }

def Problem.blank (problem : Problem m F n) : Problem m F n :=
  { problem with
    objective := problem.objective.blank
    constraints := problem.constraints.map Constraint.blank }

theorem Constraint.value_blank [Monad m] (constraint : Constraint (Fin n) m F n) :
    constraint.blank.value = constraint.value := by
  obtain ⟨form, comparison, offset⟩ := constraint
  cases form with
  | linear | nonlinear => rfl

end Blank

section Evaluated

variable {m : Type → Type} [Monad m] [MonadExceptOf Fault m] {World : Type} [Execution m World]
variable {F : Type} [Scalar F] {n : Nat} {steps : Vector (Positive F) n} {x : Vector F n}
variable {gradient added : Vector F n} {before after : World}

theorem Nonlinear.addGradient_blank {function derived : Nonlinear (Fin n) m F n} {scale : F}
    (ran : Returns (function.addGradient steps x scale gradient) before (derived, added) after) :
    derived.blank = function.blank := by
  obtain ⟨_, _, _, last⟩ := returns_bind.mp ran
  obtain ⟨same, _⟩ := returns_pure.mp last
  cases same
  rfl

theorem Constraint.addGradient_blank {constraint derived : Constraint (Fin n) m F n} {scale : F}
    (ran : Returns (constraint.addGradient steps x scale gradient) before (derived, added)
      after) :
    derived.blank = constraint.blank := by
  obtain ⟨form, comparison, offset⟩ := constraint
  cases form with
  | linear function =>
    obtain ⟨same, _⟩ := returns_pure.mp ran
    cases same
    rfl
  | nonlinear function =>
    obtain ⟨⟨left, _⟩, _, derives, last⟩ := returns_bind.mp ran
    obtain ⟨same, _⟩ := returns_pure.mp last
    cases same
    simp only [blank, Form.blank, Nonlinear.addGradient_blank derives]

namespace Problem

theorem penalize_blank {constraints derived : List (Constraint (Fin n) m F n)} {total sum : F}
    (ran : Returns (penalize steps x constraints total gradient) before (derived, sum, added)
      after) :
    derived.map Constraint.blank = constraints.map Constraint.blank := by
  induction constraints generalizing derived total gradient sum added before after with
  | nil =>
    obtain ⟨same, _⟩ := returns_pure.mp ran
    cases same
    rfl
  | cons constraint rest ih =>
    rw [penalize] at ran
    obtain ⟨value, _, _, ran⟩ := returns_bind.mp ran
    cases penalized : constraint.shifted? value with
    | none =>
      simp only [penalized] at ran
      obtain ⟨⟨others, sum', added'⟩, _, further, last⟩ := returns_bind.mp ran
      obtain ⟨same, _⟩ := returns_pure.mp last
      cases same
      rw [List.map_cons, List.map_cons, ih further]
    | some shifted =>
      simp only [penalized] at ran
      obtain ⟨⟨first, gradient'⟩, _, derives, ran⟩ := returns_bind.mp ran
      obtain ⟨⟨others, sum', added'⟩, _, further, last⟩ := returns_bind.mp ran
      obtain ⟨same, _⟩ := returns_pure.mp last
      cases same
      rw [List.map_cons, List.map_cons, ih further, Constraint.addGradient_blank derives]

theorem evaluate_blank {problem left : Problem m F n} {answer : F × Vector F n}
    (ran : Returns (problem.evaluate x) before (answer, left) after) :
    left.blank = problem.blank := by
  obtain ⟨value, _, _, rest⟩ := returns_bind.mp ran
  obtain ⟨⟨objective, gradient⟩, _, derives, rest⟩ := returns_bind.mp rest
  obtain ⟨⟨constraints, total, added⟩, _, penalizes, rest⟩ := returns_bind.mp rest
  obtain ⟨same, _⟩ := returns_pure.mp rest
  cases same
  simp only [blank, Nonlinear.addGradient_blank derives, penalize_blank penalizes]

end Problem

end Evaluated

/-! Programs of a problem whose functions keep something. -/

section Keeping

variable {m : Type → Type} [Monad m] [MonadExceptOf Fault m] {World : Type} [Execution m World]
variable {Holds : World → World → Prop} (lasting : Lasting Holds)

section Loops

variable {A B : Type} {f : A → m B}

include lasting

theorem Lasting.keeps_mapM [LawfulMonad m] {items : List A}
    (each : ∀ item ∈ items, Keeps Holds (f item)) : Keeps Holds (items.mapM f) := by
  induction items with
  | nil => exact lasting.keeps_pure _
  | cons item rest ih =>
    obtain ⟨head, tail⟩ := List.forall_mem_cons.mp each
    rw [List.mapM_cons]
    exact lasting.keeps_bind head fun _ => lasting.keeps_bind (ih tail) fun _ =>
      lasting.keeps_pure _

theorem Lasting.keeps_vectorMapM [LawfulMonad m] {n : Nat} {items : Vector A n}
    (each : ∀ item, Keeps Holds (f item)) : Keeps Holds (items.mapM f) := by
  intro before answer after ran
  have loops : Returns (items.toList.mapM f) before answer.toList after := by
    rw [← toList_mapM]
    exact returns_map.mpr ⟨answer, ran, rfl⟩
  exact lasting.keeps_mapM (fun item _ => each item) _ _ _ loops

theorem Lasting.keeps_foldlM {S : Type} {next : S → A → m S} {items : List A}
    (each : ∀ item ∈ items, ∀ state, Keeps Holds (next state item)) (state : S) :
    Keeps Holds (items.foldlM next state) := by
  induction items generalizing state with
  | nil => exact lasting.keeps_pure _
  | cons item rest ih =>
    obtain ⟨head, tail⟩ := List.forall_mem_cons.mp each
    rw [List.foldlM_cons]
    exact lasting.keeps_bind (head state) fun _ => ih tail _

end Loops

variable {F : Type} [Scalar F] {n : Nat}

/-- Calls of the function, and of its gradient, keep this of the world. -/
structure Nonlinear.Keeping {I : Type} (Holds : World → World → Prop)
    (function : Nonlinear I m F n) : Prop where
  value (x : Vector F n) : Keeps Holds (function.value x)
  gradient (x : Vector F n) (partials : Vector F function.arity) :
    Keeps Holds (function.gradient x partials)

def Constraint.Keeping {I : Type} (Holds : World → World → Prop) (constraint : Constraint I m F n) :
    Prop :=
  match constraint.form with
  | .linear _ => True
  | .nonlinear function => function.Keeping Holds

structure Problem.Keeping (Holds : World → World → Prop) (problem : Problem m F n) : Prop where
  objective : problem.objective.Keeping Holds
  constraints : ∀ constraint ∈ problem.constraints, constraint.Keeping Holds

omit [Scalar F] in
theorem Nonlinear.keeping_of_rename? {I J : Type} {f : I → Option J} {function : Nonlinear I m F n}
    {named : Nonlinear J m F n} (renamed : function.rename? f = some named)
    (keeping : function.Keeping Holds) : named.Keeping Holds := by
  obtain ⟨indices, rfl⟩ := rename?_eq_some renamed
  exact ⟨keeping.value, keeping.gradient⟩

theorem Nonlinear.keeping_blank {function : Nonlinear (Fin n) m F n} :
    function.blank.Keeping Holds ↔ function.Keeping Holds :=
  ⟨fun keeping => ⟨keeping.value, keeping.gradient⟩, fun keeping =>
    ⟨keeping.value, keeping.gradient⟩⟩

omit [Scalar F] in
theorem Constraint.keeping_of_rename? {I J : Type} {f : I → Option J}
    {constraint : Constraint I m F n} {named : Constraint J m F n}
    (renamed : constraint.rename? f = some named) (keeping : constraint.Keeping Holds) :
    named.Keeping Holds := by
  obtain ⟨_, _, forms⟩ := rename?_eq_some renamed
  rcases forms with ⟨_, left, _, _, same⟩ | ⟨function, left, stated, found, same⟩
  · simp only [Keeping, same]
  · simp only [Keeping, stated] at keeping
    simp only [Keeping, same]
    exact Nonlinear.keeping_of_rename? found keeping

theorem Constraint.keeping_blank {constraint : Constraint (Fin n) m F n} :
    constraint.blank.Keeping Holds ↔ constraint.Keeping Holds := by
  obtain ⟨form, comparison, offset⟩ := constraint
  cases form with
  | linear function => exact Iff.rfl
  | nonlinear function => exact Nonlinear.keeping_blank

namespace Problem

variable {problem left : Problem m F n} {x : Vector F n}

theorem keeping_blank : problem.blank.Keeping Holds ↔ problem.Keeping Holds := by
  have constraints : (∀ constraint ∈ problem.blank.constraints, constraint.Keeping Holds) ↔
      ∀ constraint ∈ problem.constraints, constraint.Keeping Holds := by
    simp only [blank, List.forall_mem_map, Constraint.keeping_blank]
  exact ⟨fun keeping => ⟨Nonlinear.keeping_blank.mp keeping.objective,
      constraints.mp keeping.constraints⟩,
    fun keeping => ⟨Nonlinear.keeping_blank.mpr keeping.objective,
      constraints.mpr keeping.constraints⟩⟩

theorem keeping_of_blank (same : left.blank = problem.blank) (keeping : problem.Keeping Holds) :
    left.Keeping Holds := by
  rw [← keeping_blank, same]
  exact keeping_blank.mpr keeping

theorem create_keeping {objective : Nonlinear Nat m F n}
    {constraints : List (Constraint Nat m F n)} {stepSizes : Array F}
    (created : create objective constraints stepSizes = .ok problem)
    (first : objective.Keeping Holds)
    (others : ∀ constraint ∈ constraints, constraint.Keeping Holds) : problem.Keeping Holds := by
  obtain ⟨_, named, stated⟩ := create_eq_ok_iff.mp created
  refine ⟨Nonlinear.keeping_of_rename? named first, fun constraint member => ?_⟩
  obtain ⟨source, among, renamed⟩ := mem_of_mapM_some stated constraint member
  exact Constraint.keeping_of_rename? renamed (others source among)

end Problem

include lasting

theorem centralDifference_keeps {f : Vector F n → m F} (calls : ∀ x, Keeps Holds (f x))
    (x : Vector F n) (i : Fin n) (step : Positive F) :
    Keeps Holds (centralDifference f x i step) :=
  lasting.keeps_bind (calls _) fun _ => lasting.keeps_bind (calls _) fun _ =>
    lasting.keeps_pure _

theorem Nonlinear.Keeping.addGradient [LawfulMonad m] {function : Nonlinear (Fin n) m F n}
    (keeping : function.Keeping Holds) (steps : Vector (Positive F) n) (x : Vector F n) (scale : F)
    (gradient : Vector F n) : Keeps Holds (function.addGradient steps x scale gradient) := by
  have derives : Keeps Holds (function.derive steps x) := by
    apply lasting.keeps_bind (keeping.gradient x _)
    rintro (_ | partials)
    · exact lasting.keeps_vectorMapM fun i =>
        centralDifference_keeps lasting keeping.value x i (steps.get i)
    · exact lasting.keeps_pure _
  exact lasting.keeps_bind derives fun _ => lasting.keeps_pure _

namespace Constraint.Keeping

variable {constraint : Constraint (Fin n) m F n} (keeping : constraint.Keeping Holds)

include keeping

theorem value (x : Vector F n) : Keeps Holds (constraint.value x) := by
  obtain ⟨form, comparison, offset⟩ := constraint
  cases form with
  | linear function => exact lasting.keeps_pure _
  | nonlinear function => exact Nonlinear.Keeping.value keeping x

theorem addGradient [LawfulMonad m] (steps : Vector (Positive F) n) (x : Vector F n) (scale : F)
    (gradient : Vector F n) : Keeps Holds (constraint.addGradient steps x scale gradient) := by
  obtain ⟨form, comparison, offset⟩ := constraint
  cases form with
  | linear function => exact lasting.keeps_pure _
  | nonlinear function =>
    exact lasting.keeps_bind (Nonlinear.Keeping.addGradient lasting keeping steps x scale gradient)
      fun _ => lasting.keeps_pure _

end Constraint.Keeping

namespace Problem

variable {problem left : Problem m F n} {x : Vector F n}

theorem penalize_keeps [LawfulMonad m] {steps : Vector (Positive F) n}
    {constraints : List (Constraint (Fin n) m F n)}
    (keeping : ∀ constraint ∈ constraints, constraint.Keeping Holds) (total : F)
    (gradient : Vector F n) : Keeps Holds (penalize steps x constraints total gradient) := by
  induction constraints generalizing total gradient with
  | nil => exact lasting.keeps_pure _
  | cons constraint rest ih =>
    obtain ⟨head, tail⟩ := List.forall_mem_cons.mp keeping
    rw [penalize]
    apply lasting.keeps_bind (head.value lasting x)
    intro value
    split
    · exact lasting.keeps_bind (ih tail _ _) fun _ => lasting.keeps_pure _
    · exact lasting.keeps_bind (head.addGradient lasting steps x _ gradient) fun _ =>
        lasting.keeps_bind (ih tail _ _) fun _ => lasting.keeps_pure _

namespace Keeping

variable (keeping : problem.Keeping Holds)

include keeping

theorem evaluate [LawfulMonad m] (x : Vector F n) : Keeps Holds (problem.evaluate x) :=
  lasting.keeps_bind (keeping.objective.value x) fun _ =>
    lasting.keeps_bind (keeping.objective.addGradient lasting problem.steps x 1 _) fun _ =>
      lasting.keeps_bind (penalize_keeps lasting keeping.constraints _ _) fun _ =>
        lasting.keeps_pure _

theorem maxViolation (x : Vector F n) : Keeps Holds (problem.maxViolation x) :=
  lasting.keeps_foldlM (fun constraint member _ => lasting.keeps_bind
    (lasting.keeps_bind ((keeping.constraints constraint member).value lasting x) fun _ =>
      lasting.keeps_pure _)
    fun _ => lasting.keeps_pure _) 0

theorem adjustOffsets [LawfulMonad m] (rate : F) (x : Vector F n) :
    Keeps Holds (problem.adjustOffsets rate x) :=
  lasting.keeps_bind
    (lasting.keeps_mapM fun constraint member => lasting.keeps_bind
      ((keeping.constraints constraint member).value lasting x) fun _ => lasting.keeps_pure _)
    fun _ => lasting.keeps_pure _

omit lasting in
theorem adjusted [LawfulMonad m] {rate : F} {before after : World}
    (ran : Returns (problem.adjustOffsets rate x) before left after) : left.Keeping Holds := by
  obtain ⟨constraints, _, adjusts, rest⟩ := returns_bind.mp ran
  obtain ⟨rfl, _⟩ := returns_pure.mp rest
  refine ⟨keeping.objective, fun adjusted member => ?_⟩
  obtain ⟨constraint, stated, _, _, moves⟩ := returns_mapM adjusts adjusted member
  obtain ⟨value, _, _, last⟩ := returns_bind.mp moves
  obtain ⟨rfl, _⟩ := returns_pure.mp last
  exact keeping.constraints constraint stated

end Keeping

end Problem

end Keeping

end Descent

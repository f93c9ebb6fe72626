import Mathlib.Algebra.MvPolynomial.Rename
import Descent.Proofs.Accounting
import Descent.Proofs.Continuation
import Descent.Proofs.Coupling
import Descent.Proofs.Differences
import Descent.Proofs.Multiplier
import Descent.Proofs.Numbers

/-!
Presentations of a problem. Polynomials of degree two can be handed to a solver with their partial
derivatives or without, and those of degree one as weighted sums as well. Over exact numbers the
penalized objective and its gradient come out the same, so solves cannot tell these presentations
apart.
-/

namespace Descent

open MvPolynomial Scalar

structure Quadric (F : Type) [Field F] (n : ℕ) where
  polynomial : MvPolynomial (Fin n) F
  quadratic : polynomial.totalDegree ≤ 2
  names : List ℕ

section Presents

variable {m : Type → Type} [Monad m] {F : Type} [Field F] {n : ℕ}

/-- The function has the values of the polynomial. At every point it supplies the partial
derivatives by its variables, or none. -/
structure Nonlinear.Presents (function : Nonlinear ℕ m F n) (quadric : Quadric F n) : Prop where
  indices : function.indices.toList = quadric.names
  value (x : Vector F n) : function.value x = pure (eval x.get quadric.polynomial)
  gradient (x : Vector F n) (partials : Vector F function.arity) :
    function.gradient x partials = pure none ∨
      ∃ exact, function.gradient x partials = pure (some exact) ∧
        ∀ k (i : Fin n), function.indices.get k = i.val →
          exact.get k = eval x.get (pderiv i quadric.polynomial)

noncomputable def Linear.polynomial {I : Type} (function : Linear I F) : MvPolynomial I F :=
  (function.terms.map fun term => C term.2 * X term.1).sum - C function.rhs

/-- The weighted sum is the polynomial, and the variables are those that it mentions. -/
structure Linear.Presents (function : Linear ℕ F) (quadric : Quadric F n) : Prop where
  distinct : quadric.names.Nodup
  names (i : ℕ) : i ∈ quadric.names ↔ i ∈ function.terms.map Prod.fst
  polynomial : MvPolynomial.rename Fin.val quadric.polynomial = function.polynomial

def Constraint.Presents (constraint : Constraint ℕ m F n) (quadric : Quadric F n) : Prop :=
  match constraint.form with
  | .linear function => function.Presents quadric
  | .nonlinear function => function.Presents quadric

def Constraint.Alike (constraint constraint' : Constraint ℕ m F n) : Prop :=
  constraint.comparison = constraint'.comparison ∧ constraint.offset = constraint'.offset ∧
    ∃ quadric, constraint.Presents quadric ∧ constraint'.Presents quadric

end Presents

/-! Weighted sums. -/

section Linear

variable {F : Type} [Field F] {n : ℕ} (function : Linear (Fin n) F) (x : Vector F n)

theorem Linear.polynomial_rename : (function.rename Fin.val).polynomial =
    MvPolynomial.rename Fin.val function.polynomial := by
  simp only [polynomial, rename, map_sub, map_list_sum, List.map_map, rename_C]
  congr 3
  funext term
  simp

theorem Linear.value_eq [LinearOrder F] [Exact F] :
    function.value x = eval x.get function.polynomial := by
  have added (terms : List (Fin n × F)) (start : F) :
      terms.foldl (fun sum term => sum + term.2 * x.get term.1) start =
        start + eval x.get (terms.map fun term => C term.2 * X term.1).sum := by
    induction terms generalizing start with
    | nil => simp
    | cons term rest ih =>
      rw [List.foldl_cons, ih, List.map_cons, List.sum_cons, map_add, map_mul, eval_C, eval_X,
        add_assoc]
  rw [value, added, polynomial, map_sub, eval_C]
  ring

theorem Linear.listed_eq (j : Fin n) :
    listed function.terms j = eval x.get (pderiv j function.polynomial) := by
  have added (terms : List (Fin n × F)) : listed terms j =
      eval x.get (pderiv j (terms.map fun term => C term.2 * X term.1).sum) := by
    induction terms with
    | nil => simp [listed]
    | cons term rest ih =>
      rw [listed, List.map_cons, List.sum_cons, ← listed, ih, List.map_cons, List.sum_cons, map_add,
        map_add, pderiv_C_mul, pderiv_X, map_mul, eval_C]
      congr 1
      by_cases mentioned : term.1 = j
      · subst mentioned
        simp
      · simp [mentioned]
  rw [added, polynomial, map_sub, pderiv_C, sub_zero]

end Linear

/-! What a presentation adds to a gradient. -/

section Gradient

variable {F : Type} [Field F] {n : ℕ}

/-- Partial derivatives count as often as their variable is named. -/
noncomputable def Quadric.gradientAt (quadric : Quadric F n) (x : Vector F n) (j : Fin n) : F :=
  quadric.names.count j.val • eval x.get (pderiv j quadric.polynomial)

noncomputable def Quadric.addGradient (quadric : Quadric F n) (x : Vector F n) (scale : F)
    (gradient : Vector F n) : Vector F n :=
  Vector.ofFn fun j => gradient.get j + scale * quadric.gradientAt x j

theorem listed_eq_count {slope : Fin n → F} {parts : List (Fin n × F)}
    (told : ∀ part ∈ parts, part.2 = slope part.1) (j : Fin n) :
    listed parts j = (parts.map Prod.fst).count j • slope j := by
  induction parts with
  | nil => simp [listed]
  | cons part rest ih =>
    obtain ⟨head, tail⟩ := List.forall_mem_cons.mp told
    rw [listed, List.map_cons, List.sum_cons, ← listed, ih tail, List.map_cons, List.count_cons,
      head, add_nsmul, add_comm]
    congr 1
    by_cases same : part.1 = j
    · simp [same]
    · simp [same]

variable {m : Type → Type} [Monad m] [LawfulMonad m] [LinearOrder F] [IsStrictOrderedRing F]
  [Exact F] {quadric : Quadric F n}

section Linear

variable {function : Linear (Fin n) F} (presents : (function.rename Fin.val).Presents quadric)
include presents

omit [LinearOrder F] [IsStrictOrderedRing F] [Exact F] in
theorem Linear.polynomial_presents : quadric.polynomial = function.polynomial :=
  rename_injective _ Fin.val_injective (presents.polynomial.trans function.polynomial_rename)

omit [IsStrictOrderedRing F] in
theorem Linear.value_presents (x : Vector F n) :
    function.value x = eval x.get quadric.polynomial := by
  rw [function.value_eq, polynomial_presents presents]

omit [LinearOrder F] [IsStrictOrderedRing F] [Exact F] in
/-- Variables are named once, and those that are not named have no weights. -/
theorem Linear.listed_presents (x : Vector F n) (j : Fin n) :
    listed function.terms j = quadric.gradientAt x j := by
  have named : j.val ∈ quadric.names ↔ j ∈ function.terms.map Prod.fst := by
    rw [presents.names, rename, List.map_map, List.mem_map, List.mem_map]
    simp only [Function.comp_apply, Fin.val_inj]
  rw [Quadric.gradientAt]
  by_cases mentioned : j.val ∈ quadric.names
  · rw [List.count_eq_one_of_mem presents.distinct mentioned, one_nsmul, function.listed_eq x,
      polynomial_presents presents]
  · rw [List.count_eq_zero_of_not_mem mentioned, zero_nsmul, listed]
    apply List.sum_eq_zero
    intro weight member
    obtain ⟨term, among, rfl⟩ := List.mem_map.mp member
    refine if_neg fun same => mentioned (named.mpr ?_)
    exact List.mem_map.mpr ⟨term, among, same⟩

omit [IsStrictOrderedRing F] in
theorem Linear.addGradient_presents (x : Vector F n) (scale : F) (gradient : Vector F n) :
    function.addGradient scale gradient = quadric.addGradient x scale gradient := by
  apply Vector.ext
  intro j inside
  rw [Quadric.addGradient, Vector.getElem_ofFn, ← listed_presents presents]
  exact foldl_listed function.terms scale gradient ⟨j, inside⟩

end Linear

section Nonlinear

variable {function : Nonlinear (Fin n) m F n}
  (presents : (function.rename Fin.val).Presents quadric) (steps : Vector (Positive F) n)
include presents

theorem Nonlinear.derive_presents (x : Vector F n) :
    ∃ partials, function.derive steps x = pure partials ∧
      ∀ k, partials.get k = eval x.get (pderiv (function.indices.get k) quadric.polynomial) := by
  have answers : function.gradient x function.partials = pure none ∨
      ∃ exact, function.gradient x function.partials = pure (some exact) ∧
        ∀ k (i : Fin n), (function.indices.map Fin.val).get k = i.val →
          exact.get k = eval x.get (pderiv i quadric.polynomial) :=
    presents.gradient x function.partials
  -- Without partial derivatives the quotients stand in, which are exact.
  obtain absent | ⟨exact, present, supplied⟩ := answers
  · have parabolic (i : Fin n) : quadric.polynomial.degreeOf i ≤ 2 :=
      (degreeOf_le_totalDegree _ i).trans quadric.quadratic
    have quotients (i : Fin n) : centralDifference function.value x i (steps.get i) =
        pure (eval x.get (pderiv i quadric.polynomial)) :=
      centralDifference_polynomial (parabolic i) presents.value x (steps.get i)
    refine ⟨function.indices.map fun i => eval x.get (pderiv i quadric.polynomial), ?_, fun k => ?_⟩
    · simp only [derive, absent, pure_bind, quotients, Vector.mapM_pure]
    · exact Vector.getElem_map _ k.2
  · refine ⟨exact, ?_, fun k => supplied k (function.indices.get k) ?_⟩
    · rw [derive, present, pure_bind]
    · exact Vector.getElem_map _ k.2

theorem Nonlinear.addGradient_presents (x : Vector F n) (scale : F) (gradient : Vector F n) :
    ∃ left, function.addGradient steps x scale gradient =
        pure (left, quadric.addGradient x scale gradient) ∧
      (left.rename Fin.val).Presents quadric := by
  obtain ⟨partials, derives, exact⟩ := derive_presents presents steps x
  refine ⟨{ function with partials }, ?_, presents.indices, presents.value, presents.gradient⟩
  let slope (i : Fin n) : F := eval x.get (pderiv i quadric.polynomial)
  have told : ∀ part ∈ (function.indices.zip partials).toList, part.2 = slope part.1 := by
    intro part member
    obtain ⟨k, inside, rfl⟩ := Vector.getElem_of_mem (Vector.mem_toList_iff.mp member)
    rw [Vector.getElem_zip]
    exact exact ⟨k, inside⟩
  have names : ((function.indices.zip partials).toList.map Prod.fst).map Fin.val =
      quadric.names := by
    rw [← presents.indices, rename, Vector.toList_map, Vector.toList_zip, List.map_fst_zip]
    rw [Vector.length_toList, Vector.length_toList]
  have added : addPartials function.indices partials scale gradient =
      quadric.addGradient x scale gradient := by
    apply Vector.ext
    intro j inside
    rw [Quadric.addGradient, Vector.getElem_ofFn, Quadric.gradientAt, ← names,
      List.count_map_of_injective _ _ Fin.val_injective, ← listed_eq_count told, ← foldl_listed,
      Vector.foldl_toList]
    rfl
  rw [addGradient, derives, pure_bind, added]

end Nonlinear

end Gradient

/-! Constraints and problems whose variables have positions. -/

section Positions

variable {m : Type → Type} [Monad m] [LawfulMonad m] {F : Type} [Field F] [LinearOrder F]
  [IsStrictOrderedRing F] [Exact F] {n : ℕ}

section Single

variable {constraint : Constraint (Fin n) m F n} {quadric : Quadric F n}
  (presents : (constraint.rename Fin.val).Presents quadric)
include presents

omit [LawfulMonad m] [IsStrictOrderedRing F] in
theorem Constraint.value_presents (x : Vector F n) :
    constraint.value x = pure (eval x.get quadric.polynomial) := by
  obtain ⟨form, comparison, offset⟩ := constraint
  cases form with
  | linear function => exact congrArg pure (Linear.value_presents presents x)
  | nonlinear function => exact Nonlinear.Presents.value presents x

theorem Constraint.addGradient_presents (steps : Vector (Positive F) n) (x : Vector F n)
    (scale : F) (gradient : Vector F n) :
    ∃ left, constraint.addGradient steps x scale gradient =
        pure (left, quadric.addGradient x scale gradient) ∧
      left.comparison = constraint.comparison ∧ left.offset = constraint.offset ∧
      (left.rename Fin.val).Presents quadric := by
  obtain ⟨form, comparison, offset⟩ := constraint
  cases form with
  | linear function =>
    refine ⟨_, ?_, rfl, rfl, presents⟩
    exact congrArg (fun added => pure (_, added))
      (Linear.addGradient_presents presents x scale gradient)
  | nonlinear function =>
    obtain ⟨left, added, kept⟩ := Nonlinear.addGradient_presents presents steps x scale gradient
    refine ⟨⟨.nonlinear left, comparison, offset⟩, ?_, rfl, rfl, kept⟩
    simp only [addGradient, added, pure_bind]

end Single

def Constraint.AlikeAt (constraint constraint' : Constraint (Fin n) m F n) : Prop :=
  (constraint.rename Fin.val).Alike (constraint'.rename Fin.val)

section Pairs

variable {constraint constraint' : Constraint (Fin n) m F n}
  (alike : constraint.AlikeAt constraint')
include alike

omit [LawfulMonad m] [IsStrictOrderedRing F] in
theorem Constraint.AlikeAt.value (x : Vector F n) :
    ∃ value, constraint.value x = pure value ∧ constraint'.value x = pure value := by
  obtain ⟨-, -, quadric, first, second⟩ := alike
  exact ⟨_, value_presents first x, value_presents second x⟩

omit [LawfulMonad m] [IsStrictOrderedRing F] in
theorem Constraint.AlikeAt.shifted? (value : F) :
    constraint.shifted? value = constraint'.shifted? value := by
  obtain ⟨comparison, offset, -⟩ := alike
  exact congrArg₂ (fun comparison offset => comparison.shifted? value offset) comparison offset

theorem Constraint.AlikeAt.addGradient (steps steps' : Vector (Positive F) n) (x : Vector F n)
    (scale : F) (gradient : Vector F n) :
    ∃ left left' added, constraint.addGradient steps x scale gradient = pure (left, added) ∧
      constraint'.addGradient steps' x scale gradient = pure (left', added) ∧
      left.AlikeAt left' := by
  obtain ⟨comparison, offset, quadric, first, second⟩ := alike
  obtain ⟨left, adds, compares, shifts, kept⟩ :=
    addGradient_presents first steps x scale gradient
  obtain ⟨left', adds', compares', shifts', kept'⟩ :=
    addGradient_presents second steps' x scale gradient
  exact ⟨left, left', _, adds, adds', compares.trans (comparison.trans compares'.symm),
    shifts.trans (offset.trans shifts'.symm), quadric, kept, kept'⟩

omit [LawfulMonad m] [IsStrictOrderedRing F] in
theorem Constraint.AlikeAt.adjustOffset (value rate : F) :
    (constraint.adjustOffset value rate).AlikeAt (constraint'.adjustOffset value rate) := by
  obtain ⟨comparison, offset, presented⟩ := alike
  refine ⟨comparison, ?_, presented⟩
  exact congrArg₂ (fun comparison offset => comparison.clamp (offset - rate * value)) comparison
    offset

end Pairs

namespace Problem

section Lists

variable {constraints constraints' : List (Constraint (Fin n) m F n)}
  (alike : List.Forall₂ Constraint.AlikeAt constraints constraints')
include alike

theorem penalize_alike (steps steps' : Vector (Positive F) n) (x : Vector F n) (total : F)
    (gradient : Vector F n) :
    ∃ left left' answer, penalize steps x constraints total gradient = pure (left, answer) ∧
      penalize steps' x constraints' total gradient = pure (left', answer) ∧
      List.Forall₂ Constraint.AlikeAt left left' := by
  -- Values and offsets agree, so paired constraints are active together.
  induction alike generalizing total gradient with
  | nil => exact ⟨[], [], _, rfl, rfl, .nil⟩
  | @cons constraint constraint' rest rest' head _ ih =>
    obtain ⟨value, first, second⟩ := head.value x
    simp only [penalize, first, second, pure_bind, head.shifted? value]
    cases constraint'.shifted? value with
    | none =>
      obtain ⟨left, left', answer, penalizes, penalizes', others⟩ := ih total gradient
      refine ⟨constraint :: left, constraint' :: left', answer, ?_, ?_, .cons head others⟩
      · simp only [penalizes, pure_bind]
      · simp only [penalizes', pure_bind]
    | some shifted =>
      obtain ⟨derived, derived', added, adds, adds', kept⟩ :=
        head.addGradient steps steps' x (shifted + shifted) gradient
      obtain ⟨left, left', answer, penalizes, penalizes', others⟩ :=
        ih (total + shifted * shifted) added
      refine ⟨derived :: left, derived' :: left', answer, ?_, ?_, .cons kept others⟩
      · simp only [adds, penalizes, pure_bind]
      · simp only [adds', penalizes', pure_bind]

omit [LawfulMonad m] [IsStrictOrderedRing F] in
theorem exists_rules :
    ∃ rules, Rule.DescribeAll rules constraints ∧ Rule.DescribeAll rules constraints' := by
  induction alike with
  | nil => exact ⟨[], .nil, .nil⟩
  | @cons constraint constraint' _ _ head _ ih =>
    obtain ⟨rules, described, described'⟩ := ih
    obtain ⟨comparison, -, quadric, first, second⟩ := head
    refine ⟨⟨constraint.comparison, fun x => eval x.get quadric.polynomial⟩ :: rules,
      .cons ⟨rfl, Constraint.value_presents first⟩ described,
      .cons ⟨comparison.symm, Constraint.value_presents second⟩ described'⟩

omit [IsStrictOrderedRing F] in
theorem adjustOffsets_alike (rate : F) (x : Vector F n) :
    ∃ left left',
      (constraints.mapM fun constraint => do
        pure (constraint.adjustOffset (← constraint.value x) rate)) = (pure left : m _) ∧
      (constraints'.mapM fun constraint => do
        pure (constraint.adjustOffset (← constraint.value x) rate)) = (pure left' : m _) ∧
      List.Forall₂ Constraint.AlikeAt left left' := by
  induction alike with
  | nil => exact ⟨[], [], rfl, rfl, .nil⟩
  | @cons constraint constraint' rest rest' head _ ih =>
    obtain ⟨value, first, second⟩ := head.value x
    obtain ⟨left, left', adjusts, adjusts', others⟩ := ih
    refine ⟨constraint.adjustOffset value rate :: left,
      constraint'.adjustOffset value rate :: left', ?_, ?_,
      .cons (head.adjustOffset value rate) others⟩
    · simp only [List.mapM_cons, first, pure_bind, adjusts]
    · simp only [List.mapM_cons, second, pure_bind, adjusts']

end Lists

structure Alike (problem problem' : Problem m F n) : Prop where
  objective : ∃ quadric, (problem.objective.rename Fin.val).Presents quadric ∧
    (problem'.objective.rename Fin.val).Presents quadric
  constraints : List.Forall₂ Constraint.AlikeAt problem.constraints problem'.constraints

namespace Alike

variable {problem problem' : Problem m F n} (alike : problem.Alike problem')
include alike

omit [LawfulMonad m] [IsStrictOrderedRing F] in
theorem value (x : Vector F n) :
    ∃ value, problem.objective.value x = pure value ∧ problem'.objective.value x = pure value := by
  obtain ⟨quadric, first, second⟩ := alike.objective
  exact ⟨_, first.value x, second.value x⟩

theorem evaluate (x : Vector F n) :
    ∃ left left' answer, problem.evaluate x = pure (answer, left) ∧
      problem'.evaluate x = pure (answer, left') ∧ left.Alike left' := by
  obtain ⟨value, first, second⟩ := alike.value x
  obtain ⟨quadric, presents, presents'⟩ := alike.objective
  obtain ⟨objective, adds, kept⟩ :=
    Nonlinear.addGradient_presents presents problem.steps x 1 (Kernel.zeros n)
  obtain ⟨objective', adds', kept'⟩ :=
    Nonlinear.addGradient_presents presents' problem'.steps x 1 (Kernel.zeros n)
  obtain ⟨left, left', answer, penalizes, penalizes', others⟩ := penalize_alike alike.constraints
    problem.steps problem'.steps x value (quadric.addGradient x 1 (Kernel.zeros n))
  refine ⟨{ problem with objective, constraints := left },
    { problem' with objective := objective', constraints := left' }, answer, ?_, ?_,
    ⟨quadric, kept, kept'⟩, others⟩
  · simp only [Problem.evaluate, first, adds, penalizes, pure_bind]
  · simp only [Problem.evaluate, second, adds', penalizes', pure_bind]

end Alike

/-- A solve cannot tell presentations apart. -/
theorem alike_indistinct [Limited F] :
    Penalty.Indistinct (Alike : Problem m F n → Problem m F n → Prop) where
  value alike x := by
    obtain ⟨value, first, second⟩ := alike.value x
    rw [first, second]
    exact coupled_pure rfl
  evaluate alike x := by
    obtain ⟨left, left', answer, first, second, kept⟩ := alike.evaluate x
    rw [first, second]
    exact coupled_pure ⟨rfl, kept⟩
  maxViolation alike x := by
    obtain ⟨rules, described, described'⟩ := exists_rules alike.constraints
    rw [maxViolation, maxViolation, Descent.maxViolation, Descent.maxViolation,
      Rule.maxViolation_described described, Rule.maxViolation_described described']
    exact coupled_pure rfl
  adjustOffsets alike rate x := by
    obtain ⟨left, left', adjusts, adjusts', kept⟩ := adjustOffsets_alike alike.constraints rate x
    rw [adjustOffsets, adjustOffsets, adjusts, adjusts', pure_bind, pure_bind]
    exact coupled_pure ⟨alike.objective, kept⟩
  offsets := by
    rintro problem problem' ⟨-, constraints⟩
    generalize problem.constraints = ours at constraints
    generalize problem'.constraints = theirs at constraints
    induction constraints with
    | nil => rfl
    | cons head _ ih => exact congrArg₂ List.cons head.2.1 ih

end Problem

end Positions

/-! Naming the variables of presentations. They mention the same ones, so they are accepted together
or turned down together. -/

section Naming

variable {m : Type → Type} {F : Type} {n : ℕ}

theorem exists_of_mapM_some {A B : Type} {f : A → Option B} {items : List A} {answers : List B}
    (looped : items.mapM f = some answers) : ∀ item ∈ items, ∃ answer, f item = some answer := by
  have paired := forall₂_of_mapM_some looped
  clear looped
  induction paired with
  | nil => exact fun _ member => nomatch member
  | @cons item answer _ _ head _ ih =>
    intro asked member
    obtain rfl | later := List.mem_cons.mp member
    · exact ⟨answer, head⟩
    · exact ih asked later

theorem lt_of_position? {index : ℕ} {i : Fin n} (found : position? n index = some i) :
    index < n := by
  by_contra outside
  rw [position?, dif_neg outside] at found
  cases found

theorem Nonlinear.exists_rename {function : Nonlinear ℕ m F n}
    (inside : ∀ i ∈ function.indices.toList, i < n) :
    ∃ named : Nonlinear (Fin n) m F n, named.rename Fin.val = function := by
  have within (k : Fin function.arity) : function.indices.get k < n :=
    inside _ (Vector.mem_toList_iff.mpr (Vector.getElem_mem k.2))
  have back : (Vector.ofFn fun k => (⟨function.indices.get k, within k⟩ : Fin n)).map Fin.val =
      function.indices := by
    apply Vector.ext
    intro k inside
    rw [Vector.getElem_map, Vector.getElem_ofFn]
    rfl
  refine ⟨{ function with indices := Vector.ofFn fun k => ⟨function.indices.get k, within k⟩ }, ?_⟩
  rw [rename, back]

theorem Nonlinear.lt_of_rename? {function : Nonlinear ℕ m F n} {named : Nonlinear (Fin n) m F n}
    (renamed : function.rename? (position? n) = some named) :
    ∀ i ∈ function.indices.toList, i < n := by
  obtain ⟨indices, looped, -⟩ := Option.bind_eq_some_iff.mp renamed
  have listed : function.indices.toList.mapM (position? n) = some indices.toList := by
    rw [← toList_mapM, looped]
    rfl
  intro i member
  obtain ⟨position, found⟩ := exists_of_mapM_some listed i member
  exact lt_of_position? found

theorem Linear.exists_rename {function : Linear ℕ F}
    (inside : ∀ i ∈ function.terms.map Prod.fst, i < n) :
    ∃ named : Linear (Fin n) F, named.rename Fin.val = function := by
  have within : ∀ term ∈ function.terms, term.1 < n :=
    fun term member => inside _ (List.mem_map_of_mem member)
  let place (term : ℕ × F) (below : term.1 < n) : Fin n × F := (⟨term.1, below⟩, term.2)
  refine ⟨{ function with terms := function.terms.pmap place within }, ?_⟩
  simp [rename, List.map_pmap, place]

theorem Linear.lt_of_rename? {function : Linear ℕ F} {named : Linear (Fin n) F}
    (renamed : function.rename? (position? n) = some named) :
    ∀ i ∈ function.terms.map Prod.fst, i < n := by
  obtain ⟨terms, looped, -⟩ := Option.bind_eq_some_iff.mp renamed
  intro i member
  obtain ⟨term, among, rfl⟩ := List.mem_map.mp member
  obtain ⟨answer, found⟩ := exists_of_mapM_some looped term among
  obtain ⟨position, placed, -⟩ := Option.bind_eq_some_iff.mp found
  exact lt_of_position? placed

namespace Constraint

def names (constraint : Constraint ℕ m F n) : List ℕ :=
  match constraint.form with
  | .linear function => function.terms.map Prod.fst
  | .nonlinear function => function.indices.toList

theorem exists_rename {constraint : Constraint ℕ m F n} (inside : ∀ i ∈ constraint.names, i < n) :
    ∃ named : Constraint (Fin n) m F n, named.rename Fin.val = constraint := by
  obtain ⟨form, comparison, offset⟩ := constraint
  cases form with
  | linear function =>
    obtain ⟨named, rfl⟩ := Linear.exists_rename inside
    exact ⟨⟨.linear named, comparison, offset⟩, rfl⟩
  | nonlinear function =>
    obtain ⟨named, rfl⟩ := Nonlinear.exists_rename inside
    exact ⟨⟨.nonlinear named, comparison, offset⟩, rfl⟩

theorem lt_of_rename? {constraint : Constraint ℕ m F n} {named : Constraint (Fin n) m F n}
    (renamed : constraint.rename? (position? n) = some named) : ∀ i ∈ constraint.names, i < n := by
  obtain ⟨_, _, forms⟩ := rename?_eq_some renamed
  rw [names]
  rcases forms with ⟨function, left, stated, found, -⟩ | ⟨function, left, stated, found, -⟩
  · rw [stated]
    exact Linear.lt_of_rename? found
  · rw [stated]
    exact Nonlinear.lt_of_rename? found

theorem mem_names_iff [Monad m] [Field F] {constraint : Constraint ℕ m F n} {quadric : Quadric F n}
    (presents : constraint.Presents quadric) (i : ℕ) :
    i ∈ constraint.names ↔ i ∈ quadric.names := by
  obtain ⟨form, comparison, offset⟩ := constraint
  cases form with
  | linear function => exact (Linear.Presents.names presents i).symm
  | nonlinear function => rw [← Nonlinear.Presents.indices presents, names]

end Constraint

section Pairs

variable [Monad m] [Field F]

section Named

variable {quadric : Quadric F n}

theorem Nonlinear.rename?_inside {function : Nonlinear ℕ m F n}
    (presents : function.Presents quadric) (inside : ∀ i ∈ quadric.names, i < n) :
    ∃ named, function.rename? (position? n) = some named ∧ named.rename Fin.val = function := by
  obtain ⟨named, rfl⟩ := exists_rename fun i member => inside i (presents.indices ▸ member)
  exact ⟨named, rename?_rename named, rfl⟩

theorem Nonlinear.rename?_outside {function : Nonlinear ℕ m F n}
    (presents : function.Presents quadric) (outside : ¬ ∀ i ∈ quadric.names, i < n) :
    function.rename? (position? n) = none := by
  refine Option.eq_none_iff_forall_ne_some.mpr fun named renamed => outside ?_
  exact presents.indices ▸ lt_of_rename? renamed

theorem Constraint.rename?_inside {constraint : Constraint ℕ m F n}
    (presents : constraint.Presents quadric) (inside : ∀ i ∈ quadric.names, i < n) :
    ∃ named, constraint.rename? (position? n) = some named ∧
      named.rename Fin.val = constraint := by
  obtain ⟨named, rfl⟩ :=
    exists_rename fun i member => inside i ((mem_names_iff presents i).mp member)
  exact ⟨named, rename?_rename named, rfl⟩

theorem Constraint.rename?_outside {constraint : Constraint ℕ m F n}
    (presents : constraint.Presents quadric) (outside : ¬ ∀ i ∈ quadric.names, i < n) :
    constraint.rename? (position? n) = none := by
  refine Option.eq_none_iff_forall_ne_some.mpr fun named renamed => outside fun i member => ?_
  exact lt_of_rename? renamed i ((mem_names_iff presents i).mpr member)

end Named

/-- Either the variables of a polynomial are all there, or no presentation of it has positions. -/
theorem Nonlinear.rename?_alike {function function' : Nonlinear ℕ m F n} {quadric : Quadric F n}
    (presents : function.Presents quadric) (presents' : function'.Presents quadric) :
    (∃ named named', function.rename? (position? n) = some named ∧
        function'.rename? (position? n) = some named' ∧
        (named.rename Fin.val).Presents quadric ∧ (named'.rename Fin.val).Presents quadric) ∨
      function.rename? (position? n) = none ∧ function'.rename? (position? n) = none := by
  by_cases inside : ∀ i ∈ quadric.names, i < n
  · obtain ⟨named, renamed, rfl⟩ := rename?_inside presents inside
    obtain ⟨named', renamed', rfl⟩ := rename?_inside presents' inside
    exact .inl ⟨named, named', renamed, renamed', presents, presents'⟩
  · exact .inr ⟨rename?_outside presents inside, rename?_outside presents' inside⟩

theorem Constraint.Alike.rename? {constraint constraint' : Constraint ℕ m F n}
    (alike : constraint.Alike constraint') :
    (∃ named named', constraint.rename? (position? n) = some named ∧
        constraint'.rename? (position? n) = some named' ∧ named.AlikeAt named') ∨
      constraint.rename? (position? n) = none ∧ constraint'.rename? (position? n) = none := by
  obtain ⟨quadric, presents, presents'⟩ := alike.2.2
  by_cases inside : ∀ i ∈ quadric.names, i < n
  · obtain ⟨named, renamed, rfl⟩ := rename?_inside presents inside
    obtain ⟨named', renamed', rfl⟩ := rename?_inside presents' inside
    exact .inl ⟨named, named', renamed, renamed', alike⟩
  · exact .inr ⟨rename?_outside presents inside, rename?_outside presents' inside⟩

theorem mapM_rename?_alike {constraints constraints' : List (Constraint ℕ m F n)}
    (alike : List.Forall₂ Constraint.Alike constraints constraints') :
    (∃ named named', constraints.mapM (Constraint.rename? (position? n)) = some named ∧
        constraints'.mapM (Constraint.rename? (position? n)) = some named' ∧
        List.Forall₂ Constraint.AlikeAt named named') ∨
      constraints.mapM (Constraint.rename? (position? n)) = none ∧
        constraints'.mapM (Constraint.rename? (position? n)) = none := by
  induction alike with
  | nil => exact .inl ⟨[], [], rfl, rfl, .nil⟩
  | cons head _ ih =>
    rw [List.mapM_cons, List.mapM_cons]
    obtain ⟨first, first', named, named', paired⟩ | ⟨absent, absent'⟩ := head.rename?
    · rw [named, named']
      obtain ⟨others, others', stated, stated', rest⟩ | ⟨absent, absent'⟩ := ih
      · rw [stated, stated']
        exact .inl ⟨first :: others, first' :: others', rfl, rfl, .cons paired rest⟩
      · rw [absent, absent']
        exact .inr ⟨rfl, rfl⟩
    · rw [absent, absent']
      exact .inr ⟨rfl, rfl⟩

end Pairs

/-- Presentations of one problem are accepted together, or turned down for the same reason. -/
theorem Problem.create_alike [Monad m] [Field F] [LinearOrder F] [Exact F]
    {objective objective' : Nonlinear ℕ m F n} {quadric : Quadric F n}
    (presents : objective.Presents quadric) (presents' : objective'.Presents quadric)
    {constraints constraints' : List (Constraint ℕ m F n)}
    (alike : List.Forall₂ Constraint.Alike constraints constraints') (stepSizes : Array F) :
    (∃ problem problem', create objective constraints stepSizes = .ok problem ∧
        create objective' constraints' stepSizes = .ok problem' ∧ problem.Alike problem') ∨
      ∃ fault, create objective constraints stepSizes = .error fault ∧
        create objective' constraints' stepSizes = .error fault := by
  unfold create
  by_cases counted : stepSizes.size = n
  · rw [dif_pos counted, dif_pos counted]
    cases (⟨stepSizes, counted⟩ : Vector F n).mapM positive? with
    | none => exact .inr ⟨_, rfl, rfl⟩
    | some steps =>
      obtain ⟨named, named', first, first', kept, kept'⟩ | ⟨absent, absent'⟩ :=
        Nonlinear.rename?_alike presents presents'
      · rw [first, first']
        obtain ⟨others, others', second, second', paired⟩ | ⟨absent, absent'⟩ :=
          mapM_rename?_alike alike
        · rw [second, second']
          exact .inl ⟨_, _, rfl, rfl, ⟨quadric, kept, kept'⟩, paired⟩
        · rw [absent, absent']
          exact .inr ⟨_, rfl, rfl⟩
      · rw [absent, absent']
        exact .inr ⟨_, rfl, rfl⟩
  · rw [dif_neg counted, dif_neg counted]
    exact .inr ⟨_, rfl, rfl⟩

end Naming

namespace Penalty

/-- Solves of two presentations of a problem are the same program but for the functions that they
leave: they find the same point, leave the same offsets and make the same report. Differences are
taken in place, and every evaluation leaves its point exactly as it was. -/
theorem solve_presentations {m : Type → Type} [Monad m] [LawfulMonad m] [MonadExceptOf Fault m]
    {F : Type} [Field F] [LinearOrder F] [IsStrictOrderedRing F] [Exact F] [Limited F] {n : ℕ}
    (settings : PenaltySettings F) (runner : Runner) (watch : Watch m F) (x : Vector F n)
    {objective objective' : Nonlinear ℕ m F n} {quadric : Quadric F n}
    (presents : objective.Presents quadric) (presents' : objective'.Presents quadric)
    {constraints constraints' : List (Constraint ℕ m F n)}
    (alike : List.Forall₂ Constraint.Alike constraints constraints') (stepSizes : Array F) :
    view <$> solve settings runner watch x objective constraints stepSizes =
        view <$> solve settings runner watch x objective' constraints' stepSizes ∧
      ∀ (problem : Problem m F n) (point : Vector F n),
        problem.evaluateInPlace.run point =
          (fun answer => (answer, point)) <$> problem.evaluate point := by
  refine ⟨?_, Problem.evaluateInPlace_run⟩
  obtain ⟨problem, problem', created, created', related⟩ | ⟨fault, failed, failed'⟩ :=
    Problem.create_alike presents presents' alike stepSizes
  · exact Problem.alike_indistinct.solve_view settings runner watch x created created' related
  · rw [solve, solve, failed, failed']

def squared (supplied : Bool) : Nonlinear ℕ (Except Fault) Fraction 1 :=
  .create #[0] (fun x => pure (x.get 0 * x.get 0))
    fun x _ => pure (if supplied then some #v[x.get 0 + x.get 0] else none)

def atLeastOne : Constraint ℕ (Except Fault) Fraction 1 :=
  .create (.linear { terms := [(0, 1), (0, 1), (0, -1)], rhs := 1 }) .greaterThan

def notBelowOne : Constraint ℕ (Except Fault) Fraction 1 :=
  .create (.nonlinear (.create #[0] (fun x => pure (x.get 0 - 1)) fun _ _ => pure none))
    .greaterThan

def hurried : PenaltySettings Fraction :=
  { PenaltySettings.standard with innerIterations := 2, outerIterations := 2 }

noncomputable def squareOfVariable : Quadric Fraction 1 where
  polynomial := X 0 ^ 2
  quadratic := (totalDegree_X_pow (R := Fraction) (0 : Fin 1) 2).le
  names := [0]

noncomputable def lessOne : Quadric Fraction 1 where
  polynomial := X 0 - C 1
  quadratic := by
    refine (totalDegree_sub_C_le _ _).trans ?_
    rw [totalDegree_X]
    exact one_le_two
  names := [0]

theorem squared_presents (supplied : Bool) : (squared supplied).Presents squareOfVariable where
  indices := rfl
  value x := by simp [squared, Nonlinear.create, squareOfVariable, sq]
  gradient x partials := by
    cases supplied with
    | false => exact .inl rfl
    | true =>
      refine .inr ⟨#v[x.get 0 + x.get 0], rfl, fun k i _ => ?_⟩
      obtain rfl : i = 0 := Subsingleton.elim i 0
      have slope : eval x.get (pderiv 0 squareOfVariable.polynomial) = x.get 0 + x.get 0 := by
        simp [squareOfVariable, two_mul]
      rw [slope]
      obtain ⟨_ | _, below⟩ := k
      · rfl
      · exact absurd below (by simp [squared, Nonlinear.create])

theorem atLeastOne_presents : atLeastOne.Presents lessOne where
  distinct := List.nodup_singleton 0
  names i := by simp [lessOne]
  polynomial := by
    rw [lessOne, map_sub, rename_X, rename_C]
    change X 0 - C 1 = C 1 * X 0 + (C 1 * X 0 + (C (-1) * X 0 + 0)) - C 1
    rw [C_neg, C_1]
    ring

theorem notBelowOne_presents : notBelowOne.Presents lessOne where
  indices := rfl
  value x := by simp [Nonlinear.create, lessOne]
  gradient _ _ := .inl rfl

theorem atLeastOne_alike : atLeastOne.Alike notBelowOne :=
  ⟨rfl, rfl, lessOne, atLeastOne_presents, notBelowOne_presents⟩

/-- What was computed with the derivative and the weighted sum holds without them. -/
theorem solve_presentations_squared :
    (squared true).Presents squareOfVariable ∧ (squared false).Presents squareOfVariable ∧
    List.Forall₂ Constraint.Alike [atLeastOne] [notBelowOne] ∧
    ∃ solution solution',
      solve hurried .inOrder (.idle false) #v[0] (squared true) [atLeastOne] #[1] = .ok solution ∧
      solve hurried .inOrder (.idle false) #v[0] (squared false) [notBelowOne] #[1] =
        .ok solution' ∧
      solution.x = #v[3 / 4] ∧ solution.report.evaluations = 8 ∧
      solution'.x = #v[3 / 4] ∧ solution'.report.evaluations = 8 ∧
      solution'.constraints.map (·.offset) = solution.constraints.map (·.offset) := by
  have alike : List.Forall₂ Constraint.Alike [atLeastOne] [notBelowOne] :=
    .cons atLeastOne_alike .nil
  obtain ⟨same, -⟩ := solve_presentations hurried .inOrder (.idle false) #v[0]
    (squared_presents true) (squared_presents false) alike #[1]
  obtain ⟨solution, solved, x, evaluations⟩ :
      Yields (solve hurried .inOrder (.idle false) #v[0] (squared true) [atLeastOne] #[1])
        (fun solution => solution.x = #v[3 / 4] ∧ solution.report.evaluations = 8) := by
    decide +kernel
  rw [solved] at same
  cases solved' : solve hurried .inOrder (.idle false) #v[0] (squared false) [notBelowOne] #[1] with
  | error fault =>
    rw [solved'] at same
    exact nomatch same
  | ok solution' =>
    rw [solved'] at same
    obtain ⟨point, rest⟩ := Prod.mk.inj (Except.ok.inj same)
    obtain ⟨offsets, report⟩ := Prod.mk.inj rest
    exact ⟨squared_presents true, squared_presents false, alike, solution, solution', solved, rfl,
      x, evaluations, point ▸ x, report ▸ evaluations, offsets.symm⟩

end Penalty

end Descent

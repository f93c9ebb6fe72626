import Descent.Proofs.Binary
import Descent.Proofs.Round

/-!
What a successful solve says about its constraints. The largest violation counts an undefined
value as none, so success with a tolerance means that every constraint with a defined value holds
within it, and no more: all constraints hold exactly if none of the values is undefined.
-/

namespace Descent

open Scalar Execution

section Comparison

variable {F : Type} [Unbounded F]

/-- Whether a value compares with zero as it should, up to a tolerance. -/
def Comparison.Holds (comparison : Comparison) (tolerance value : F) : Prop :=
  match comparison with
  | equal => Scalar.abs value ≤ tolerance
  | greaterThan => -tolerance ≤ value
  | lessThan => value ≤ tolerance

instance (comparison : Comparison) (tolerance value : F) :
    Decidable (comparison.Holds tolerance value) :=
  match comparison with
  | .equal => Scalar.atMostDecidable _ _
  | .greaterThan => Scalar.atMostDecidable _ _
  | .lessThan => Scalar.atMostDecidable _ _

variable [Lawful F]

theorem Comparison.violation_defined (comparison : Comparison) {value : F}
    (defined : value ≤ value) :
    comparison.violation value ≤ comparison.violation value := by
  cases comparison with
  | equal => exact Lawful.abs_defined_iff.mpr defined
  | greaterThan => exact Lawful.maxNum_defined (Lawful.neg_defined defined)
  | lessThan => exact Lawful.maxNum_defined defined

theorem Comparison.holds_iff (comparison : Comparison) {tolerance value : F}
    (nonnegative : 0 ≤ tolerance) :
    comparison.Holds tolerance value ↔
      value ≤ value ∧ comparison.violation value ≤ tolerance := by
  cases comparison with
  | equal =>
    constructor
    · intro holds
      exact ⟨Lawful.abs_defined_iff.mp (Lawful.defined_of_le holds).1, holds⟩
    · exact fun within => within.2
  | greaterThan =>
    constructor
    · intro holds
      have defined := (Lawful.defined_of_le holds).2
      exact ⟨defined, (Lawful.maxNum_le_iff (Lawful.neg_defined defined)).mpr
        ⟨Lawful.neg_le_of_neg_le holds, fun _ => nonnegative⟩⟩
    · rintro ⟨defined, within⟩
      exact Lawful.neg_le_of_neg_le
        ((Lawful.maxNum_le_iff (Lawful.neg_defined defined)).mp within).1
  | lessThan =>
    constructor
    · intro holds
      have defined := (Lawful.defined_of_le holds).1
      exact ⟨defined, (Lawful.maxNum_le_iff defined).mpr ⟨holds, fun _ => nonnegative⟩⟩
    · rintro ⟨defined, within⟩
      exact ((Lawful.maxNum_le_iff defined).mp within).1

end Comparison

/-! Constraints as stated and as solved for have the same values. -/

section Naming

variable {m : Type → Type} {F : Type} {n : Nat}

theorem position?_val (i : Fin n) : position? n i.val = some i := by
  simp [position?]

theorem Linear.rename?_rename (function : Linear (Fin n) F) :
    (function.rename Fin.val).rename? (position? n) = some function := by
  have terms (terms : List (Fin n × F)) :
      (terms.map fun term => (term.1.val, term.2)).mapM
        (fun term => do return (← position? n term.1, term.2)) = some terms := by
    induction terms with
    | nil => rfl
    | cons term rest ih =>
      rw [List.map_cons, List.mapM_cons, ih, position?_val]
      rfl
  simp only [rename, rename?]
  rw [terms]
  rfl

theorem Constraint.valueAt_rename [Scalar F] [Monad m] [MonadExceptOf Fault m]
    (constraint : Constraint (Fin n) m F n) (x : Vector F n) :
    (constraint.rename Fin.val).valueAt x = constraint.value x := by
  cases constraint with
  | mk form comparison offset =>
    cases form with
    | linear function => simp [rename, valueAt, value, Linear.rename?_rename]
    | nonlinear function => rfl

end Naming

namespace Penalty

variable {m : Type → Type} [Monad m] [LawfulMonad m] [MonadExceptOf Fault m] {World : Type}
variable [Execution m World]
variable {F : Type} [Unbounded F] {n : Nat}
variable {settings : PenaltySettings F} {runner : Runner} {watch : Watch m F}
variable {before after : World}

theorem maxViolation_returns {constraints : List (Constraint (Fin n) m F n)} {x : Vector F n}
    {start worst : F}
    (ran : Returns
      (constraints.foldlM
        (fun worst constraint => return maxNum worst (← constraint.violation x)) start) before
      worst after) :
    ∃ values, Returns (constraints.mapM fun constraint => constraint.value x) before values
        after ∧
      values.length = constraints.length ∧
      worst = ((constraints.zip values).map fun pair =>
        pair.1.comparison.violation pair.2).foldl maxNum start := by
  induction constraints generalizing start before with
  | nil =>
    obtain ⟨rfl, rfl⟩ := returns_pure.mp ran
    exact ⟨[], returns_pure.mpr ⟨rfl, rfl⟩, rfl, rfl⟩
  | cons constraint rest ih =>
    rw [List.foldlM_cons] at ran
    obtain ⟨_, middle, first, others⟩ := returns_bind.mp ran
    simp only [Constraint.violation, bind_assoc, pure_bind] at first
    obtain ⟨value, _, read, same⟩ := returns_bind.mp first
    obtain ⟨rfl, rfl⟩ := returns_pure.mp same
    obtain ⟨values, reads, counted, rfl⟩ := ih others
    refine ⟨value :: values, ?_, congrArg (· + 1) counted, rfl⟩
    rw [List.mapM_cons]
    exact returns_bind.mpr ⟨value, middle, read,
      returns_bind.mpr ⟨values, after, reads, returns_pure.mpr ⟨rfl, rfl⟩⟩⟩

omit [LawfulMonad m] in
theorem finalStatus_returns {status found : Status} {worst : F}
    (ran : Returns (finalStatus settings watch status worst) before found after) :
    (status = .unbounded ∧ found = .unbounded ∧ after = before) ∨
      status ≠ .unbounded ∧ ∃ cancelled, Returns watch.isCancelled before cancelled after ∧
        (((cancelled = true ∨
              settings.checksTolerance = true ∧ settings.violationTolerance < worst) ∧
            found = .suboptimal) ∨
          (cancelled = false ∧
            ¬ (settings.checksTolerance = true ∧ settings.violationTolerance < worst) ∧
            found = status)) := by
  simp only [finalStatus] at ran
  split at ran
  · next unbounded =>
    obtain ⟨rfl, rfl⟩ := returns_pure.mp ran
    exact .inl ⟨unbounded, unbounded, rfl⟩
  · next bounded =>
    obtain ⟨cancelled, _, polled, rest⟩ := returns_bind.mp ran
    split at rest
    · next fails =>
      obtain ⟨rfl, rfl⟩ := returns_pure.mp rest
      exact .inr ⟨bounded, cancelled, polled, .inl ⟨by simpa using fails, rfl⟩⟩
    · next holds =>
      obtain ⟨rfl, rfl⟩ := returns_pure.mp rest
      have kept : cancelled = false ∧
          ¬ (settings.checksTolerance = true ∧ settings.violationTolerance < worst) := by
        simpa using holds
      exact .inr ⟨bounded, cancelled, polled, .inr ⟨kept.1, kept.2, rfl⟩⟩

omit [LawfulMonad m] in
theorem finalStatus_success {status : Status} {worst : F}
    (ran : Returns (finalStatus settings watch status worst) before .success after) :
    Returns watch.isCancelled before false after ∧
      ¬ (settings.checksTolerance = true ∧ settings.violationTolerance < worst) := by
  rcases finalStatus_returns ran with ⟨_, impossible, _⟩ | ⟨_, cancelled, polled, outcome⟩
  · exact nomatch impossible
  · rcases outcome with ⟨_, impossible⟩ | ⟨rfl, met, _⟩
    · exact nomatch impossible
    · exact ⟨polled, met⟩

omit [LawfulMonad m] in
-- The rounds only matter through the point, the constraints and the status they leave.
theorem solve_returns {x : Vector F n} {objective : Nonlinear Nat m F n}
    {constraints : List (Constraint Nat m F n)} {stepSizes : Array F} {solution : Solution m F n}
    (ran : Returns (solve settings runner watch x objective constraints stepSizes) before solution
      after) :
    ∃ (solved : List (Constraint (Fin n) m F n)) (status : Status) (finished asked valued : World),
      solution.constraints = solved.map (·.rename Fin.val) ∧
      Returns (solution.objective.value solution.x) finished solution.report.value asked ∧
      Returns
        (solved.foldlM
          (fun worst constraint => return maxNum worst (← constraint.violation solution.x)) 0)
        asked solution.report.maxViolation valued ∧
      Returns (finalStatus settings watch status solution.report.maxViolation) valued
        solution.report.status after := by
  obtain ⟨_, last, finished, asked, valued, _, _, _, _, _, _, read, folded, judged, rfl⟩ :=
    solve_outer ran
  exact ⟨last.problem.constraints, last.status, finished, asked, valued, rfl, read, folded, judged⟩

theorem mapM_valueAt (constraints : List (Constraint (Fin n) m F n)) (x : Vector F n) :
    ((constraints.map (·.rename Fin.val)).mapM fun constraint => constraint.valueAt x) =
      constraints.mapM fun constraint => constraint.value x := by
  rw [List.mapM_map]
  congr 1
  funext constraint
  exact constraint.valueAt_rename x

omit [Monad m] [LawfulMonad m] [MonadExceptOf Fault m] in
/-- Within a bound on the defined violations, holding means being defined. -/
theorem holds_iff_defined [Lawful F] {constraints : List (Constraint (Fin n) m F n)}
    {values : List F} {tolerance : F} (nonnegative : 0 ≤ tolerance)
    (counted : values.length = constraints.length)
    (bounded : ∀ pair ∈ constraints.zip values,
      pair.1.comparison.violation pair.2 ≤ pair.1.comparison.violation pair.2 →
        pair.1.comparison.violation pair.2 ≤ tolerance) :
    (∀ pair ∈ constraints.zip values, pair.1.comparison.Holds tolerance pair.2) ↔
      ∀ value ∈ values, isNaN value = false := by
  constructor
  · intro holds value member
    obtain ⟨i, inside, rfl⟩ := List.getElem_of_mem member
    have paired : (constraints[i], values[i]) ∈ constraints.zip values := by
      rw [← List.getElem_zip (h := by simp; omega)]
      exact List.getElem_mem _
    exact Lawful.isNaN_eq_false_iff.mpr
      ((Comparison.holds_iff _ nonnegative).mp (holds _ paired)).1
  · intro defined pair member
    have value := Lawful.isNaN_eq_false_iff.mp (defined _ (List.of_mem_zip member).2)
    exact (Comparison.holds_iff _ nonnegative).mpr
      ⟨value, bounded pair member (Comparison.violation_defined _ value)⟩

/-- A solve that succeeds with a tolerance has all constraints within it, as they were evaluated
for the report, exactly if none of their values is undefined. -/
theorem success_feasible_iff_defined {σ F : Type} [Unbounded F] [Lawful F] {n : Nat}
    (settings : PenaltySettings F) (runner : Runner) (watch : Watch (StateT σ (Except Fault)) F)
    (x : Vector F n) (objective : Nonlinear Nat (StateT σ (Except Fault)) F n)
    (constraints : List (Constraint Nat (StateT σ (Except Fault)) F n)) (stepSizes : Array F)
    (solution : Solution (StateT σ (Except Fault)) F n) (before after : σ)
    (ran : (solve settings runner watch x objective constraints stepSizes).run before =
      .ok (solution, after))
    (positive : 0 < settings.violationTolerance) (success : solution.report.status = .success) :
    ∃ finished asked valued values,
      (solution.objective.value solution.x).run finished =
        .ok (solution.report.value, asked) ∧
      StateT.run (solution.constraints.mapM fun constraint => constraint.valueAt solution.x)
        asked = .ok (values, valued) ∧
      watch.isCancelled.run valued = .ok (false, after) ∧
      values.length = solution.constraints.length ∧
      solution.report.maxViolation ≤ settings.violationTolerance ∧
      ((∀ pair ∈ solution.constraints.zip values,
          pair.1.comparison.Holds settings.violationTolerance pair.2) ↔
        ∀ value ∈ values, isNaN value = false) := by
  have returned : Returns (solve settings runner watch x objective constraints stepSizes)
      (before, ()) solution (after, ()) := ran
  obtain ⟨solved, status, ⟨finished, _⟩, ⟨asked, _⟩, ⟨valued, _⟩, named, read, folded, judged⟩ :=
    solve_returns returned
  obtain ⟨values, reads, counted, worst⟩ := maxViolation_returns folded
  rw [success] at judged
  obtain ⟨polled, within⟩ := finalStatus_success judged
  have nonnegative := Lawful.le_of_lt positive
  have bounded : solution.report.maxViolation ≤ settings.violationTolerance := by
    have asks : settings.checksTolerance = true := by
      rw [PenaltySettings.checksTolerance, decide_eq_true_iff]
      exact positive
    have defined := foldl_maxNum_defined ((solved.zip values).map fun pair =>
      pair.1.comparison.violation pair.2) (Lawful.zero_defined (F := F))
    rw [← worst] at defined
    exact Lawful.le_of_not_lt (Lawful.defined_of_le nonnegative).2 defined
      fun above => within ⟨asks, above⟩
  have reads' : StateT.run
      (solution.constraints.mapM fun constraint => constraint.valueAt solution.x) asked =
        .ok (values, valued) := by
    rw [named, mapM_valueAt]
    exact reads
  refine ⟨finished, asked, valued, values, read, reads', polled, ?_, bounded, ?_⟩
  · rw [named, List.length_map, counted]
  · rw [named, List.zip_map_left, List.forall_mem_map]
    rw [worst, foldl_maxNum_le_iff _ Lawful.zero_defined, List.forall_mem_map] at bounded
    exact holds_iff_defined nonnegative counted bounded.2

/-! A parabola whose variable must have a root that is not negative. -/

def parabola (center : Float) : Nonlinear Nat (StateT Unit (Except Fault)) Float 1 :=
  let distance (x : Vector Float 1) := x.get ⟨0, Nat.one_pos⟩ - center
  .create #[0] (fun x => pure (distance x * distance x))
    fun x _ => pure (some (Vector.replicate 1 (2 * distance x)))

def rooted : Constraint Nat (StateT Unit (Except Fault)) Float 1 :=
  .create
    (.nonlinear
      (.create #[0] (fun x => pure (Float.sqrt (x.get ⟨0, Nat.one_pos⟩)))
        fun _ _ => pure (some (Vector.replicate 1 0))))
    .greaterThan

def tolerant : PenaltySettings Float :=
  { PenaltySettings.standard with violationTolerance := 1, outerIterations := 1 }

def unwatched : Watch (StateT Unit (Except Fault)) Float where
  isCancelled := pure false
  note _ := pure ()
  verbose := false

theorem success_feasible_iff_defined_parabola :
    ∃ solution : Solution (StateT Unit (Except Fault)) Float 1,
      (solve tolerant .inOrder unwatched #v[4] (parabola 4) [rooted] #[1]).run () =
        .ok (solution, ()) ∧
      0 < tolerant.violationTolerance ∧ solution.report.status = .success ∧
      ∃ values, StateT.run
          (solution.constraints.mapM fun constraint => constraint.valueAt solution.x) () =
            .ok (values, ()) ∧
        ((∀ pair ∈ solution.constraints.zip values,
            pair.1.comparison.Holds tolerant.violationTolerance pair.2) ↔
          ∀ value ∈ values, isNaN value = false) := by
  obtain ⟨⟨solution, _⟩, ran, success⟩ :
      Yields ((solve tolerant .inOrder unwatched #v[4] (parabola 4) [rooted] #[1]).run ())
        (fun outcome => outcome.1.report.status = .success) := by
    decide +kernel
  have positive : 0 < tolerant.violationTolerance := by decide +kernel
  obtain ⟨_, _, _, values, _, reads, _, _, _, feasible⟩ :=
    success_feasible_iff_defined _ _ _ _ _ _ _ _ _ _ ran positive success
  exact ⟨solution, ran, positive, success, values, reads, feasible⟩

/-- At minus one the root is undefined, and the solve succeeds all the same. -/
theorem success_undefined_constraint :
    Yields ((solve tolerant .inOrder unwatched #v[-1] (parabola (-1)) [rooted] #[1]).run ())
      (fun outcome => outcome.1.report.status = .success ∧
        ∃ constraint ∈ outcome.1.constraints,
          Yields ((constraint.valueAt outcome.1.x).run ()) fun value =>
            isNaN value.1 = true ∧
              ¬ constraint.comparison.Holds tolerant.violationTolerance value.1) := by
  decide +kernel

end Penalty

end Descent

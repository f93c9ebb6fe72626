import Descent.Proofs.Multiplier
import Descent.Proofs.Feasibility
import Descent.Proofs.Round

/-!
Offsets stay on the side of zero that their comparison asks for. The clamp puts them there,
whatever value and rate they are moved by, and it takes zero for an undefined one; nothing else
but a reset changes an offset. On that side no violation goes without a penalty.
-/

namespace Descent

open Scalar Execution

class Balanced (F : Type) [Scalar F] : Prop where
  neg_zero_le : -(0 : F) ≤ 0

instance : Balanced Float where
  neg_zero_le := by decide +kernel

instance : Balanced Float32 where
  neg_zero_le := by decide +kernel

/-! A single offset. -/

namespace Comparison

section Lawful

variable {F : Type} [Unbounded F] [Lawful F]

/-- The side of zero on which an offset may be. -/
def Sided (comparison : Comparison) (offset : F) : Prop :=
  match comparison with
  | equal => True
  | greaterThan => 0 ≤ offset
  | lessThan => offset ≤ 0

variable {comparison : Comparison} {offset value : F}

theorem sided_zero : comparison.Sided (0 : F) := by
  cases comparison with
  | equal => trivial
  | greaterThan => exact Lawful.zero_defined
  | lessThan => exact Lawful.zero_defined

theorem zero_le_maxNum (x : F) : 0 ≤ maxNum x 0 := by
  unfold maxNum
  split
  · exact Lawful.zero_defined
  · next known =>
    have defined : x ≤ x := Lawful.isNaN_eq_false_iff.mp (by simpa using known)
    split
    · exact Lawful.zero_defined
    · next above => exact Lawful.le_of_not_lt defined Lawful.zero_defined above

theorem minNum_le_zero (x : F) : minNum x 0 ≤ 0 := by
  unfold minNum
  split
  · exact Lawful.zero_defined
  · next known =>
    have defined : x ≤ x := Lawful.isNaN_eq_false_iff.mp (by simpa using known)
    split
    · exact Lawful.zero_defined
    · next below => exact Lawful.le_of_not_lt Lawful.zero_defined defined below

theorem sided_clamp : comparison.Sided (comparison.clamp offset) := by
  cases comparison with
  | equal => trivial
  | greaterThan => exact zero_le_maxNum offset
  | lessThan => exact minNum_le_zero offset

theorem sided_defined (inequality : comparison ≠ .equal) (sided : comparison.Sided offset) :
    isNaN offset = false := by
  apply Lawful.isNaN_eq_false_iff.mpr
  cases comparison with
  | equal => exact absurd rfl inequality
  | greaterThan => exact (Lawful.defined_of_le sided).2
  | lessThan => exact (Lawful.defined_of_le sided).1

theorem neg_of_neg_pos [Balanced F] {x : F} (above : 0 < -x) : x < 0 := by
  have defined : x ≤ x :=
    (Lawful.defined_of_le
      (Lawful.neg_le_of_neg_le (Lawful.defined_of_le (Lawful.le_of_lt above)).2)).2
  have below : ¬ 0 ≤ x := by
    intro nonneg
    have turned := Lawful.neg_le_of_neg_le (Lawful.le_trans Balanced.neg_zero_le nonneg)
    exact Lawful.not_le_of_lt above turned
  rcases Lawful.le_total defined Lawful.zero_defined with atMost | nonneg
  · exact Lawful.lt_iff.mpr ⟨atMost, below⟩
  · exact absurd nonneg below

theorem pos_of_maxNum_pos {x : F} (above : 0 < maxNum x 0) : 0 < x := by
  unfold maxNum at above
  split at above
  · exact absurd above (Lawful.lt_irrefl 0)
  · split at above
    · exact absurd above (Lawful.lt_irrefl 0)
    · exact above

theorem shifted?_isSome_of_violation [Balanced F] (sided : comparison.Sided offset)
    (violated : 0 < comparison.violation value) :
    (comparison.shifted? value offset).isSome = true := by
  have active : comparison.isActive value offset = true := by
    cases comparison with
    | equal => rfl
    | greaterThan =>
      have below : value < 0 := neg_of_neg_pos (pos_of_maxNum_pos violated)
      exact decide_eq_true (Lawful.lt_of_lt_of_le below sided)
    | lessThan =>
      have above : 0 < value := pos_of_maxNum_pos violated
      exact decide_eq_true (Lawful.lt_of_le_of_lt sided above)
  rw [shifted?, active]
  rfl

end Lawful

section Exact

variable {E : Type} [Field E] [LinearOrder E] [IsStrictOrderedRing E] [Exact E]
variable {comparison : Comparison} {offset value shifted : E}

omit [IsStrictOrderedRing E] in
theorem allows_zero : comparison.Allows (0 : E) := by
  cases comparison with
  | equal => trivial
  | greaterThan => exact le_rfl
  | lessThan => exact le_rfl

omit [IsStrictOrderedRing E] in
theorem allows_clamp : comparison.Allows (comparison.clamp offset) := by
  cases comparison with
  | equal => trivial
  | greaterThan =>
    rw [clamp, Exact.maxNum_eq]
    exact le_max_right _ _
  | lessThan =>
    rw [clamp, Exact.minNum_eq]
    exact min_le_right _ _

theorem violation_le_abs_shifted (inequality : comparison ≠ .equal)
    (allowed : comparison.Allows offset)
    (penalized : comparison.shifted? value offset = some shifted) :
    comparison.violation value ≤ |shifted| := by
  unfold shifted? at penalized
  split at penalized
  · next active =>
    cases penalized
    cases comparison with
    | equal => exact absurd rfl inequality
    | greaterThan =>
      have least : 0 ≤ offset := allowed
      have below : value < offset := of_decide_eq_true active
      rw [violation, Exact.maxNum_eq, abs_of_neg (sub_neg.mpr below)]
      exact max_le (by linarith) (by linarith)
    | lessThan =>
      have most : offset ≤ 0 := allowed
      have above : offset < value := of_decide_eq_true active
      rw [violation, Exact.maxNum_eq, abs_of_pos (sub_pos.mpr above)]
      exact max_le (by linarith) (by linarith)
  · cases penalized

end Exact

end Comparison

/-! What becomes of a constraint. -/

section Reachable

variable {m : Type → Type} [Monad m] [MonadExceptOf Fault m] {World : Type} [Execution m World]
variable {F : Type} [Scalar F] {n : Nat}

/-- What a constraint can become in the hands of its owner and of any number of solves: those
name its variables, derive its function, adjust its offset and hand it back. -/
inductive Constraint.Reachable : {n : Nat} → {I : Type} → Constraint I m F n → Prop where
  | created {n : Nat} {I : Type} (form : Form I m F n) (comparison : Comparison) :
      Reachable (create form comparison)
  | reset {n : Nat} {I : Type} {constraint : Constraint I m F n} :
      Reachable constraint → Reachable constraint.resetOffset
  /-- The same constraint for points of another length. -/
  | resized {n n' : Nat} {constraint : Constraint Nat m F n} (form : Form Nat m F n') :
      Reachable constraint →
      Reachable { form, comparison := constraint.comparison, offset := constraint.offset }
  | named {n : Nat} {constraint : Constraint Nat m F n} {named : Constraint (Fin n) m F n} :
      Reachable constraint → constraint.rename? (position? n) = some named → Reachable named
  | derived {n : Nat} {constraint derived : Constraint (Fin n) m F n}
      {steps : Vector (Positive F) n} {x : Vector F n} {scale : F} {gradient added : Vector F n}
      {before after : World} :
      Reachable constraint →
      Returns (constraint.addGradient steps x scale gradient) before (derived, added) after →
      Reachable derived
  | adjusted {n : Nat} {constraint : Constraint (Fin n) m F n} (value rate : F) :
      Reachable constraint → Reachable (constraint.adjustOffset value rate)
  | handed {n : Nat} {constraint : Constraint (Fin n) m F n} :
      Reachable constraint → Reachable (constraint.rename Fin.val)

namespace Constraint

/-- What holds of the offset zero and of every clamped one holds of every offset there is. -/
theorem Reachable.offset_invariant (Kept : Comparison → F → Prop)
    (zero : ∀ comparison, Kept comparison 0)
    (clamped : ∀ comparison offset, Kept comparison (comparison.clamp offset)) {I : Type}
    {constraint : Constraint I m F n} (reachable : constraint.Reachable) :
    Kept constraint.comparison constraint.offset := by
  induction reachable with
  | created form comparison => exact zero comparison
  | reset _ _ => exact zero _
  | resized _ _ ih => exact ih
  | named _ renamed ih =>
    obtain ⟨comparison, offset, _⟩ := rename?_eq_some renamed
    rw [comparison, offset]
    exact ih
  | @derived _ constraint derived _ _ _ _ _ _ _ _ ran ih =>
    have same : derived.blank = constraint.blank := addGradient_blank ran
    have comparison : derived.comparison = constraint.comparison := congrArg (·.comparison) same
    have offset : derived.offset = constraint.offset := congrArg (·.offset) same
    rw [comparison, offset]
    exact ih
  | adjusted value rate _ _ => exact clamped _ _
  | handed _ ih => exact ih

end Constraint

variable {problem left : Problem m F n} {x : Vector F n} {before after : World}

namespace Problem

/-- All constraints of a problem are reachable. -/
def Reached (problem : Problem m F n) : Prop :=
  ∀ constraint ∈ problem.constraints, constraint.Reachable

theorem create_reached {objective : Nonlinear Nat m F n}
    {constraints : List (Constraint Nat m F n)} {stepSizes : Array F}
    (created : create objective constraints stepSizes = .ok problem)
    (reachable : ∀ constraint ∈ constraints, constraint.Reachable) : problem.Reached := by
  intro named member
  obtain ⟨constraint, stated, renamed⟩ :=
    mem_of_mapM_some (create_eq_ok_iff.mp created).2.2 named member
  exact .named (reachable constraint stated) renamed

theorem penalize_reachable {steps : Vector (Positive F) n}
    {constraints derived : List (Constraint (Fin n) m F n)} {total sum : F}
    {gradient added : Vector F n}
    (ran : Returns (penalize steps x constraints total gradient) before (derived, sum, added)
      after)
    (reachable : ∀ constraint ∈ constraints, constraint.Reachable) :
    ∀ constraint ∈ derived, constraint.Reachable := by
  induction constraints generalizing derived total gradient sum added before after with
  | nil =>
    obtain ⟨same, _⟩ := returns_pure.mp ran
    cases same
    exact reachable
  | cons constraint rest ih =>
    obtain ⟨head, tail⟩ := List.forall_mem_cons.mp reachable
    rw [penalize] at ran
    obtain ⟨value, _, _, ran⟩ := returns_bind.mp ran
    cases penalized : constraint.shifted? value with
    | none =>
      rw [penalized] at ran
      obtain ⟨⟨others, _⟩, _, further, last⟩ := returns_bind.mp ran
      obtain ⟨same, _⟩ := returns_pure.mp last
      cases same
      exact List.forall_mem_cons.mpr ⟨head, ih further tail⟩
    | some shifted =>
      rw [penalized] at ran
      obtain ⟨⟨changed, _⟩, _, derives, ran⟩ := returns_bind.mp ran
      obtain ⟨⟨others, _⟩, _, further, last⟩ := returns_bind.mp ran
      obtain ⟨same, _⟩ := returns_pure.mp last
      cases same
      exact List.forall_mem_cons.mpr ⟨.derived head derives, ih further tail⟩

theorem evaluate_reached {answer : F × Vector F n}
    (ran : Returns (problem.evaluate x) before (answer, left) after) (reached : problem.Reached) :
    left.Reached := by
  obtain ⟨value, _, _, rest⟩ := returns_bind.mp ran
  obtain ⟨⟨objective, gradient⟩, _, _, rest⟩ := returns_bind.mp rest
  obtain ⟨⟨constraints, total, added⟩, _, penalizes, rest⟩ := returns_bind.mp rest
  obtain ⟨same, _⟩ := returns_pure.mp rest
  cases same
  exact penalize_reachable penalizes reached

theorem adjustOffsets_reached [LawfulMonad m] {rate : F}
    (ran : Returns (problem.adjustOffsets rate x) before left after) (reached : problem.Reached) :
    left.Reached := by
  obtain ⟨constraints, _, adjusts, rest⟩ := returns_bind.mp ran
  obtain ⟨rfl, _⟩ := returns_pure.mp rest
  intro adjusted member
  obtain ⟨constraint, stated, _, _, moves⟩ := returns_mapM adjusts adjusted member
  obtain ⟨value, _, _, last⟩ := returns_bind.mp moves
  obtain ⟨rfl, _⟩ := returns_pure.mp last
  exact .adjusted value rate (reached constraint stated)

end Problem

end Reachable

namespace Penalty

section Solve

variable {m : Type → Type} [Monad m] [LawfulMonad m] [MonadExceptOf Fault m] {World : Type}
variable [Execution m World] {F : Type} [Unbounded F] {n : Nat}
variable {settings : PenaltySettings F} {runner : Runner} {watch : Watch m F}
variable {before after : World}

omit [LawfulMonad m] in
theorem upheld_reached :
    Upheld watch fun before after : Problem m F n × World =>
      before.1.Reached → after.1.Reached where
  lasting := ⟨fun _ => id, fun first second => second ∘ first⟩
  evaluate := Problem.evaluate_reached
  isCancelled _ := id
  note _ := id

theorem solve_reached {x : Vector F n} {objective : Nonlinear Nat m F n}
    {constraints : List (Constraint Nat m F n)} {stepSizes : Array F} {solution : Solution m F n}
    (ran : Returns (solve settings runner watch x objective constraints stepSizes) before solution
      after)
    (reachable : ∀ constraint ∈ constraints, constraint.Reachable) :
    ∀ constraint ∈ solution.constraints, constraint.Reachable := by
  obtain ⟨problem, last, _, _, _, _, _, _, created, _, iterated, _, _, _, rfl⟩ := solve_outer ran
  obtain ⟨_, reached⟩ : ∃ ended : Nat, last.problem.Reached :=
    rounds_invariant (fun _ progress _ => progress.problem.Reached)
      (fun _ _ _ _ _ kept _ => kept)
      (fun _ _ _ _ _ _ kept ⟨_, _, _, _, minimizes, _⟩ => by
        obtain ⟨_, inner, _, runs, _, same⟩ := minimizeOnce_returns minimizes
        rw [same]
        exact inner_keeps upheld_reached runs kept)
      (fun _ _ _ _ _ kept adjusts => Problem.adjustOffsets_reached adjusts kept)
      (outerFrom_returns iterated) (Problem.create_reached created reachable)
  intro handed member
  obtain ⟨constraint, stated, rfl⟩ := List.mem_map.mp member
  exact .handed (reached constraint stated)

end Solve

/-- Solves leave reachable constraints reachable. All of those have an offset on the right side of
zero, which is never undefined and under which every violation is penalized. Over exact numbers
an inequality is never shifted to less than its violation. -/
theorem offsets_sided {σ F : Type} [Unbounded F] [Lawful F] [Balanced F] :
    (∀ (n : Nat) (settings : PenaltySettings F) (runner : Runner)
        (watch : Watch (StateT σ (Except Fault)) F) (x : Vector F n)
        (objective : Nonlinear Nat (StateT σ (Except Fault)) F n)
        (constraints : List (Constraint Nat (StateT σ (Except Fault)) F n)) (stepSizes : Array F)
        (solution : Solution (StateT σ (Except Fault)) F n) (before after : σ),
        (solve settings runner watch x objective constraints stepSizes).run before =
          .ok (solution, after) →
        (∀ constraint ∈ constraints, constraint.Reachable) →
        ∀ constraint ∈ solution.constraints, constraint.Reachable) ∧
    (∀ {n : Nat} {I : Type} (constraint : Constraint I (StateT σ (Except Fault)) F n),
        constraint.Reachable →
        (constraint.comparison = .greaterThan → 0 ≤ constraint.offset) ∧
        (constraint.comparison = .lessThan → constraint.offset ≤ 0) ∧
        (constraint.comparison ≠ .equal → isNaN constraint.offset = false) ∧
        ∀ value, 0 < constraint.comparison.violation value →
          (constraint.shifted? value).isSome = true) ∧
    ∀ (E : Type) [Field E] [LinearOrder E] [IsStrictOrderedRing E] [Exact E] {n : Nat} {I : Type}
        (constraint : Constraint I (StateT σ (Except Fault)) E n),
        constraint.Reachable → constraint.comparison ≠ .equal →
        ∀ value shifted, constraint.shifted? value = some shifted →
          constraint.comparison.violation value ≤ |shifted| := by
  refine ⟨?closed, ?sided, ?exact⟩
  case closed =>
    intro n settings runner watch x objective constraints stepSizes solution before after ran
    have returned : Returns (solve settings runner watch x objective constraints stepSizes)
        (before, ()) solution (after, ()) := ran
    exact solve_reached returned
  case sided =>
    intro n I constraint reachable
    have sided : constraint.comparison.Sided constraint.offset :=
      reachable.offset_invariant Comparison.Sided (fun _ => Comparison.sided_zero)
        fun _ _ => Comparison.sided_clamp
    refine ⟨?_, ?_, fun inequality => Comparison.sided_defined inequality sided, fun _ =>
      Comparison.shifted?_isSome_of_violation sided⟩
    · intro greater
      rw [greater] at sided
      exact sided
    · intro less
      rw [less] at sided
      exact sided
  case exact =>
    intro E _ _ _ _ n I constraint reachable inequality value shifted
    exact Comparison.violation_le_abs_shifted inequality
      (reachable.offset_invariant Comparison.Allows (fun _ => Comparison.allows_zero)
        fun _ _ => Comparison.allows_clamp)

/-- The root of minus one moves the offset by an undefined amount, which leaves it at zero. -/
theorem offsets_sided_undefinedRoot :
    ∃ solution : Solution (StateT Unit (Except Fault)) Float 1,
      (solve { tolerant with violationTolerance := 0 } .inOrder unwatched #v[-1] (parabola (-1))
        [rooted] #[1]).run () = .ok (solution, ()) ∧
      ∃ constraint ∈ solution.constraints,
        (Yields ((constraint.valueAt solution.x).run ()) fun value => isNaN value.1 = true) ∧
        0 ≤ constraint.offset := by
  obtain ⟨⟨solution, _⟩, ran, constraint, member, greater, undefined⟩ :
      Yields
        ((solve { tolerant with violationTolerance := 0 } .inOrder unwatched #v[-1]
          (parabola (-1)) [rooted] #[1]).run ())
        (fun outcome => ∃ constraint ∈ outcome.1.constraints,
          constraint.comparison = .greaterThan ∧
            Yields ((constraint.valueAt outcome.1.x).run ()) fun value =>
              isNaN value.1 = true) := by
    decide +kernel
  obtain ⟨closed, sided, _⟩ := offsets_sided (σ := Unit) (F := Float)
  have stated : ∀ constraint ∈ [rooted], constraint.Reachable := by
    intro constraint member
    rw [List.mem_singleton.mp member]
    exact .created _ _
  have reachable := closed _ _ _ _ _ _ _ _ _ _ _ ran stated constraint member
  exact ⟨solution, ran, constraint, member, undefined, (sided constraint reachable).1 greater⟩

end Penalty

end Descent

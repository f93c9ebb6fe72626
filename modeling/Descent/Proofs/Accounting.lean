import Descent.Proofs.Ledger
import Descent.Scalar.Binary

/-!
The report of a solve whose functions have pure values. Everything in it is told by the outer
iterations: counts are their number and sums over their inner runs, the history lists their
largest violations, and the status is that of the last inner run unless the token or the tolerance
says otherwise. Offsets move once after each outer iteration that another one may follow, and at
no other time.
-/

namespace Descent

open Scalar Execution

/-! Constraints as rules about pure values. -/

structure Rule (F : Type) (n : Nat) where
  comparison : Comparison
  value : Vector F n → F

namespace Rule

variable {m : Type → Type} [Monad m] {F : Type} [Scalar F] {n : Nat}

/-- The rule is what a constraint asks for that is evaluated by this program. -/
def Describes (rule : Rule F n) (comparison : Comparison) (value : Vector F n → m F) : Prop :=
  comparison = rule.comparison ∧ ∀ x, value x = pure (rule.value x)

def DescribeAll (rules : List (Rule F n)) (constraints : List (Constraint (Fin n) m F n)) : Prop :=
  List.Forall₂ (fun constraint rule => rule.Describes constraint.comparison constraint.value)
    constraints rules

def violation (rule : Rule F n) (x : Vector F n) : F := rule.comparison.violation (rule.value x)

def worst (rules : List (Rule F n)) (x : Vector F n) : F :=
  (rules.map (·.violation x)).foldl maxNum 0

/-- The worst is the least number that is not negative and below none of the defined
violations. -/
theorem worst_le_iff {F : Type} [Unbounded F] [Lawful F] {rules : List (Rule F n)} {x : Vector F n}
    {bound : F} : worst rules x ≤ bound ↔ 0 ≤ bound ∧ ∀ rule ∈ rules,
      rule.violation x ≤ rule.violation x → rule.violation x ≤ bound := by
  rw [worst, foldl_maxNum_le_iff _ Lawful.zero_defined, List.forall_mem_map]

def move (rule : Rule F n) (rate : F) (x : Vector F n) (offset : F) : F :=
  rule.comparison.clamp (offset - rate * rule.value x)

def moveAll (rules : List (Rule F n)) (rate : F) (offsets : List F) (x : Vector F n) : List F :=
  List.zipWith (fun rule offset => rule.move rate x offset) rules offsets

variable {rules : List (Rule F n)} {constraints : List (Constraint (Fin n) m F n)}

theorem describeAll_blank :
    DescribeAll rules (constraints.map Constraint.blank) ↔ DescribeAll rules constraints := by
  simp only [DescribeAll, List.forall₂_map_left_iff, Constraint.value_blank]
  exact Iff.rfl

theorem maxViolation_described [LawfulMonad m] (described : DescribeAll rules constraints)
    (x : Vector F n) (start : F) :
    constraints.foldlM (fun worst constraint => return maxNum worst (← constraint.violation x))
      start = pure ((rules.map (·.violation x)).foldl maxNum start) := by
  induction described generalizing start with
  | nil => rfl
  | @cons constraint rule _ _ head _ ih =>
    have violates : constraint.violation x = pure (rule.violation x) := by
      rw [Constraint.violation, head.2, pure_bind, head.1]
      rfl
    rw [List.foldlM_cons, violates, pure_bind, pure_bind, ih]
    rfl

theorem adjustOffset_described [LawfulMonad m] (described : DescribeAll rules constraints)
    (rate : F) (x : Vector F n) :
    ∃ left, (constraints.mapM fun constraint => do
        pure (constraint.adjustOffset (← constraint.value x) rate)) = pure left ∧
      DescribeAll rules left ∧
      left.map (·.offset) = moveAll rules rate (constraints.map (·.offset)) x := by
  induction described with
  | nil => exact ⟨[], rfl, .nil, rfl⟩
  | @cons constraint rule _ _ head _ ih =>
    obtain ⟨left, adjusts, describes, moves⟩ := ih
    refine ⟨constraint.adjustOffset (rule.value x) rate :: left, ?_, .cons head describes, ?_⟩
    · simp only [List.mapM_cons, head.2, pure_bind, adjusts]
    · rw [List.map_cons, moves, Constraint.adjustOffset, head.1]
      rfl

end Rule

theorem Constraint.valueAt_of_rename? {m : Type → Type} [Monad m] [MonadExceptOf Fault m]
    {F : Type} [Scalar F] {n : Nat} {constraint : Constraint Nat m F n}
    {named : Constraint (Fin n) m F n} (renamed : constraint.rename? (position? n) = some named) :
    constraint.valueAt = named.value := by
  funext x
  obtain ⟨_, _, forms⟩ := rename?_eq_some renamed
  rcases forms with ⟨function, left, stated, found, same⟩ | ⟨function, left, stated, found, same⟩
  · simp only [valueAt, stated, found, value, same]
  · obtain ⟨indices, rfl⟩ := Nonlinear.rename?_eq_some found
    simp only [valueAt, stated, value, same]

/-- The rules of constraints as stated are those of the constraints that are solved for. -/
theorem Rule.describeAll_of_rename? {m : Type → Type} [Monad m] [MonadExceptOf Fault m] {F : Type}
    [Scalar F] {n : Nat} {rules : List (Rule F n)} {constraints : List (Constraint Nat m F n)}
    {named : List (Constraint (Fin n) m F n)}
    (renamed : List.Forall₂ (fun constraint left => constraint.rename? (position? n) = some left)
      constraints named)
    (described : List.Forall₂
      (fun constraint rule => rule.Describes constraint.comparison constraint.valueAt) constraints
      rules) :
    DescribeAll rules named := by
  induction renamed generalizing rules with
  | nil =>
    cases described
    exact .nil
  | cons head _ ih =>
    cases described with
    | cons first others =>
      rw [Constraint.valueAt_of_rename? head, ← (Constraint.rename?_eq_some head).1] at first
      exact .cons first (ih others)

namespace Problem

variable {m : Type → Type} [Monad m] {F : Type} [Scalar F] {n : Nat}

structure Plain (problem : Problem m F n) (value : Vector F n → F) (rules : List (Rule F n))
    (offsets : List F) : Prop where
  objective (x : Vector F n) : problem.objective.value x = pure (value x)
  rules : Rule.DescribeAll rules problem.constraints
  offsets : problem.constraints.map (·.offset) = offsets

variable {value : Vector F n → F} {rules : List (Rule F n)} {offsets : List F}
variable {problem left : Problem m F n}

theorem create_plain [MonadExceptOf Fault m] {objective : Nonlinear Nat m F n}
    {constraints : List (Constraint Nat m F n)} {stepSizes : Array F}
    (created : create objective constraints stepSizes = .ok problem)
    (plain : ∀ x, objective.value x = pure (value x))
    (described : List.Forall₂
      (fun constraint rule => rule.Describes constraint.comparison constraint.valueAt) constraints
      rules) :
    problem.Plain value rules (constraints.map (·.offset)) := by
  obtain ⟨_, named, stated⟩ := create_eq_ok_iff.mp created
  obtain ⟨indices, same⟩ := Nonlinear.rename?_eq_some named
  have describes := Rule.describeAll_of_rename? (forall₂_of_mapM_some stated) described
  refine ⟨fun x => ?_, describes, create_offsets created⟩
  rw [same]
  exact plain x

theorem plain_blank :
    problem.blank.Plain value rules offsets ↔ problem.Plain value rules offsets := by
  have same : problem.blank.constraints.map (·.offset) = problem.constraints.map (·.offset) := by
    rw [blank, List.map_map]
    rfl
  constructor
  · rintro ⟨objective, described, kept⟩
    exact ⟨objective, Rule.describeAll_blank.mp described, same.symm.trans kept⟩
  · rintro ⟨objective, described, kept⟩
    exact ⟨objective, Rule.describeAll_blank.mpr described, same.trans kept⟩

namespace Plain

variable (plain : problem.Plain value rules offsets)

include plain

theorem of_blank (same : left.blank = problem.blank) : left.Plain value rules offsets := by
  rw [← plain_blank, same]
  exact plain_blank.mpr plain

variable [LawfulMonad m]

theorem maxViolation_eq (x : Vector F n) : problem.maxViolation x = pure (Rule.worst rules x) :=
  Rule.maxViolation_described plain.rules x 0

theorem adjustOffsets_eq (rate : F) (x : Vector F n) :
    ∃ left, problem.adjustOffsets rate x = pure left ∧
      left.Plain value rules (Rule.moveAll rules rate offsets x) := by
  obtain ⟨left, adjusts, describes, moves⟩ := Rule.adjustOffset_described plain.rules rate x
  refine ⟨{ problem with constraints := left }, ?_, plain.objective, describes, ?_⟩
  · rw [adjustOffsets, adjusts, pure_bind]
  · rw [← plain.offsets]
    exact moves

end Plain

end Problem

namespace Penalty

section Course

variable {m : Type → Type} [Monad m] [LawfulMonad m] [MonadExceptOf Fault m] {World : Type}
variable [Execution m World] {F : Type} [Unbounded F] {n : Nat}
variable {settings : PenaltySettings F} {runner : Runner} {watch : Watch m F}
variable {value : Vector F n → F} {rules : List (Rule F n)} {offsets : List F}
variable {progress top last : Progress m F n} {outer : Outer m F n}
variable {outers turned final : List (Outer m F n)} {before middle after : World}

theorem Makes.plain (makes : Makes settings runner watch progress before outer after)
    (plain : progress.problem.Plain value rules offsets) :
    outer.problem.Plain value rules offsets ∧ outer.worst = Rule.worst rules outer.x ∧
      outer.report.iterations ≤ settings.innerIterations := by
  obtain ⟨_, polled, token, minimized, measured, _, minimizes, measures, _⟩ := makes
  have left : outer.problem.Plain value rules offsets := plain.of_blank (inner_blank minimizes)
  rw [left.maxViolation_eq] at measures
  exact ⟨left, (returns_pure.mp measures).1, Minimization.minimize_iterations_le minimizes⟩

/-- Where the offsets are after some outer iterations that turned over. -/
def movedBy (settings : PenaltySettings F) (rules : List (Rule F n)) (outers : List (Outer m F n))
    (offsets : List F) : List F :=
  (outers.map (·.x)).foldl (Rule.moveAll rules settings.offsetRate) offsets

theorem Turns.plain (turns : Turns settings runner watch progress before outers top after)
    (plain : progress.problem.Plain value rules offsets) :
    top.problem.Plain value rules (movedBy settings rules outers offsets) := by
  induction turns generalizing offsets with
  | none => exact plain
  | @next _ _ outer _ _ _ _ _ _ makes _ adjusts _ ih =>
    obtain ⟨left, _⟩ := makes.plain plain
    obtain ⟨adjusted, same, moved⟩ := left.adjustOffsets_eq settings.offsetRate outer.x
    rw [same] at adjusts
    obtain ⟨rfl, _⟩ := returns_pure.mp adjusts
    exact ih moved

theorem Course.plain
    (course : Course settings runner watch progress before turned final last after)
    (plain : progress.problem.Plain value rules offsets) :
    last.problem.Plain value rules (movedBy settings rules turned offsets) := by
  obtain ⟨top, middle, turns, halts⟩ := course
  have reached := turns.plain plain
  cases halts with
  | spent | cancelled => exact reached
  | final makes _ => exact (makes.plain reached).1

theorem Course.outer_plain {earlier later : List (Outer m F n)}
    (course : Course settings runner watch progress before turned final last after)
    (plain : progress.problem.Plain value rules offsets)
    (split : turned ++ final = earlier ++ outer :: later) :
    outer.problem.Plain value rules (movedBy settings rules earlier offsets) ∧
      outer.worst = Rule.worst rules outer.x ∧
      outer.report.iterations ≤ settings.innerIterations := by
  obtain ⟨reached, world, left, turns, makes⟩ := course.made split
  exact makes.plain (turns.plain plain)

end Course

/-- What a solve reports and hands back, told from its outer iterations. Those in `turned` let
another one follow and the one in `final`, if it is there, ended the loop. -/
structure Accounts {m : Type → Type} {F : Type} [Unbounded F] {n : Nat}
    (settings : PenaltySettings F) (rules : List (Rule F n)) (offsets : List F)
    (turned final : List (Outer m F n)) (solution : Solution m F n) (token : Token) : Prop where
  counted : solution.report.outerIterations = (turned ++ final).length
  limited : solution.report.outerIterations ≤ settings.outerIterations
  listed : solution.report.violationHistory.size = solution.report.outerIterations
  history : solution.report.violationHistory.toList = (turned ++ final).map (·.worst)
  innerIterations : solution.report.innerIterations =
    ((turned ++ final).map (·.report.iterations)).sum
  evaluations : solution.report.evaluations = ((turned ++ final).map (·.report.evaluations)).sum
  inner : ∀ outer ∈ turned ++ final, outer.report.iterations ≤ settings.innerIterations ∧
    outer.worst = Rule.worst rules outer.x
  maxViolation : solution.report.maxViolation = Rule.worst rules solution.x
  greatest : ∀ bound, solution.report.maxViolation ≤ bound ↔ 0 ≤ bound ∧ ∀ rule ∈ rules,
    rule.violation solution.x ≤ rule.violation solution.x → rule.violation solution.x ≤ bound
  lastEntry : turned ++ final ≠ [] →
    solution.report.violationHistory.back? = some solution.report.maxViolation
  goesOn : ∀ outer ∈ turned, ¬ (outer.report.status = .unbounded ∨
    (settings.violationTolerance == 0) = false ∧ outer.worst ≤ settings.violationTolerance)
  ends : ∀ outer ∈ final, outer.report.status = .unbounded ∨
    (settings.violationTolerance == 0) = false ∧ outer.worst ≤ settings.violationTolerance
  once : final.length ≤ 1
  /-- No inner run moves an offset: it finds and leaves them where the earlier iterations did. -/
  unmoved : ∀ earlier outer later, turned ++ final = earlier ++ outer :: later →
    outer.problem.constraints.map (·.offset) = movedBy settings rules earlier offsets
  moved : solution.constraints.map (·.offset) = movedBy settings rules turned offsets
  success_iff : solution.report.status = .success ↔
    token.isCancelled = false ∧
      (∃ outer, (turned ++ final).getLast? = some outer ∧ outer.report.status = .success) ∧
      ((settings.violationTolerance == 0) = true ∨
        ¬ settings.violationTolerance < solution.report.maxViolation)
  unbounded_iff : solution.report.status = .unbounded ↔
    ∃ outer, (turned ++ final).getLast? = some outer ∧ outer.report.status = .unbounded

/-- Every solve with functions of pure values gives account of its outer iterations. The token may
be set by anybody at any time, but nobody clears it during the solve. -/
theorem solve_accounts {σ F : Type} [Unbounded F] [Lawful F] {n : Nat}
    (settings : PenaltySettings F) (runner : Runner) (vigil : Vigil σ F) (x : Vector F n)
    (objective : Nonlinear Nat (Shared σ) F n) (constraints : List (Constraint Nat (Shared σ) F n))
    (stepSizes : Array F) (value : Vector F n → F) (rules : List (Rule F n))
    (solution : Solution (Shared σ) F n) (before after : Token × σ)
    (accepted : settings.Accepted) (stays : Shared.Leaves Token.Stays vigil.meanwhile)
    (plain : ∀ x, objective.value x = pure (value x))
    (described : List.Forall₂
      (fun constraint rule => rule.Describes constraint.comparison constraint.valueAt) constraints
      rules)
    (ran : (solve settings runner vigil.watch x objective constraints stepSizes).run before =
      .ok (solution, after)) :
    ∃ problem turned final last finished,
      Problem.create objective constraints stepSizes = .ok problem ∧
      Course settings runner vigil.watch (.begun x problem) (before, ()) turned final last
        (finished, ()) ∧
      Accounts settings rules (constraints.map (·.offset)) turned final solution after.1 := by
  have returned : Returns (solve settings runner vigil.watch x objective constraints stepSizes)
      (before, ()) solution (after, ()) := ran
  obtain ⟨problem, turned, final, last, _, _, finished, status, amount, worst, created, course,
    read, measured, judged, rfl⟩ := solve_course returned
  have posed := Problem.create_plain created plain described
  have left := course.plain posed
  rw [left.objective] at read
  obtain ⟨_, rfl⟩ := returns_pure.mp read
  rw [left.maxViolation_eq] at measured
  obtain ⟨rfl, rfl⟩ := returns_pure.mp measured
  have total := course.total
  have limited : last.outerIterations ≤ settings.outerIterations :=
    course.outerIterations_le (Nat.zero_le _)
  have counted : last.outerIterations = (turned ++ final).length :=
    course.outerIterations_eq.trans (Nat.zero_add _)
  have history : last.violationHistory.toList = (turned ++ final).map (·.worst) := by
    rw [total]
    exact Progress.past_violationHistory
  have inner (outer : Outer (Shared σ) F n) (member : outer ∈ turned ++ final) :
      outer.report.iterations ≤ settings.innerIterations ∧
        outer.worst = Rule.worst rules outer.x := by
    obtain ⟨earlier, later, split⟩ := List.append_of_mem member
    obtain ⟨_, worst, iterations⟩ := course.outer_plain posed split
    exact ⟨iterations, worst⟩
  have made (unset : after.1.isCancelled = false) : turned ++ final ≠ [] := by
    intro none
    have asks := (course.nothing none).2 accepted.bounds.1
    have set : after.1.isCancelled = true :=
      finalStatus_stays stays judged (Shared.returns_poll.mp asks).2.symm
    rw [unset] at set
    exact nomatch set
  have lastEntry (made : turned ++ final ≠ []) :
      last.violationHistory.back? = some (Rule.worst rules last.x) := by
    have latest := List.getLast?_eq_some_getLast made
    have point : last.x = ((turned ++ final).getLast made).x := by
      rw [total]
      exact (Progress.past_latest latest).1
    rw [← Array.getLast?_toList, history, List.getLast?_map, latest, point,
      ← (inner _ (List.getLast_mem made)).2]
    rfl
  obtain ⟨success_iff, unbounded_iff⟩ := finalStatus_iff judged
  obtain ⟨goesOn, ends, once⟩ := course.isFinal_iff
  refine ⟨problem, turned, final, last, finished.1, created, course, ?_⟩
  exact
    { counted
      limited
      listed := by
        rw [Progress.concluded, counted, ← Array.length_toList, history, List.length_map]
      history
      innerIterations := by
        rw [Progress.concluded, total]
        exact Progress.past_innerIterations.trans (Nat.zero_add _)
      evaluations := by
        rw [Progress.concluded, total]
        exact Progress.past_evaluations.trans (Nat.zero_add _)
      inner
      maxViolation := rfl
      greatest := fun _ => Rule.worst_le_iff
      lastEntry
      goesOn := fun outer member final => by
        rw [← isFinal_iff accepted, goesOn outer member] at final
        exact nomatch final
      ends := fun outer member => (isFinal_iff accepted).mp (ends outer member)
      once
      unmoved := fun earlier outer later split => (course.outer_plain posed split).1.offsets
      moved := by
        rw [← left.offsets]
        exact List.map_map
      success_iff := by
        rw [Progress.concluded, success_iff, accepted.checksTolerance_iff, not_and_or,
          Bool.not_eq_false]
        refine and_congr_right fun unset => and_congr_left fun _ => ?_
        rw [total]
        exact Progress.past_status_iff (made unset)
      unbounded_iff := unbounded_iff.trans course.unbounded_iff }

/-! A square that is to be level with one. -/

def dip : Nonlinear Nat (Shared Unit) Float 1 :=
  .create #[0] (fun x => pure (x.get ⟨0, Nat.one_pos⟩ * x.get ⟨0, Nat.one_pos⟩))
    fun x _ => pure (some (Vector.replicate 1 (2 * x.get ⟨0, Nat.one_pos⟩)))

def level : Constraint Nat (Shared Unit) Float 1 :=
  .create (.linear { terms := [(0, 1)], rhs := 1 }) .equal

def levelRule : Rule Float 1 where
  comparison := .equal
  value x := -1 + 1 * x.get ⟨0, Nat.one_pos⟩

def twice : PenaltySettings Float := { PenaltySettings.standard with outerIterations := 2 }

theorem solve_accounts_level :
    ∃ solution : Solution (Shared Unit) Float 1,
      (solve twice .inOrder Vigil.alone.watch #v[0] dip [level] #[1]).run (.fresh, ()) =
        .ok (solution, (.fresh, ())) ∧
      twice.Accepted ∧ Shared.Leaves Token.Stays (Vigil.alone : Vigil Unit Float).meanwhile ∧
      solution.report.status = .success ∧ solution.report.violationHistory = #[0.5, 0.25] ∧
      ∃ turned final, Accounts twice [levelRule] [0] turned final solution .fresh := by
  have accepted : twice.Accepted := .outerIterations 2 .standard rfl
  have stays : Shared.Leaves Token.Stays (Vigil.alone : Vigil Unit Float).meanwhile :=
    Shared.leaves_pure Token.stays_lasting ()
  obtain ⟨⟨solution, token, _⟩, ran, rfl, success, history⟩ :
      Yields ((solve twice .inOrder Vigil.alone.watch #v[0] dip [level] #[1]).run (.fresh, ()))
        (fun outcome => outcome.2.1 = .fresh ∧ outcome.1.report.status = .success ∧
          outcome.1.report.violationHistory = #[0.5, 0.25]) := by
    decide +kernel
  obtain ⟨_, turned, final, _, _, _, _, accounts⟩ :=
    solve_accounts twice .inOrder .alone #v[0] dip [level] #[1] _ [levelRule] solution _ _ accepted
      stays (fun _ => rfl) (.cons ⟨rfl, fun _ => rfl⟩ .nil) ran
  exact ⟨solution, ran, accepted, stays, success, history, turned, final, accounts⟩

end Penalty

end Descent

import Mathlib.Data.Set.List
import Descent.Proofs.Access
import Descent.Proofs.Cycle

/-!
What a solver is lent. The point and the offsets belong to the caller, who finds them as they were
when a request is turned down, and the rules are tested before anything else is done. Once they
are kept, no later access can miss: neither in the functions, nor in the differences, nor in the
vector operations.
-/

namespace Descent

open Scalar

/-! Rules. -/

section Rules

variable {m : Type → Type} {F : Type} [Scalar F] {n : ℕ}

def Constraint.maxIndex? (constraint : Constraint ℕ m F n) : Option ℕ := constraint.names.max?

omit [Scalar F] in
theorem Constraint.maxIndex?_below (constraint : Constraint ℕ m F n) :
    constraint.maxIndex?.all (· < n) = true ↔ ∀ i ∈ constraint.names, i < n := by
  rw [maxIndex?]
  cases largest : constraint.names.max? with
  | none =>
    rw [List.max?_eq_none_iff] at largest
    simp [largest]
  | some top =>
    obtain ⟨member, above⟩ := List.max?_eq_some_iff.mp largest
    rw [Option.all_some, decide_eq_true_iff]
    constructor
    · intro below i listed
      exact (above i listed).trans_lt below
    · intro below
      exact below top member

namespace Stated

def check (stated : Stated m F n) : Except Fault Unit := do
  Precondition.stepCount.guard (stated.stepSizes.size = n)
  Precondition.stepSign.guard (stated.stepSizes.all fun step => 0 < step)
  Precondition.variableIndex.guard
    (stated.objective.indices.all (· < n) ∧
      stated.constraints.all fun constraint => constraint.maxIndex?.all (· < n))

structure Sound (stated : Stated m F n) : Prop where
  counted : stated.stepSizes.size = n
  positive : ∀ step ∈ stated.stepSizes, 0 < step
  objective : ∀ i ∈ stated.objective.indices.toList, i < n
  constraints : ∀ constraint ∈ stated.constraints, ∀ i ∈ constraint.names, i < n

/-! Steps. -/

theorem mapM_positive?_map (steps : Vector (Positive F) n) :
    (steps.map Subtype.val).mapM Problem.positive? = some steps := by
  have stepped : Problem.positive? ∘ Subtype.val = fun step : Positive F => pure (id step) := by
    funext step
    exact dif_pos step.2
  rw [Vector.mapM_map, stepped, Vector.mapM_pure, Vector.map_id]
  rfl

theorem exists_positive (steps : Vector F n) (positive : ∀ step ∈ steps.toArray, 0 < step) :
    ∃ sure : Vector (Positive F) n, sure.map Subtype.val = steps := by
  refine ⟨Vector.ofFn fun i => ⟨steps.get i, positive _ (Array.getElem_mem _)⟩, ?_⟩
  ext i inside
  rw [Vector.getElem_map, Vector.getElem_ofFn]
  rfl

theorem mapM_positive?_eq_none {steps : Vector F n} (idle : ¬∀ step ∈ steps.toArray, 0 < step) :
    steps.mapM Problem.positive? = none := by
  refine Option.eq_none_iff_forall_ne_some.mpr fun found present => idle fun step member => ?_
  have listed : steps.toList.mapM Problem.positive? = some found.toList := by
    rw [← toList_mapM, present]
    rfl
  obtain ⟨answer, positive⟩ := exists_of_mapM_some listed step (Array.mem_toList_iff.mpr member)
  by_contra idle
  rw [Problem.positive?, dif_neg idle] at positive
  cases positive

variable {stated : Stated m F n}

theorem create_stated (problem : Problem m F n) :
    Problem.create problem.stated.objective problem.stated.constraints problem.stated.stepSizes =
      .ok problem :=
  Problem.create_eq_ok_iff.mpr
    ⟨⟨Vector.size_toArray _, mapM_positive?_map problem.steps⟩, problem.objective.rename?_rename,
      Constraint.mapM_rename?_rename problem.constraints⟩

theorem Sound.exists_problem (sound : stated.Sound) :
    ∃ problem : Problem m F n, problem.stated = stated := by
  obtain ⟨objective, constraints, stepSizes⟩ := stated
  obtain ⟨counted, positive, inside, within⟩ := sound
  dsimp only at counted positive inside within
  obtain ⟨steps, same⟩ := exists_positive ⟨stepSizes, counted⟩ positive
  obtain ⟨named, rfl⟩ := Nonlinear.exists_rename inside
  obtain ⟨others, rfl⟩ : ∃ others : List (Constraint (Fin n) m F n),
      others.map (·.rename Fin.val) = constraints := by
    rw [← Set.mem_range, Set.range_list_map]
    exact fun constraint member => Constraint.exists_rename (within constraint member)
  exact ⟨⟨named, others, steps⟩, by rw [Problem.stated, same]⟩

theorem create_outside (counted : stated.stepSizes.size = n)
    (positive : ∀ step ∈ stated.stepSizes, 0 < step)
    (outside : ¬((∀ i ∈ stated.objective.indices.toList, i < n) ∧
      ∀ constraint ∈ stated.constraints, ∀ i ∈ constraint.names, i < n)) :
    Problem.create stated.objective stated.constraints stated.stepSizes =
      .error (.precondition .variableIndex) := by
  obtain ⟨steps, same⟩ := exists_positive ⟨stated.stepSizes, counted⟩ positive
  rw [Problem.create, dif_pos counted, ← same, mapM_positive?_map]
  cases first : stated.objective.rename? (position? n) with
  | none => rfl
  | some objective =>
    cases second : stated.constraints.mapM (Constraint.rename? (position? n)) with
    | none => rfl
    | some constraints =>
      refine absurd ⟨Nonlinear.lt_of_rename? first, fun constraint member => ?_⟩ outside
      obtain ⟨named, renamed⟩ := exists_of_mapM_some second constraint member
      exact Constraint.lt_of_rename? renamed

/-- The rules are those that a problem is made by. -/
theorem check_cases (stated : Stated m F n) :
    (stated.Sound ∧ stated.check = .ok ()) ∨ (¬stated.Sound ∧ ∃ rule,
      stated.check = .error (.precondition rule) ∧
        Problem.create stated.objective stated.constraints stated.stepSizes =
          .error (.precondition rule)) := by
  have stepped : stated.stepSizes.all (fun step => 0 < step) = true ↔
      ∀ step ∈ stated.stepSizes, 0 < step := by
    simp [Array.all_eq_true_iff_forall_mem, -Array.all_eq_true]
  have placed : (stated.objective.indices.all (· < n) = true ∧
      stated.constraints.all (fun constraint => constraint.maxIndex?.all (· < n)) = true) ↔
        (∀ i ∈ stated.objective.indices.toList, i < n) ∧
          ∀ constraint ∈ stated.constraints, ∀ i ∈ constraint.names, i < n := by
    simp [Constraint.maxIndex?_below, Vector.all_eq_true_iff_forall_mem, -Vector.all_eq_true]
  by_cases counted : stated.stepSizes.size = n
  · by_cases positive : ∀ step ∈ stated.stepSizes, 0 < step
    · by_cases inside : (∀ i ∈ stated.objective.indices.toList, i < n) ∧
          ∀ constraint ∈ stated.constraints, ∀ i ∈ constraint.names, i < n
      · left
        refine ⟨⟨counted, positive, inside.1, inside.2⟩, ?_⟩
        rw [check, Precondition.guard, if_pos counted, Precondition.guard,
          if_pos (stepped.mpr positive), Precondition.guard, if_pos (placed.mpr inside)]
        rfl
      · right
        refine ⟨fun sound => inside ⟨sound.objective, sound.constraints⟩, .variableIndex, ?_, ?_⟩
        · rw [check, Precondition.guard, if_pos counted, Precondition.guard,
            if_pos (stepped.mpr positive), Precondition.guard, if_neg (mt placed.mp inside)]
          rfl
        · exact create_outside counted positive inside
    · right
      refine ⟨fun sound => positive sound.positive, .stepSign, ?_, ?_⟩
      · rw [check, Precondition.guard, if_pos counted, Precondition.guard,
          if_neg (mt stepped.mp positive)]
        rfl
      · rw [Problem.create, dif_pos counted, mapM_positive?_eq_none positive]
  · right
    refine ⟨fun sound => counted sound.counted, .stepCount, ?_, dif_neg counted⟩
    rw [check, Precondition.guard, if_neg counted]
    rfl

theorem check_stated (problem : Problem m F n) : problem.stated.check = .ok () := by
  obtain ⟨-, kept⟩ | ⟨-, rule, -, failed⟩ := problem.stated.check_cases
  · exact kept
  · rw [create_stated] at failed
    cases failed

end Stated

end Rules

/-! Solves. -/

section Minimize

variable {m : Type → Type} [Monad m] [MonadExceptOf Fault m] {F : Type} [Unbounded F] {n : ℕ}

def minimizeWith (kernels : Kernels F n) (settings : Settings F) (caller : Caller m F n)
    (x : Vector F n) : m (Vector F n × Report F) := do
  discard (MonadExcept.ofExcept (Context.create settings.threads n))
  let state ← Minimization.start kernels settings caller x
  let ended ← Minimization.run kernels settings caller 0 state
  Minimization.conclude kernels caller ended

theorem minimizeWith_shared (settings : Settings F) (runner : Runner) (caller : Caller m F n)
    (x : Vector F n) :
    minimizeWith (.shared F n settings.threads runner) settings caller x =
      minimize settings runner caller x :=
  rfl

end Minimize

def Constraint.moved {m : Type → Type} {F : Type} [Scalar F] {n : ℕ}
    (constraint : Constraint ℕ m F n) (value rate : F) : Constraint ℕ m F n :=
  { constraint with offset := constraint.comparison.clamp (constraint.offset - rate * value) }

/-! Programs whose state outlives a failure. -/

section Outliving

variable {b : Type → Type} [Monad b] {S A B : Type}

def asking (program : ExceptT Fault b A) : ExceptT Fault (StateT S b) A :=
  ExceptT.mk (monadLift program.run)

/-- The program, with its state lost where it fails. -/
def settled (program : ExceptT Fault (StateT S b) A) : StateT S (ExceptT Fault b) A :=
  fun state => ExceptT.mk
    ((fun left => left.1.map fun answer => (answer, left.2)) <$> program.run.run state)

theorem settled_run (program : ExceptT Fault (StateT S b) A) (state : S) :
    ((settled program).run state).run =
      (fun left => left.1.map fun answer => (answer, left.2)) <$> program.run.run state :=
  rfl

theorem settled_ext {program : ExceptT Fault (StateT S b) A}
    {other : StateT S (ExceptT Fault b) A}
    (same : ∀ state, (fun left => left.1.map fun answer => (answer, left.2)) <$>
      program.run.run state = (other.run state).run) : settled program = other :=
  StateT.ext fun state => ExceptT.ext (same state)

variable [LawfulMonad b]

theorem settled_pure (answer : A) :
    settled (pure answer : ExceptT Fault (StateT S b) A) = pure answer := by
  apply settled_ext
  intro state
  simp [Except.map]

theorem settled_throw (fault : Fault) :
    settled (throw fault : ExceptT Fault (StateT S b) A) = throw fault := by
  apply settled_ext
  intro state
  simp [Except.map]

theorem settled_bind (program : ExceptT Fault (StateT S b) A)
    (next : A → ExceptT Fault (StateT S b) B) :
    settled (program >>= next) = settled program >>= fun answer => settled (next answer) := by
  apply settled_ext
  intro state
  simp only [settled_run, ExceptT.run_bind, StateT.run_bind, map_bind, bind_map_left]
  apply bind_congr
  rintro ⟨answer | fault, left⟩
  · simp [Except.map]
  · rfl

theorem settled_asking (program : ExceptT Fault b A) :
    settled (asking program : ExceptT Fault (StateT S b) A) = monadLift program := by
  apply settled_ext
  intro state
  simp [asking]

theorem run_get (next : S → ExceptT Fault (StateT S b) A) (state : S) :
    (get >>= next : ExceptT Fault (StateT S b) A).run.run state = (next state).run.run state := by
  change ((Except.ok <$> (get : StateT S b S)) >>= ExceptT.bindCont next).run state = _
  rw [StateT.run_bind, StateT.run_map, StateT.run_get, map_pure, pure_bind]
  rfl

theorem settled_get : settled (get : ExceptT Fault (StateT S b) S) = get := by
  apply settled_ext
  intro state
  rw [← bind_pure (get : ExceptT Fault (StateT S b) S), run_get]
  simp [Except.map]

theorem settled_set (state : S) :
    settled (set state : ExceptT Fault (StateT S b) PUnit) = set state := by
  apply settled_ext
  intro before
  change _ <$> (Except.ok <$> (set state : StateT S b PUnit)).run before = _
  simp [Except.map]

theorem settled_ofExcept (outcome : Except Fault A) :
    settled (MonadExcept.ofExcept outcome : ExceptT Fault (StateT S b) A) =
      monadLift (MonadExcept.ofExcept outcome : ExceptT Fault b A) := by
  cases outcome with
  | error fault => exact settled_throw (b := b) fault
  | ok answer =>
    refine (settled_pure (b := b) answer).trans (StateT.ext fun state => ?_)
    change _ = (monadLift (pure answer : ExceptT Fault b A) : StateT S _ A).run state
    rw [StateT.run_pure, StateT.run_monadLift, monadLift_self, pure_bind]

end Outliving

namespace Penalty

variable {b : Type → Type} [Monad b] {F : Type} {n : ℕ}

/-- What a caller lends to a solver. -/
structure Lent (m : Type → Type) (F : Type) (n : ℕ) where
  x : Vector F n
  stated : Stated m F n

/-- Programs that work on what is lent. What they did to it stays when they fail. -/
abbrev Working (b : Type → Type) (F : Type) (n : ℕ) :=
  ExceptT Fault (StateT (Lent (ExceptT Fault b) F n) b)

/-! A solve in place. -/

variable [Unbounded F]

section Working

variable (miss : Fault) (fallback : Kernels F n)
variable (settings : PenaltySettings F) (runner : Runner) (watch : Watch (ExceptT Fault b) F)

structure InnerStated (m : Type → Type) (F : Type) (n : ℕ) where
  stated : Stated m F n
  token : Token

def innerCallerGuarded :
    Caller (StateT (InnerStated (ExceptT Fault b) F n) (ExceptT Fault b)) F n where
  evaluate x := do
    let inner ← get
    let (answer, stated) ← inner.stated.evaluate miss x
    set { inner with stated }
    pure answer
  shouldStop _ _ _ := watch.isCancelled
  isCancelled := do pure (← get).token.isCancelled
  cancel := modify fun inner => { inner with token := inner.token.cancel }
  note event := watch.note event

def minimizeOnceLent (report : PenaltyReport F) : Working b F n (F × PenaltyReport F) := do
  let lent ← get
  let ((x, inner), left) ← asking
    ((minimizeWith (.guarded settings.inner.threads runner fallback) settings.inner
      (innerCallerGuarded miss watch) lent.x).run { stated := lent.stated, token := .fresh })
  set ({ x, stated := left.stated } : Lent (ExceptT Fault b) F n)
  let worst ← asking (left.stated.maxViolation miss x)
  pure
    (worst,
      { report with
        status := inner.status
        penaltyValue := inner.value
        outerIterations := report.outerIterations + 1
        innerIterations := report.innerIterations + inner.iterations
        evaluations := report.evaluations + inner.evaluations
        violationHistory := report.violationHistory.push worst })

/-- Move the offsets of the constraints that come after `before`, one after the other. -/
def adjustLent (rate : F) (before : List (Constraint ℕ (ExceptT Fault b) F n)) :
    List (Constraint ℕ (ExceptT Fault b) F n) → Working b F n Unit
  | [] => pure ()
  | constraint :: rest => do
      let lent ← get
      let value ← asking (constraint.valueGuarded miss lent.x)
      let moved := constraint.moved value rate
      set { lent with stated := { lent.stated with constraints := before ++ moved :: rest } }
      adjustLent rate (before ++ [moved]) rest

def cycleLent : Cycle (Working b F n) F (PenaltyReport F) where
  settings
  isCancelled := asking watch.isCancelled
  minimizeOnce := minimizeOnceLent miss fallback settings runner watch
  remark done worst report := do
    if watch.verbose then
      let lent ← get
      let value ← asking (lent.stated.objective.value lent.x)
      asking (watch.note (.outerIteration done value report.penaltyValue worst))
  status := PenaltyReport.status
  adjustOffsets report := do
    let lent ← get
    adjustLent miss settings.offsetRate [] lent.stated.constraints
    pure report

def solveLent : Working b F n (PenaltyReport F) := do
  let lent ← get
  MonadExcept.ofExcept lent.stated.check
  MonadExcept.ofExcept (reserve settings.outerIterations (Unbounded.bytes F))
  let report ← (cycleLent miss fallback settings runner watch).outerFrom 0
    { status := .success
      value := 0
      penaltyValue := 0
      outerIterations := 0
      innerIterations := 0
      evaluations := 0
      maxViolation := 0
      violationHistory := #[] }
  let lent ← get
  let value ← asking (lent.stated.objective.value lent.x)
  let worst ← asking (lent.stated.maxViolation miss lent.x)
  let status ← asking (finalStatus settings watch report.status worst)
  pure { report with status, value, maxViolation := worst }

end Working

/-! The solve in place of a problem as stated is the solve. -/

section Restated

variable [LawfulMonad b] (miss : Fault) (fallback : Kernels F n)
variable (settings : PenaltySettings F) (runner : Runner) (watch : Watch (ExceptT Fault b) F)

def Inner.stated (inner : Inner (ExceptT Fault b) F n) : InnerStated (ExceptT Fault b) F n where
  stated := inner.problem.stated
  token := inner.token

/-- The second program does to a problem as stated what the first one does to the problem. -/
def Restates ⦃A : Type⦄ (program : StateT (Inner (ExceptT Fault b) F n) (ExceptT Fault b) A)
    (program' : StateT (InnerStated (ExceptT Fault b) F n) (ExceptT Fault b) A) : Prop :=
  ∀ inner, program'.run inner.stated = (fun left => (left.1, left.2.stated)) <$> program.run inner

theorem restates_lift {A : Type} (program : ExceptT Fault b A) :
    Restates (monadLift program : StateT (Inner (ExceptT Fault b) F n) _ A)
      (monadLift program) := by
  intro inner
  simp

theorem restates_congruent : Congruent (Restates (b := b) (F := F) (n := n)) where
  pure value := fun inner => by simp
  throw fault := restates_lift (throw fault)
  bind first rest := by
    intro inner
    rw [StateT.run_bind, StateT.run_bind, first inner, map_bind, bind_map_left]
    exact bind_congr fun left => rest left.1 left.2

theorem innerCaller_restates :
    Caller.Corresponds Restates (innerCaller watch : Caller (StateT (Inner _ F n) _) F n)
      (innerCallerGuarded miss watch) where
  evaluate x := by
    intro inner
    have evaluates := Stated.evaluate_stated miss inner.problem x
    simp [innerCaller, innerCallerGuarded, Inner.stated, evaluates]
  shouldStop _ _ _ := restates_lift watch.isCancelled
  isCancelled := by
    intro inner
    simp [innerCaller, innerCallerGuarded, Inner.stated]
  cancel := by
    intro inner
    simp [innerCaller, innerCallerGuarded, Inner.stated]
  note event := restates_lift (watch.note event)

theorem minimize_restates (x : Vector F n) :
    Restates (minimize settings.inner runner (innerCaller watch) x)
      (minimizeWith (.guarded settings.inner.threads runner fallback) settings.inner
        (innerCallerGuarded miss watch) x) := by
  rw [Kernels.guarded_eq, minimizeWith_shared]
  exact Minimization.minimize_corresponds restates_congruent (innerCaller_restates miss watch)

/-! What is lent while a solve is under way, and its report so far. -/

def Progress.lent (progress : Progress (ExceptT Fault b) F n) : Lent (ExceptT Fault b) F n where
  x := progress.x
  stated := progress.problem.stated

def Progress.report (progress : Progress (ExceptT Fault b) F n) : PenaltyReport F where
  status := progress.status
  value := 0
  penaltyValue := progress.penaltyValue
  outerIterations := progress.outerIterations
  innerIterations := progress.innerIterations
  evaluations := progress.evaluations
  maxViolation := 0
  violationHistory := progress.violationHistory

theorem minimizeOnce_lent (progress : Progress (ExceptT Fault b) F n) :
    (settled (minimizeOnceLent miss fallback settings runner watch progress.report)).run
        progress.lent =
      (fun next => ((next.1, next.2.report), next.2.lent)) <$>
        minimizeOnce settings runner watch progress := by
  have minimizes : (minimizeWith (.guarded settings.inner.threads runner fallback) settings.inner
      (innerCallerGuarded miss watch) progress.lent.x).run
        { stated := progress.lent.stated, token := .fresh } = _ :=
    minimize_restates miss fallback settings runner watch progress.x
      { problem := progress.problem, token := .fresh }
  rw [minimizeOnceLent, minimizeOnce]
  simp only [settled_bind, settled_get, settled_asking, settled_set, settled_pure,
    StateT.run_bind, StateT.run_get, StateT.run_monadLift, monadLift_self, pure_bind, bind_assoc,
    StateT.run_set, StateT.run_pure, map_bind, map_pure, minimizes, bind_map_left]
  apply bind_congr
  intro left
  rw [Inner.stated, Stated.maxViolation_stated]
  rfl

theorem adjust_lent (rate : F) (lent : Lent (ExceptT Fault b) F n)
    (before : List (Constraint ℕ (ExceptT Fault b) F n))
    (rest : List (Constraint (Fin n) (ExceptT Fault b) F n))
    (whole : lent.stated.constraints = before ++ rest.map (·.rename Fin.val)) :
    (settled (adjustLent miss rate before (rest.map (·.rename Fin.val)))).run lent =
      (fun adjusted : List (Constraint (Fin n) (ExceptT Fault b) F n) => ((),
        { lent with stated := { lent.stated with
            constraints := before ++ adjusted.map (·.rename Fin.val) } })) <$>
        (rest.mapM fun constraint => do
          pure (constraint.adjustOffset (← constraint.value lent.x) rate)) := by
  induction rest generalizing before lent with
  | nil =>
    obtain ⟨x, objective, _, stepSizes⟩ := lent
    dsimp only at whole
    subst whole
    simp [adjustLent, settled_pure]
  | cons constraint rest ih =>
    rw [List.map_cons] at whole ⊢
    rw [adjustLent]
    simp only [settled_bind, settled_get, settled_asking, settled_set, StateT.run_bind,
      StateT.run_get, StateT.run_monadLift, monadLift_self, pure_bind, bind_assoc, StateT.run_set,
      Constraint.valueGuarded_rename, List.mapM_cons, map_bind, map_pure]
    apply bind_congr
    intro value
    have same : (constraint.rename Fin.val).moved value rate =
        (constraint.adjustOffset value rate).rename Fin.val := rfl
    rw [same, ih _ _ (by rw [List.append_assoc]; rfl), map_eq_pure_bind]
    apply bind_congr
    intro adjusted
    rw [List.append_assoc]
    rfl

theorem adjustAll_lent (rate : F) (progress : Progress (ExceptT Fault b) F n) :
    (settled (adjustLent miss rate [] progress.lent.stated.constraints)).run progress.lent =
      (fun problem => ((), ({ progress with problem } : Progress (ExceptT Fault b) F n).lent)) <$>
        progress.problem.adjustOffsets rate progress.x := by
  refine (adjust_lent miss rate progress.lent [] progress.problem.constraints rfl).trans ?_
  rw [Problem.adjustOffsets, map_bind, map_eq_pure_bind]
  apply bind_congr
  intro adjusted
  rw [map_pure]
  rfl

theorem remark_lent (done : ℕ) (worst : F) (progress : Progress (ExceptT Fault b) F n) :
    (settled ((cycleLent miss fallback settings runner watch).remark done worst
        progress.report)).run progress.lent =
      (fun _ => ((), progress.lent)) <$>
        (Cycle.plain settings runner watch).remark done worst progress := by
  dsimp only [cycleLent, Cycle.plain]
  cases watch.verbose with
  | false => simp [settled_pure]
  | true =>
    simp only [if_true, settled_get, settled_bind, settled_asking, StateT.run_get,
      StateT.run_bind, StateT.run_monadLift, monadLift_self, bind_assoc, pure_bind, map_bind]
    refine bind_congr fun value => ?_
    rw [bind_pure_comp]
    rfl

theorem adjustOffsets_lent (progress : Progress (ExceptT Fault b) F n) :
    (settled ((cycleLent miss fallback settings runner watch).adjustOffsets progress.report)).run
        progress.lent =
      (fun next => (next.report, next.lent)) <$>
        (Cycle.plain settings runner watch).adjustOffsets progress := by
  simp only [cycleLent, Cycle.plain, settled_get, settled_bind, settled_pure, StateT.run_bind,
    StateT.run_get, StateT.run_pure, pure_bind, adjustAll_lent, bind_map_left, map_bind, map_pure]
  rfl

theorem outerFrom_lent (done : ℕ) (progress : Progress (ExceptT Fault b) F n) :
    (settled ((cycleLent miss fallback settings runner watch).outerFrom done
        progress.report)).run progress.lent =
      (fun last => (last.report, last.lent)) <$>
        (Cycle.plain settings runner watch).outerFrom done progress := by
  rw [Cycle.outerFrom, Cycle.outerFrom]
  change (settled (if done < settings.outerIterations then _ else _)).run _ =
    _ <$> (if done < settings.outerIterations then _ else _)
  by_cases goesOn : done < settings.outerIterations
  · rw [if_pos goesOn, if_pos goesOn]
    simp only [settled_bind, StateT.run_bind, map_bind]
    have polls : (settled (cycleLent miss fallback settings runner watch).isCancelled).run
        progress.lent = (fun cancelled => (cancelled, progress.lent)) <$> watch.isCancelled := by
      simp only [cycleLent, settled_asking, StateT.run_monadLift, monadLift_self, bind_pure_comp]
    rw [polls, bind_map_left]
    refine bind_congr fun cancelled => ?_
    cases cancelled with
    | true => simp [settled_pure]
    | false =>
      have once := minimizeOnce_lent miss fallback settings runner watch progress
      simp only [Bool.false_eq_true, if_false, settled_bind, StateT.run_bind, map_bind]
      refine (congrArg (· >>= _) once).trans ?_
      rw [bind_map_left]
      refine bind_congr fun ran => ?_
      rw [remark_lent, bind_map_left]
      refine bind_congr fun _ => ?_
      change (settled (if isFinal settings ran.2.status ran.1 then _ else _)).run _ =
        _ <$> (if isFinal settings ran.2.status ran.1 then _ else _)
      by_cases final : isFinal settings ran.2.status ran.1 = true
      · rw [if_pos final, if_pos final, settled_pure, StateT.run_pure, map_pure]
      · rw [if_neg final, if_neg final, settled_bind, StateT.run_bind, adjustOffsets_lent,
          bind_map_left, map_bind]
        exact bind_congr fun next => outerFrom_lent (done + 1) next
  · rw [if_neg goesOn, if_neg goesOn, settled_pure, StateT.run_pure, map_pure]
termination_by settings.outerIterations - done

end Restated

def Lent.solution {m : Type → Type} (lent : Lent m F n) (report : PenaltyReport F) :
    Solution m F n where
  x := lent.x
  objective := lent.stated.objective
  constraints := lent.stated.constraints
  report

section Requests

variable [LawfulMonad b] (settings : PenaltySettings F) (runner : Runner)
variable (watch : Watch (ExceptT Fault b) F) (miss : Fault) (fallback : Kernels F n)

theorem solve_stated (x : Vector F n) (problem : Problem (ExceptT Fault b) F n) :
    (fun left => left.2.solution left.1) <$>
        (settled (solveLent miss fallback settings runner watch)).run ⟨x, problem.stated⟩ =
      solve settings runner watch x problem.stated.objective problem.stated.constraints
        problem.stated.stepSizes := by
  have begun := outerFrom_lent miss fallback settings runner watch 0 (.begun x problem)
  have created : (MonadExcept.ofExcept (.ok problem) : ExceptT Fault b _) = pure problem := rfl
  have kept : (MonadExcept.ofExcept (.ok ()) : ExceptT Fault b Unit) = pure () := rfl
  rw [solve_eq_conclude, Stated.create_stated, created, pure_bind, solveLent]
  simp only [settled_bind, settled_get, settled_asking, settled_ofExcept, settled_pure,
    StateT.run_bind, StateT.run_get, StateT.run_monadLift, monadLift_self, StateT.run_pure,
    pure_bind, bind_assoc, Stated.check_stated, kept, map_bind, map_pure]
  apply bind_congr
  intro _
  refine (congrArg (· >>= _) begun).trans ?_
  rw [bind_map_left]
  apply bind_congr
  intro last
  simp only [Progress.lent, Stated.maxViolation_stated]
  rfl

theorem solve_refused {lent : Lent (ExceptT Fault b) F n} {fault : Fault}
    (refused : lent.stated.check = .error fault) :
    (solveLent miss fallback settings runner watch).run.run lent = pure (.error fault, lent) := by
  have thrown : (MonadExcept.ofExcept (.error fault) : Working b F n Unit) = throw fault := rfl
  rw [solveLent, run_get, refused, thrown]
  simp

end Requests

/-- A request is turned down by the solver's own rules exactly when it is not sound. Nobody was
called then, and what was lent is as it was. Otherwise the vector operations fit their operands,
and the solver does what it does without looking at its accesses, whatever a miss would raise and
a vector operation that failed would answer: none of them misses. -/
theorem solve_lent [LawfulMonad b] (settings : PenaltySettings F) (runner : Runner)
    (watch : Watch (ExceptT Fault b) F) (lent : Lent (ExceptT Fault b) F n) :
    (¬lent.stated.Sound → ∃ rule, lent.stated.check = .error (.precondition rule) ∧
      solve settings runner watch lent.x lent.stated.objective lent.stated.constraints
        lent.stated.stepSizes = throw (.precondition rule) ∧
      ∀ miss fallback, (solveLent miss fallback settings runner watch).run.run lent =
        pure (.error (.precondition rule), lent)) ∧
    (lent.stated.Sound → lent.stated.check = .ok () ∧
      (Kernels.shared F n settings.inner.threads runner).Meets settings.inner.threads runner ∧
      ∀ miss fallback, (fun left => left.1.map left.2.solution) <$>
          (solveLent miss fallback settings runner watch).run.run lent =
        (solve settings runner watch lent.x lent.stated.objective lent.stated.constraints
          lent.stated.stepSizes).run) := by
  obtain ⟨sound, kept⟩ | ⟨unsound, rule, refused, failed⟩ := lent.stated.check_cases
  · refine ⟨fun unsound => absurd sound unsound, fun _ => ⟨kept, Kernels.shared_meets _ _, ?_⟩⟩
    intro miss fallback
    obtain ⟨problem, stated⟩ := sound.exists_problem
    have settles := solve_stated settings runner watch miss fallback lent.x problem
    rw [stated] at settles
    rw [← settles, ExceptT.run_map, settled_run, Functor.map_map]
    congr 1
    funext ⟨outcome, left⟩
    cases outcome with
    | error fault => rfl
    | ok report => rfl
  · refine ⟨fun _ => ⟨rule, refused, ?_, ?_⟩, fun sound => absurd sound unsound⟩
    · have thrown : (MonadExcept.ofExcept (.error (.precondition rule)) :
          ExceptT Fault b (Problem (ExceptT Fault b) F n)) = throw (.precondition rule) := rfl
      rw [solve, failed, thrown]
      apply ExceptT.ext
      simp
    · intro miss fallback
      exact solve_refused settings runner watch miss fallback refused

/-! A world that counts the calls of its functions. -/

def counting (f : Vector Fraction 1 → Fraction) (x : Vector Fraction 1) :
    ExceptT Fault (StateM ℕ) Fraction := do
  modify (· + 1)
  pure (f x)

/-- A square under two constraints: a sum of two terms that may both name the variable, and a
function of nothing. -/
def loan (index : ℕ) : Lent (ExceptT Fault (StateM ℕ)) Fraction 1 where
  x := #v[0]
  stated :=
    { objective := .create #[0] (counting Kernel.normSquared) fun _ _ => pure none
      constraints :=
        [.create (.linear { terms := [(0, 1), (index, 1)], rhs := 1 }) .greaterThan,
          .create (.nonlinear (.create #[] (counting fun _ => 0) fun _ _ => pure none)) .equal]
      stepSizes := #[1] }

def unattended : Watch (ExceptT Fault (StateM ℕ)) Fraction where
  isCancelled := pure false
  note _ := pure ()
  verbose := false

/-- The index one is beyond the only variable, and nothing is called. The index zero may be listed
twice and a function may list none; all that was called is counted. -/
theorem solve_lent_loan :
    (¬(loan 1).stated.Sound ∧
      ((solveLent .outOfBounds ⟨fun _ target => target, fun _ _ => 0, fun _ => 0⟩ hurried .inOrder
        unattended).run.run (loan 1)).run 0 =
          ((.error (.precondition .variableIndex), loan 1), 0)) ∧
    (loan 0).stated.Sound ∧
      ∃ solution, ((fun left => left.1.map left.2.solution) <$>
        (solveLent .outOfBounds ⟨fun _ target => target, fun _ _ => 0, fun _ => 0⟩ hurried .inOrder
          unattended).run.run (loan 0)).run 0 = (.ok solution, 46) ∧
        solution.x = #v[2 / 5] ∧ solution.constraints.map (·.offset) = [1 / 5, 0] := by
  constructor
  · have unsound : ¬(loan 1).stated.Sound := by
      intro sound
      have inside := sound.constraints _ List.mem_cons_self 1 (by decide)
      exact absurd inside (by decide)
    obtain ⟨rule, refused, -, runs⟩ := (solve_lent hurried .inOrder unattended (loan 1)).1 unsound
    have rules : (loan 1).stated.check = .error (.precondition .variableIndex) := by
      decide +kernel
    rw [rules] at refused
    cases refused
    exact ⟨unsound, by rw [runs]; rfl⟩
  · have sound : (loan 0).stated.Sound :=
      ⟨rfl, by decide +kernel, by decide, by decide⟩
    obtain ⟨-, -, runs⟩ := (solve_lent hurried .inOrder unattended (loan 0)).2 sound
    have solved : Yields
        ((solve hurried .inOrder unattended (loan 0).x (loan 0).stated.objective
          (loan 0).stated.constraints (loan 0).stated.stepSizes).run.run 0).1
        (fun solution => solution.x = #v[2 / 5] ∧
          solution.constraints.map (·.offset) = [1 / 5, 0]) := by
      decide +kernel
    have calls :
        ((solve hurried .inOrder unattended (loan 0).x (loan 0).stated.objective
          (loan 0).stated.constraints (loan 0).stated.stepSizes).run.run 0).2 = 46 := by
      decide +kernel
    obtain ⟨solution, answers, found⟩ := solved
    refine ⟨sound, solution, ?_, found⟩
    rw [runs]
    exact Prod.ext answers calls

end Penalty

end Descent

import Descent.Proofs.Round

/-!
Solves of two problems that cannot be told apart. Two programs are coupled if one program answers
for both, with answers that are related; whatever both answers have in common, the programs then
agree on, as programs in any monad. A minimization keeps such a coupling, and so does the loop
around it, if the relation between problems survives what a solve does with them.
-/

namespace Descent

variable {m : Type → Type} [Monad m] [LawfulMonad m]

/-! Coupled programs. -/

section Coupled

variable {A B C D : Type} {Related : A → B → Prop} {Related' : C → D → Prop}
variable {program : m A} {program' : m B}

-- Answers may hold functions, which differ between the two problems. An equation says too much.
/-- One program answers for both. -/
def Coupled (Related : A → B → Prop) (program : m A) (program' : m B) : Prop :=
  ∃ joint : m { pair : A × B // Related pair.1 pair.2 },
    (fun pair => pair.1.1) <$> joint = program ∧ (fun pair => pair.1.2) <$> joint = program'

theorem coupled_pure {a : A} {b : B} (related : Related a b) :
    Coupled Related (pure a : m A) (pure b) :=
  ⟨pure ⟨(a, b), related⟩, map_pure _ _, map_pure _ _⟩

theorem coupled_refl (program : m A) : Coupled Eq program program := by
  refine ⟨(fun a => ⟨(a, a), rfl⟩) <$> program, ?_, ?_⟩
  · rw [← comp_map]
    exact id_map program
  · rw [← comp_map]
    exact id_map program

theorem Coupled.bind {next : A → m C} {next' : B → m D} (first : Coupled Related program program')
    (rest : ∀ a b, Related a b → Coupled Related' (next a) (next' b)) :
    Coupled Related' (program >>= next) (program' >>= next') := by
  obtain ⟨joint, rfl, rfl⟩ := first
  choose further left right using rest
  refine ⟨joint >>= fun pair => further pair.1.1 pair.1.2 pair.2, ?_, ?_⟩
  · simp only [map_bind, left, bind_map_left]
  · simp only [map_bind, right, bind_map_left]

theorem Coupled.map_eq {view : A → C} {view' : B → C} (coupled : Coupled Related program program')
    (common : ∀ a b, Related a b → view a = view' b) : view <$> program = view' <$> program' := by
  obtain ⟨joint, rfl, rfl⟩ := coupled
  rw [← comp_map, ← comp_map]
  exact congrArg (· <$> joint) (funext fun pair => common pair.1.1 pair.1.2 pair.2)

end Coupled

/-! Programs with a state. -/

section Carried

variable {S : Type} {Alike : S → S → Prop}

def Carries (Alike : S → S → Prop) ⦃A : Type⦄ (program program' : StateT S m A) : Prop :=
  ∀ state state', Alike state state' →
    Coupled (fun a b => a.1 = b.1 ∧ Alike a.2 b.2) (program.run state) (program'.run state')

theorem carries_lift {A : Type} (program : m A) :
    Carries Alike (monadLift program : StateT S m A) (monadLift program) :=
  fun _ _ alike => (coupled_refl program).bind fun _ _ same => coupled_pure ⟨same, alike⟩

theorem carries_congruent [MonadExceptOf Fault m] :
    Congruent (Carries Alike : ⦃A : Type⦄ → StateT S m A → StateT S m A → Prop) where
  pure value := fun _ _ alike => coupled_pure ⟨rfl, alike⟩
  throw fault := carries_lift (throw fault)
  bind first rest := by
    intro state state' alike
    refine (first state state' alike).bind ?_
    rintro ⟨a, left⟩ ⟨b, left'⟩ ⟨rfl, kept⟩
    exact rest a left left' kept

end Carried

/-! Solves. -/

namespace Penalty

variable {F : Type} [Unbounded F] {n : Nat}

/-- Nothing that a solve asks of a problem tells it from a related one. -/
structure Indistinct (Alike : Problem m F n → Problem m F n → Prop) : Prop where
  value {problem problem' : Problem m F n} (alike : Alike problem problem') (x : Vector F n) :
    Coupled Eq (problem.objective.value x) (problem'.objective.value x)
  evaluate {problem problem' : Problem m F n} (alike : Alike problem problem') (x : Vector F n) :
    Coupled (fun a b => a.1 = b.1 ∧ Alike a.2 b.2) (problem.evaluate x) (problem'.evaluate x)
  maxViolation {problem problem' : Problem m F n} (alike : Alike problem problem')
    (x : Vector F n) : Coupled Eq (problem.maxViolation x) (problem'.maxViolation x)
  adjustOffsets {problem problem' : Problem m F n} (alike : Alike problem problem') (rate : F)
    (x : Vector F n) :
    Coupled Alike (problem.adjustOffsets rate x) (problem'.adjustOffsets rate x)
  offsets {problem problem' : Problem m F n} (alike : Alike problem problem') :
    problem.constraints.map (·.offset) = problem'.constraints.map (·.offset)

def Progress.Alike (Alike : Problem m F n → Problem m F n → Prop)
    (progress progress' : Progress m F n) : Prop :=
  ∃ problem, progress' = { progress with problem } ∧ Alike progress.problem problem

def view (solution : Solution m F n) : Vector F n × List F × PenaltyReport F :=
  (solution.x, solution.constraints.map (·.offset), solution.report)

namespace Indistinct

variable {Alike : Problem m F n → Problem m F n → Prop} (indistinct : Indistinct Alike)
variable (settings : PenaltySettings F) (runner : Runner) (watch : Watch m F)

include indistinct

theorem innerCaller :
    Caller.Corresponds
      (Carries fun inner inner' : Inner m F n =>
        inner.token = inner'.token ∧ Alike inner.problem inner'.problem)
      (innerCaller watch) (innerCaller watch) where
  evaluate x := by
    rintro ⟨problem, token⟩ ⟨problem', _⟩ ⟨rfl, alike⟩
    simp only [Penalty.innerCaller, StateT.run_bind, StateT.run_get, StateT.run_set,
      StateT.run_pure, StateT.run_monadLift, pure_bind, bind_assoc]
    refine (indistinct.evaluate alike x).bind ?_
    rintro ⟨answer, left⟩ ⟨_, left'⟩ ⟨rfl, kept⟩
    exact coupled_pure ⟨rfl, rfl, kept⟩
  shouldStop _ _ _ := carries_lift watch.isCancelled
  isCancelled := by
    rintro ⟨problem, token⟩ ⟨problem', _⟩ ⟨rfl, alike⟩
    simp only [Penalty.innerCaller, StateT.run_bind, StateT.run_get, pure_bind, StateT.run_pure]
    exact coupled_pure ⟨rfl, rfl, alike⟩
  cancel := by
    rintro ⟨problem, token⟩ ⟨problem', _⟩ ⟨rfl, alike⟩
    exact coupled_pure ⟨rfl, rfl, alike⟩
  note event := carries_lift (watch.note event)

variable [MonadExceptOf Fault m]

theorem minimizeOnce {progress progress' : Progress m F n}
    (alike : progress.Alike Alike progress') :
    Coupled (fun a b => a.1 = b.1 ∧ a.2.Alike Alike b.2)
      (minimizeOnce settings runner watch progress)
      (minimizeOnce settings runner watch progress') := by
  obtain ⟨problem, rfl, related⟩ := alike
  have minimizes : Carries (fun inner inner' : Inner m F n =>
        inner.token = inner'.token ∧ Alike inner.problem inner'.problem)
      (minimize settings.inner runner (Penalty.innerCaller watch) progress.x)
      (minimize settings.inner runner (Penalty.innerCaller watch) progress.x) :=
    Minimization.minimize_corresponds carries_congruent (indistinct.innerCaller watch)
  refine (minimizes ⟨progress.problem, .fresh⟩ ⟨problem, .fresh⟩ ⟨rfl, related⟩).bind ?_
  rintro ⟨⟨x, report⟩, inner⟩ ⟨_, inner'⟩ ⟨rfl, -, kept⟩
  refine (indistinct.maxViolation kept x).bind ?_
  rintro worst _ rfl
  exact coupled_pure ⟨rfl, inner'.problem, rfl, kept⟩

theorem outerFrom (done : ℕ) {progress progress' : Progress m F n}
    (alike : progress.Alike Alike progress') :
    Coupled (Progress.Alike Alike) (outerFrom settings runner watch done progress)
      (outerFrom settings runner watch done progress') := by
  -- By the cases of the loop. What is carried is that the problems are related.
  induction done, progress using outerFrom.induct settings generalizing progress' with
  | case1 done progress goesOn ih =>
    rw [Penalty.outerFrom, Penalty.outerFrom, if_pos goesOn, if_pos goesOn]
    refine (coupled_refl watch.isCancelled).bind ?_
    rintro cancelled _ rfl
    cases cancelled with
    | true => exact coupled_pure alike
    | false =>
      refine (indistinct.minimizeOnce settings runner watch alike).bind ?_
      rintro ⟨worst, next⟩ ⟨_, _⟩ ⟨rfl, problem, rfl, related⟩
      have onward : Coupled (Progress.Alike Alike)
          (if isFinal settings next.status worst then pure next
          else do
            let problem ← next.problem.adjustOffsets settings.offsetRate next.x
            Penalty.outerFrom settings runner watch (done + 1) { next with problem })
          (if isFinal settings next.status worst then pure { next with problem }
          else do
            let problem ← problem.adjustOffsets settings.offsetRate next.x
            Penalty.outerFrom settings runner watch (done + 1) { next with problem }) := by
        cases isFinal settings next.status worst with
        | true => exact coupled_pure ⟨problem, rfl, related⟩
        | false =>
          refine (indistinct.adjustOffsets related settings.offsetRate next.x).bind ?_
          intro left left' kept
          exact ih next left ⟨left', rfl, kept⟩
      cases reports : watch.verbose with
      | false =>
        simp only [Bool.false_eq_true, if_false]
        exact onward
      | true =>
        simp only [if_true]
        refine (indistinct.value related next.x).bind ?_
        rintro value _ rfl
        refine (coupled_refl _).bind ?_
        intro _ _ _
        exact onward
  | case2 done progress spent =>
    rw [Penalty.outerFrom, Penalty.outerFrom, if_neg spent, if_neg spent]
    exact coupled_pure alike

theorem solve_view (x : Vector F n) {objective objective' : Nonlinear Nat m F n}
    {constraints constraints' : List (Constraint Nat m F n)} {stepSizes : Array F}
    {problem problem' : Problem m F n}
    (created : Problem.create objective constraints stepSizes = .ok problem)
    (created' : Problem.create objective' constraints' stepSizes = .ok problem')
    (alike : Alike problem problem') :
    view <$> solve settings runner watch x objective constraints stepSizes =
      view <$> solve settings runner watch x objective' constraints' stepSizes := by
  have coupled : Coupled (fun solution solution' => view solution = view solution')
      (solve settings runner watch x objective constraints stepSizes)
      (solve settings runner watch x objective' constraints' stepSizes) := by
    rw [solve, solve, created, created']
    have begun : Coupled Alike (pure problem : m _) (pure problem') := coupled_pure alike
    refine begun.bind ?_
    intro problem problem' alike
    refine (coupled_refl _).bind ?_
    intro _ _ _
    refine (indistinct.outerFrom settings runner watch 0 ⟨problem', rfl, alike⟩).bind ?_
    rintro last _ ⟨problem, rfl, alike⟩
    refine (indistinct.value alike last.x).bind ?_
    rintro value _ rfl
    refine (indistinct.maxViolation alike last.x).bind ?_
    rintro worst _ rfl
    refine (coupled_refl _).bind ?_
    rintro status _ rfl
    refine coupled_pure ?_
    simp only [view, List.map_map]
    exact congrArg (fun offsets => (last.x, offsets, _)) (indistinct.offsets alike)
  exact coupled.map_eq fun _ _ same => same

end Indistinct

end Penalty

end Descent

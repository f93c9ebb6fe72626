import Descent.Proofs.Feasibility
import Descent.Proofs.Round

/-!
A solve that used up its outer iterations can be continued. Between two outer iterations only the
point and the functions with their offsets are carried on: everything else starts anew in every
inner run, or is counted. So a second solve, from what the first one left, does what the first
would have done with more outer iterations.
-/

namespace Descent

open Scalar Execution

def Watch.idle {F : Type} (verbose : Bool) : Watch (Except Fault) F where
  isCancelled := pure false
  note _ := pure ()
  verbose

def PenaltyReport.following {F : Type} (second first : PenaltyReport F) : PenaltyReport F :=
  { second with
    outerIterations := first.outerIterations + second.outerIterations
    innerIterations := first.innerIterations + second.innerIterations
    evaluations := first.evaluations + second.evaluations
    violationHistory := first.violationHistory ++ second.violationHistory }

def Solution.following {F : Type} {n : Nat} (second first : Solution (Except Fault) F n) :
    Solution (Except Fault) F n :=
  { second with report := second.report.following first.report }

/-! Functions that a solve hands back state the same problem again. -/

section Naming

variable {m : Type → Type} {F : Type} {n : Nat}

theorem Nonlinear.rename?_rename (function : Nonlinear (Fin n) m F n) :
    (function.rename Fin.val).rename? (position? n) = some function := by
  have indices : (function.indices.map Fin.val).mapM (position? n) = some function.indices := by
    have named : position? n ∘ Fin.val = fun i => pure (id i) := funext position?_val
    rw [Vector.mapM_map, named, Vector.mapM_pure, Vector.map_id]
    rfl
  simp only [rename, rename?]
  rw [indices]
  rfl

theorem Constraint.rename?_rename (constraint : Constraint (Fin n) m F n) :
    (constraint.rename Fin.val).rename? (position? n) = some constraint := by
  obtain ⟨form, comparison, offset⟩ := constraint
  cases form with
  | linear function => simp [rename, rename?, Linear.rename?_rename]
  | nonlinear function => simp [rename, rename?, Nonlinear.rename?_rename]

theorem Constraint.mapM_rename?_rename (constraints : List (Constraint (Fin n) m F n)) :
    (constraints.map (·.rename Fin.val)).mapM (rename? (position? n)) = some constraints := by
  have named : rename? (position? n) ∘ (·.rename Fin.val) =
      fun constraint : Constraint (Fin n) m F n => pure (id constraint) := funext rename?_rename
  rw [List.mapM_map, named, List.mapM_pure, List.map_id]
  rfl

theorem Problem.create_rename [Scalar F] {objective : Nonlinear Nat m F n}
    {constraints : List (Constraint Nat m F n)} {stepSizes : Array F} {problem last : Problem m F n}
    (created : create objective constraints stepSizes = .ok problem)
    (steps : last.steps = problem.steps) :
    create (last.objective.rename Fin.val) (last.constraints.map (·.rename Fin.val)) stepSizes =
      .ok last := by
  apply create_eq_ok_iff.mpr
  rw [steps, Nonlinear.rename?_rename, Constraint.mapM_rename?_rename]
  exact ⟨(create_eq_ok_iff.mp created).1, rfl, rfl⟩

end Naming

namespace Penalty

variable {F : Type} [Unbounded F] {n : Nat} {settings : PenaltySettings F} {runner : Runner}
variable {verbose : Bool} {done : Nat}

/-- The same state with the counts of an earlier one before its own. -/
def Progress.following (next first : Progress (Except Fault) F n) :
    Progress (Except Fault) F n :=
  { next with
    outerIterations := first.outerIterations + next.outerIterations
    innerIterations := first.innerIterations + next.innerIterations
    evaluations := first.evaluations + next.evaluations
    violationHistory := first.violationHistory ++ next.violationHistory }

/-- The move of the offsets after an outer iteration, if it is not the last one. -/
def turnOver (settings : PenaltySettings F) (worst : F) (next : Progress (Except Fault) F n) :
    Except Fault (Bool × Progress (Except Fault) F n) := do
  if isFinal settings next.status worst then pure (true, next)
  else
    let problem ← next.problem.adjustOffsets settings.offsetRate next.x
    pure (false, { next with problem })

def advance (settings : PenaltySettings F) (runner : Runner) (verbose : Bool)
    (progress : Progress (Except Fault) F n) :
    Except Fault (Bool × Progress (Except Fault) F n) := do
  let (worst, next) ← minimizeOnce settings runner (.idle verbose) progress
  if verbose then
    let _ ← next.problem.objective.value next.x
  turnOver settings worst next

theorem turnOver_bind {A : Type} (worst : F) (next : Progress (Except Fault) F n)
    (ends goesOn : Progress (Except Fault) F n → Except Fault A) :
    (turnOver settings worst next >>= fun turned =>
        if turned.1 then ends turned.2 else goesOn turned.2) =
      if isFinal settings next.status worst then ends next
      else next.problem.adjustOffsets settings.offsetRate next.x >>= fun problem =>
        goesOn { next with problem } := by
  unfold turnOver
  split
  · rfl
  · rw [bind_assoc]
    rfl

theorem outerFrom_idle (progress : Progress (Except Fault) F n) :
    outerFrom settings runner (.idle verbose) done progress =
      if done < settings.outerIterations then do
        let (stopped, next) ← advance settings runner verbose progress
        if stopped then pure next
        else outerFrom settings runner (.idle verbose) (done + 1) next
      else pure progress := by
  rw [outerFrom]
  split
  · rw [advance, bind_assoc]
    change minimizeOnce settings runner (.idle verbose) progress >>= _ = _
    apply bind_congr
    rintro ⟨worst, next⟩
    cases verbose with
    | false => exact (turnOver_bind worst next pure _).symm
    | true =>
      change (next.problem.objective.value next.x >>= _) =
        (next.problem.objective.value next.x >>= fun _ => turnOver settings worst next) >>= _
      rw [bind_assoc]
      apply bind_congr
      intro _
      exact (turnOver_bind worst next pure _).symm
  · rfl

/-! Nothing that an outer iteration does depends on what was counted before it. -/

theorem minimizeOnce_following (first progress : Progress (Except Fault) F n)
    (watch : Watch (Except Fault) F) :
    minimizeOnce settings runner watch (progress.following first) =
      (fun found => (found.1, found.2.following first)) <$>
        minimizeOnce settings runner watch progress := by
  simp only [minimizeOnce, map_bind]
  apply bind_congr
  rintro ⟨⟨x, report⟩, inner⟩
  apply bind_congr
  intro worst
  simp [Progress.following, add_assoc]

theorem turnOver_following (worst : F) (first next : Progress (Except Fault) F n) :
    turnOver settings worst (next.following first) =
      (fun turned => (turned.1, turned.2.following first)) <$> turnOver settings worst next := by
  cases ends : isFinal settings next.status worst with
  | true => simp [turnOver, Progress.following, ends]
  | false => simp [turnOver, Progress.following, ends]

theorem advance_following (first progress : Progress (Except Fault) F n) :
    advance settings runner verbose (progress.following first) =
      (fun turned => (turned.1, turned.2.following first)) <$>
        advance settings runner verbose progress := by
  rw [advance, minimizeOnce_following, advance, map_bind, bind_map_left]
  apply bind_congr
  rintro ⟨worst, next⟩
  cases verbose with
  | false => exact turnOver_following worst first next
  | true =>
    change (next.problem.objective.value next.x >>= _) =
      _ <$> (next.problem.objective.value next.x >>= fun _ => turnOver settings worst next)
    rw [map_bind]
    apply bind_congr
    intro _
    exact turnOver_following worst first next

theorem outerFrom_following (rounds further : Nat) (first progress : Progress (Except Fault) F n) :
    outerFrom { settings with outerIterations := rounds + further } runner (.idle verbose)
        (rounds + done) (progress.following first) =
      (·.following first) <$>
        outerFrom { settings with outerIterations := further } runner (.idle verbose) done
          progress := by
  induction done, progress using outerFrom.induct { settings with outerIterations := further } with
  | case1 done progress goesOn ih =>
    rw [outerFrom_idle, outerFrom_idle, if_pos goesOn, if_pos (Nat.add_lt_add_left goesOn rounds),
      advance_following, bind_map_left, map_bind]
    apply bind_congr
    rintro ⟨stopped, next⟩
    cases stopped with
    | true => rfl
    | false => exact ih next next.problem
  | case2 done progress spent =>
    rw [outerFrom_idle, outerFrom_idle, if_neg spent,
      if_neg fun less => spent (Nat.lt_of_add_lt_add_left less)]
    rfl

/-! Outer iterations that are all made. -/

theorem advance_returns {progress next : Progress (Except Fault) F n} {stopped : Bool}
    (ran : Returns (advance settings runner verbose progress) () (stopped, next) ()) :
    ∃ worst, next.violationHistory = progress.violationHistory.push worst ∧
      next.outerIterations = progress.outerIterations + 1 ∧
      stopped = isFinal settings next.status worst := by
  unfold advance at ran
  obtain ⟨⟨worst, minimized⟩, _, minimizes, rest⟩ := returns_bind.mp ran
  obtain ⟨_, _, _, _, _, same⟩ := minimizeOnce_returns minimizes
  have turned : Returns (turnOver settings worst minimized) () (stopped, next) () := by
    cases verbose with
    | false => exact rest
    | true =>
      obtain ⟨_, _, _, turns⟩ := returns_bind.mp rest
      exact turns
  refine ⟨worst, ?_⟩
  cases ends : isFinal settings minimized.status worst with
  | true =>
    rw [turnOver, if_pos ends] at turned
    obtain ⟨answer, _⟩ := returns_pure.mp turned
    cases answer
    rw [same] at ends ⊢
    exact ⟨rfl, rfl, ends.symm⟩
  | false =>
    rw [turnOver, if_neg (by simp [ends])] at turned
    obtain ⟨problem, _, _, last⟩ := returns_bind.mp turned
    obtain ⟨answer, _⟩ := returns_pure.mp last
    cases answer
    rw [same] at ends ⊢
    exact ⟨rfl, rfl, ends.symm⟩

/-- Without an early exit a solve with more outer iterations comes through the same state. -/
theorem outerFrom_reaches {rounds : Nat} (further : Nat)
    {progress last : Progress (Except Fault) F n}
    (ran : Returns
      (outerFrom { settings with outerIterations := rounds } runner (.idle verbose) done progress)
      () last ())
    (within : done ≤ rounds) (bounded : last.status ≠ .unbounded)
    (unmet : settings.checksTolerance = true →
      ∀ worst ∈ last.violationHistory, ¬ worst ≤ settings.violationTolerance) :
    last.outerIterations = progress.outerIterations + (rounds - done) ∧
    outerFrom { settings with outerIterations := rounds + further } runner (.idle verbose) done
        progress =
      outerFrom { settings with outerIterations := rounds + further } runner (.idle verbose)
        rounds last := by
  induction done, progress using outerFrom.induct { settings with outerIterations := rounds } with
  | case1 done progress goesOn ih =>
    rw [outerFrom_idle, if_pos goesOn] at ran
    obtain ⟨⟨stopped, next⟩, _, advances, rest⟩ := returns_bind.mp ran
    obtain ⟨worst, history, counted, same⟩ := advance_returns advances
    cases stopped with
    | true =>
      obtain ⟨rfl, _⟩ := returns_pure.mp rest
      exfalso
      have ends : isFinal settings last.status worst = true := same.symm
      simp only [isFinal, Bool.or_eq_true, Bool.and_eq_true, decide_eq_true_eq] at ends
      rcases ends with unbounded | ⟨asks, met⟩
      · exact bounded unbounded
      · exact unmet asks worst (by simp [history]) met
    | false =>
      obtain ⟨total, onward⟩ := ih next next.problem rest goesOn
      constructor
      · have fewer : done < rounds := goesOn
        rw [total, counted]
        omega
      · have below : done < rounds + further := Nat.lt_add_right further goesOn
        rw [outerFrom_idle, if_pos below]
        have again : advance { settings with outerIterations := rounds + further } runner verbose
            progress = .ok (false, next) := advances
        rw [again]
        exact onward
  | case2 done progress spent =>
    rw [outerFrom_idle, if_neg spent] at ran
    obtain ⟨rfl, _⟩ := returns_pure.mp ran
    have reached : done = rounds := Nat.le_antisymm within (Nat.le_of_not_lt spent)
    subst reached
    exact ⟨by rw [Nat.sub_self, Nat.add_zero], rfl⟩

theorem rounds_steps {watch : Watch (Except Fault) F} {progress last : Progress (Except Fault) F n}
    (rounds : Rounds settings runner watch done progress () last ()) :
    last.problem.steps = progress.problem.steps := by
  obtain ⟨_, kept⟩ : ∃ ended : Nat, last.problem.steps = progress.problem.steps :=
    rounds_invariant (fun _ next _ => next.problem.steps = progress.problem.steps)
      (fun _ _ _ _ _ kept _ => kept)
      (fun _ _ _ _ _ _ kept ⟨_, _, _, _, minimizes, _⟩ => by
        obtain ⟨_, inner, _, runs, _, same⟩ := minimizeOnce_returns minimizes
        have left : inner.problem.blank = _ := inner_blank runs
        rw [same]
        exact (congrArg (·.steps) left).trans kept)
      (fun _ _ _ _ _ kept adjusts => by
        obtain ⟨_, _, _, last⟩ := returns_bind.mp adjusts
        obtain ⟨rfl, _⟩ := returns_pure.mp last
        exact kept)
      rounds rfl
  exact kept

def conclude (settings : PenaltySettings F) (verbose : Bool)
    (last : Progress (Except Fault) F n) : Except Fault (Solution (Except Fault) F n) := do
  let value ← last.problem.objective.value last.x
  let worst ← last.problem.maxViolation last.x
  let status ← finalStatus settings (.idle verbose) last.status worst
  pure (last.concluded status value worst)

theorem conclude_following {status : Status} {value worst : F}
    (first last : Progress (Except Fault) F n) :
    conclude settings verbose (last.following first) =
      (·.following (first.concluded status value worst)) <$> conclude settings verbose last := by
  simp only [conclude, map_bind, map_pure]
  rfl

theorem solve_eq {x : Vector F n} {objective : Nonlinear Nat (Except Fault) F n}
    {constraints : List (Constraint Nat (Except Fault) F n)} {stepSizes : Array F}
    {problem : Problem (Except Fault) F n}
    (created : Problem.create objective constraints stepSizes = .ok problem) :
    solve settings runner (.idle verbose) x objective constraints stepSizes = (do
      reserve settings.outerIterations (Unbounded.bytes F)
      let last ← outerFrom settings runner (.idle verbose) 0 (.begun x problem)
      conclude settings verbose last) := by
  rw [solve, created]
  cases room : reserve settings.outerIterations (Unbounded.bytes F) with
  | error fault => rfl
  | ok _ => rfl

theorem reserve_mono {count more bytes : Nat} (fewer : count ≤ more)
    (room : reserve more bytes = .ok ()) : reserve count bytes = .ok () := by
  unfold reserve at room ⊢
  split at room
  · next fits =>
    have smaller : count * bytes ≤ more * bytes := Nat.mul_le_mul_right bytes fewer
    rw [if_pos ⟨Nat.lt_of_le_of_lt fewer fits.1, Nat.le_trans smaller fits.2⟩]
  · cases room

-- The status and the penalized value of the last outer iteration are overwritten by the next one.
theorem outerFrom_anew {rounds further : Nat} (continues : 0 < further)
    (last : Progress (Except Fault) F n) :
    outerFrom { settings with outerIterations := rounds + further } runner (.idle verbose) rounds
        last =
      (·.following last) <$>
        outerFrom { settings with outerIterations := further } runner (.idle verbose) 0
          (.begun last.x last.problem) := by
  have begun : (Progress.begun last.x last.problem).following last =
      { last with status := .success, penaltyValue := 0 } := by
    simp [Progress.following, Progress.begun]
  have goesOn : rounds < rounds + further := Nat.lt_add_of_pos_right continues
  rw [← outerFrom_following rounds further last, begun, Nat.add_zero, outerFrom_idle,
    outerFrom_idle, if_pos goesOn, if_pos goesOn]
  rfl

/-- A solve that made all its outer iterations, none of which was a reason to stop, is continued by
a second one: both together are one solve with all outer iterations, if there is room for its
history. -/
theorem solve_continued (settings : PenaltySettings F) (runner : Runner) (verbose : Bool)
    (x : Vector F n) (objective : Nonlinear Nat (Except Fault) F n)
    (constraints : List (Constraint Nat (Except Fault) F n)) (stepSizes : Array F)
    (rounds further : Nat) (first : Solution (Except Fault) F n) (continues : 0 < further)
    (ran : solve { settings with outerIterations := rounds } runner (.idle verbose) x objective
      constraints stepSizes = .ok first)
    (bounded : first.report.status ≠ .unbounded)
    (unmet : settings.checksTolerance = true →
      ∀ worst ∈ first.report.violationHistory, ¬ worst ≤ settings.violationTolerance) :
    first.report.outerIterations = rounds ∧
    solve { settings with outerIterations := rounds + further } runner (.idle verbose) x objective
        constraints stepSizes = (do
      reserve (rounds + further) (Unbounded.bytes F)
      let second ← solve { settings with outerIterations := further } runner (.idle verbose)
        first.x first.objective first.constraints stepSizes
      pure (second.following first)) := by
  have returned : Returns
      (solve { settings with outerIterations := rounds } runner (.idle verbose) x objective
        constraints stepSizes) () first () := ran
  obtain ⟨problem, last, _, _, _, status, value, worst, created, _, iterated, _, _, judged, rfl⟩ :=
    solve_outer returned
  have lastBounded : last.status ≠ .unbounded := by
    intro unbounded
    rw [finalStatus, if_pos unbounded] at judged
    exact bounded ((returns_pure.mp judged).1.trans unbounded)
  obtain ⟨counted, reaches⟩ :=
    outerFrom_reaches further iterated (Nat.zero_le rounds) lastBounded unmet
  refine ⟨counted.trans (Nat.zero_add rounds), ?_⟩
  have steps : last.problem.steps = problem.steps := rounds_steps (outerFrom_returns iterated)
  have again : Problem.create (last.problem.objective.rename Fin.val)
      (last.problem.constraints.map (·.rename Fin.val)) stepSizes = .ok last.problem :=
    Problem.create_rename created steps
  rw [solve_eq created, reaches, outerFrom_anew continues]
  cases room : reserve (rounds + further) (Unbounded.bytes F) with
  | error fault => rfl
  | ok _ =>
    have enough : reserve further (Unbounded.bytes F) = .ok () :=
      reserve_mono (Nat.le_add_left further rounds) room
    have second : solve { settings with outerIterations := further } runner (.idle verbose) last.x
        (last.problem.objective.rename Fin.val) (last.problem.constraints.map (·.rename Fin.val))
        stepSizes =
          outerFrom { settings with outerIterations := further } runner (.idle verbose) 0
            (.begun last.x last.problem) >>= conclude settings verbose := by
      rw [solve_eq again, enough]
      rfl
    calc (fun next : Progress (Except Fault) F n => next.following last) <$>
          outerFrom { settings with outerIterations := further } runner (.idle verbose) 0
            (.begun last.x last.problem) >>= conclude settings verbose
      _ = outerFrom { settings with outerIterations := further } runner (.idle verbose) 0
            (.begun last.x last.problem) >>= fun next =>
              (·.following (last.concluded status value worst)) <$> conclude settings verbose next := by
        rw [bind_map_left]
        exact bind_congr fun next => conclude_following last next
      _ = (outerFrom { settings with outerIterations := further } runner (.idle verbose) 0
            (.begun last.x last.problem) >>= conclude settings verbose) >>= fun second =>
              pure (second.following (last.concluded status value worst)) := by
        rw [bind_assoc]
        exact bind_congr fun next => (bind_pure_comp _ _).symm
      _ = _ := by
        rw [← second]
        rfl

/-! A line that goes down to a floor. -/

def incline : Nonlinear Nat (Except Fault) Float 1 :=
  .create #[0] (fun x => pure (x.get ⟨0, Nat.one_pos⟩))
    fun _ _ => pure (some (Vector.replicate 1 1))

def floor : Constraint Nat (Except Fault) Float 1 :=
  .create (.linear { terms := [(0, 1)], rhs := 1 }) .greaterThan

def brisk : PenaltySettings Float := { PenaltySettings.standard with innerIterations := 1 }

theorem solve_continued_floor :
    ∃ first second : Solution (Except Fault) Float 1,
      0 < 1 ∧
      solve { brisk with outerIterations := 1 } .inOrder (.idle true) #v[4] incline [floor] #[1] =
        .ok first ∧
      first.report.status ≠ .unbounded ∧
      (brisk.checksTolerance = true →
        ∀ worst ∈ first.report.violationHistory, ¬ worst ≤ brisk.violationTolerance) ∧
      first.report.outerIterations = 1 ∧
      solve { brisk with outerIterations := 1 } .inOrder (.idle true) first.x first.objective
        first.constraints #[1] = .ok second ∧
      solve { brisk with outerIterations := 2 } .inOrder (.idle true) #v[4] incline [floor] #[1] =
        .ok (second.following first) := by
  obtain ⟨first, ran, bounded, second, again, _⟩ :
      Yields
        (solve { brisk with outerIterations := 1 } .inOrder (.idle true) #v[4] incline [floor]
          #[1])
        (fun first => first.report.status ≠ .unbounded ∧
          Yields
            (solve { brisk with outerIterations := 1 } .inOrder (.idle true) first.x
              first.objective first.constraints #[1]) fun _ => True) := by
    decide +kernel
  have unmet : brisk.checksTolerance = true →
      ∀ worst ∈ first.report.violationHistory, ¬ worst ≤ brisk.violationTolerance := by
    have unasked : brisk.checksTolerance = false := by decide +kernel
    simp [unasked]
  obtain ⟨counted, continued⟩ :=
    solve_continued brisk .inOrder true _ _ _ _ 1 1 first Nat.one_pos ran bounded unmet
  refine ⟨first, second, Nat.one_pos, ran, bounded, unmet, counted, again, continued.trans ?_⟩
  have room : reserve 2 (Unbounded.bytes Float) = .ok () := by decide
  rw [room]
  exact congrArg (· >>= fun second => pure (second.following first)) again

end Penalty

end Descent

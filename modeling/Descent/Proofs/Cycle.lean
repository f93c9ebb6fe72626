import Descent.Proofs.Round

/-!
The outer iterations of a solve over their parts. What is kept from one to the next may be a
progress with its own problem, or a report about functions that are somebody else's. When the token
is asked, and what comes between an inner run and the next one, is written down here once.
-/

namespace Descent

namespace Penalty

variable {m : Type → Type} [Monad m] {F : Type} [Unbounded F] {n : Nat} {Kept : Type}

structure Cycle (m : Type → Type) (F Kept : Type) where
  settings : PenaltySettings F
  isCancelled : m Bool
  /-- One inner run, and the violation where it ended. -/
  minimizeOnce : Kept → m (F × Kept)
  /-- Told the number of the outer iteration and the violation. -/
  remark : Nat → F → Kept → m Unit
  status : Kept → Status
  adjustOffsets : Kept → m Kept

namespace Cycle

def outerFrom (cycle : Cycle m F Kept) (done : Nat) (kept : Kept) : m Kept := do
  if done < cycle.settings.outerIterations then
    let cancelled ← cycle.isCancelled
    if cancelled then pure kept
    else
      let (worst, kept) ← cycle.minimizeOnce kept
      cycle.remark done worst kept
      if isFinal cycle.settings (cycle.status kept) worst then pure kept
      else
        let kept ← cycle.adjustOffsets kept
        outerFrom cycle (done + 1) kept
  else pure kept
termination_by cycle.settings.outerIterations - done

variable [MonadExceptOf Fault m] (settings : PenaltySettings F) (runner : Runner)
variable (watch : Watch m F)

def plain : Cycle m F (Progress m F n) where
  settings
  isCancelled := watch.isCancelled
  minimizeOnce := Penalty.minimizeOnce settings runner watch
  remark done worst progress := do
    if watch.verbose then
      let value ← progress.problem.objective.value progress.x
      watch.note (.outerIteration done value progress.penaltyValue worst)
  status := Progress.status
  adjustOffsets progress := do
    let problem ← progress.problem.adjustOffsets settings.offsetRate progress.x
    pure { progress with problem }

theorem plain_outerFrom [LawfulMonad m] (done : Nat) (progress : Progress m F n) :
    (plain settings runner watch).outerFrom done progress =
      Penalty.outerFrom settings runner watch done progress := by
  rw [outerFrom, Penalty.outerFrom]
  refine ite_congr rfl (fun goesOn => ?_) fun _ => rfl
  refine bind_congr fun cancelled => ite_congr rfl (fun _ => rfl) fun _ => ?_
  refine bind_congr fun once => ?_
  have onward :
      (if isFinal settings once.2.status once.1 then pure once.2
        else do
          let kept ← (plain settings runner watch).adjustOffsets once.2
          (plain settings runner watch).outerFrom (done + 1) kept) =
        (if isFinal settings once.2.status once.1 then pure once.2
        else do
          let problem ← once.2.problem.adjustOffsets settings.offsetRate once.2.x
          Penalty.outerFrom settings runner watch (done + 1) { once.2 with problem }) := by
    refine ite_congr rfl (fun _ => rfl) fun _ => ?_
    simp only [plain, bind_assoc, pure_bind]
    exact bind_congr fun problem => plain_outerFrom (done + 1) { once.2 with problem }
  refine (bind_congr fun _ => onward).trans ?_
  -- a report that is not wanted is no question at all
  by_cases reports : watch.verbose = true
  · simp only [plain, if_pos reports, bind_assoc]
  · simp only [plain, if_neg reports, pure_bind]
termination_by settings.outerIterations - done

end Cycle

def Progress.conclude (settings : PenaltySettings F) (watch : Watch m F)
    (last : Progress m F n) : m (Solution m F n) := do
  let value ← last.problem.objective.value last.x
  let worst ← last.problem.maxViolation last.x
  let status ← finalStatus settings watch last.status worst
  pure (last.concluded status value worst)

theorem solve_eq_conclude [MonadExceptOf Fault m] [LawfulMonad m] (settings : PenaltySettings F)
    (runner : Runner) (watch : Watch m F) (x : Vector F n) (objective : Nonlinear Nat m F n)
    (constraints : List (Constraint Nat m F n)) (stepSizes : Array F) :
    solve settings runner watch x objective constraints stepSizes = (do
      let problem ← MonadExcept.ofExcept (Problem.create objective constraints stepSizes)
      MonadExcept.ofExcept (reserve settings.outerIterations (Unbounded.bytes F))
      let last ← (Cycle.plain settings runner watch).outerFrom 0 (.begun x problem)
      last.conclude settings watch) := by
  simp only [Cycle.plain_outerFrom]
  rfl

end Penalty

end Descent

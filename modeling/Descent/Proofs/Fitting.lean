import Descent.Proofs.Words

/-!
Programs whose counts fit if their evaluations do. The relation says it of a program under all
choices of checks at once: what the checks may refuse, and what a run without them shows. It is
kept by sequencing, as evaluations are counted and never taken back, so a run that ends with few of
them had no more on the way.
-/

namespace Descent

open Execution

class Aborting (m : Type → Type) [Monad m] [MonadExceptOf Fault m] : Prop where
  throw_bind {A B : Type} (fault : Fault) (next : A → m B) :
    (throw fault >>= next) = throw fault

instance : Aborting (Except Fault) where
  throw_bind _ _ := rfl

instance {S : Type} {m : Type → Type} [Monad m] [LawfulMonad m] [MonadExceptOf Fault m]
    [Aborting m] : Aborting (StateT S m) where
  throw_bind fault next := by
    refine StateT.ext fun state => ?_
    have lifted {A : Type} : (throw fault : StateT S m A).run state = throw fault :=
      Aborting.throw_bind fault _
    rw [StateT.run_bind, lifted, lifted]
    exact Aborting.throw_bind fault _

section Fitting

variable {m : Type → Type} [Monad m] [MonadExceptOf Fault m] {World : Type} [Execution m World]
variable {A B : Type}

/-- A program under each choice of checks. With all checks it is the program that checks the
evaluations only, whatever follows. A run without checks whose evaluations fit is a run with the
checks of the evaluations. `size` is how many evaluations there are with an answer, where `least`
is how many there were before, and `Known` is what else is known of an answer. -/
structure Fitting (size : A → ℕ) (Known : A → Prop) (least : ℕ) (program : Checks → m A) :
    Prop where
  agrees {B : Type} (next next' : A → m B) (begins : least < Nat.pow 2 64)
    (same : ∀ answer, Known answer → least ≤ size answer → size answer < Nat.pow 2 64 →
      next answer = next' answer) :
    program .all >>= next = program .evaluationsOnly >>= next'
  known {before after : World} {answer : A}
    (ran : Returns (program .roomOnly) before answer after) : Known answer ∧ least ≤ size answer
  returns {before after : World} {answer : A}
    (ran : Returns (program .roomOnly) before answer after) (fits : size answer < Nat.pow 2 64) :
    Returns (program .evaluationsOnly) before answer after

namespace Fitting

variable {size : A → ℕ} {Known : A → Prop} {least : ℕ} {program program' : Checks → m A}

theorem of_eq (same : ∀ checks, program checks = program' checks)
    (fitting : Fitting size Known least program') : Fitting size Known least program := by
  rwa [funext same]

theorem ask (question : m A) :
    Fitting (fun _ => least) (fun _ => True) least fun _ => question where
  agrees _ _ begins same := bind_congr fun answer => same answer trivial le_rfl begins
  known _ := ⟨trivial, le_rfl⟩
  returns ran _ := ran

theorem weaken {Weaker : A → Prop} (fitting : Fitting size Known least program)
    (weaker : ∀ answer, Known answer → least ≤ size answer → Weaker answer) :
    Fitting size Weaker least program where
  agrees next next' begins same := fitting.agrees next next' begins
    fun answer known more => same answer (weaker answer known more) more
  known ran := ⟨weaker _ (fitting.known ran).1 (fitting.known ran).2, (fitting.known ran).2⟩
  returns := fitting.returns

theorem onward (fitting : Fitting size Known 0 program)
    (atLeast : ∀ answer, Known answer → least ≤ size answer) :
    Fitting size Known least program where
  agrees next next' _ same := fitting.agrees next next' (by decide)
    fun answer known _ => same answer known (atLeast answer known)
  known ran := ⟨(fitting.known ran).1, atLeast _ (fitting.known ran).1⟩
  returns := fitting.returns

theorem ite {condition : Prop} [Decidable condition]
    (yes : condition → Fitting size Known least program)
    (no : ¬ condition → Fitting size Known least program') :
    Fitting size Known least
      fun checks => if condition then program checks else program' checks := by
  by_cases holds : condition
  · exact of_eq (fun _ => if_pos holds) (yes holds)
  · exact of_eq (fun _ => if_neg holds) (no holds)

variable [LawfulMonad m]

theorem eq (fitting : Fitting size Known 0 program) : program .all = program .evaluationsOnly := by
  have same := fitting.agrees pure pure (by decide) fun _ _ _ _ => rfl
  rwa [bind_pure, bind_pure] at same

theorem pure {answer : A} (known : Known answer) (counted : size answer = least) :
    Fitting size Known least fun _ => (Pure.pure answer : m A) where
  agrees next next' begins same := by
    rw [pure_bind, pure_bind]
    exact same answer known counted.ge (counted.trans_lt begins)
  known ran := by
    obtain ⟨rfl, -⟩ := returns_pure.mp ran
    exact ⟨known, counted.ge⟩
  returns ran _ := ran

theorem bind {later : B → ℕ} {Later : B → Prop} {next : Checks → A → m B}
    (first : Fitting size Known least program)
    (rest : ∀ answer, Known answer → least ≤ size answer →
      Fitting later Later (size answer) fun checks => next checks answer) :
    Fitting later Later least fun checks => program checks >>= next checks where
  agrees last last' begins same := by
    rw [bind_assoc, bind_assoc]
    refine first.agrees _ _ begins fun answer known more fits => ?_
    exact (rest answer known more).agrees last last' fits
      fun answer known more' => same answer known (more.trans more')
  known ran := by
    obtain ⟨answer, _, ran, continued⟩ := returns_bind.mp ran
    obtain ⟨known, more⟩ := first.known ran
    obtain ⟨known', more'⟩ := (rest answer known more).known continued
    exact ⟨known', more.trans more'⟩
  returns ran fits := by
    obtain ⟨answer, middle, ran, continued⟩ := returns_bind.mp ran
    obtain ⟨known, more⟩ := first.known ran
    have continues := rest answer known more
    have before := (continues.known continued).2.trans_lt fits
    exact returns_bind.mpr
      ⟨answer, middle, first.returns ran before, continues.returns continued fits⟩

theorem run {S : Type} {program : Checks → StateT S m A}
    (fitting : Fitting size Known least program) (state : S) :
    Fitting (fun left => size left.1) (fun left => Known left.1) least
      fun checks => (program checks).run state where
  agrees {B} next next' begins same := by
    -- what follows is run with the state at hand, which is then forgotten
    let lift (next : A × S → m B) (answer : A) : StateT S m B := fun left =>
      (fun last => (last, left)) <$> next (answer, left)
    have forget (program : StateT S m A) (next : A × S → m B) :
        Prod.fst <$> (program >>= lift next).run state = program.run state >>= next := by
      simp only [StateT.run_bind, map_bind]
      refine bind_congr fun left => ?_
      exact (Functor.map_map _ _ _).trans (id_map _)
    rw [← forget, ← forget, fitting.agrees (lift next) (lift next') begins]
    intro answer known more fits
    refine StateT.ext fun left => ?_
    exact congrArg _ (same (answer, left) known more fits)
  known {before after left} ran := by
    have carried : Returns (program .roomOnly) (state, before) left.1 (left.2, after) := ran
    exact fitting.known carried
  returns {before after left} ran fits := by
    have carried : Returns (program .roomOnly) (state, before) left.1 (left.2, after) := ran
    exact fitting.returns carried fits

theorem refuse [Aborting m] {outcome : Except Fault A}
    (known : ∀ answer, outcome = .ok answer → Known answer) :
    Fitting (fun _ => least) Known least fun _ => (MonadExcept.ofExcept outcome : m A) where
  agrees next next' begins same := by
    cases outcome with
    | error fault =>
      exact (Aborting.throw_bind fault next).trans (Aborting.throw_bind fault next').symm
    | ok answer =>
      rw [Checks.ofExcept_ok, pure_bind, pure_bind]
      exact same answer (known answer rfl) le_rfl begins
  known ran := ⟨known _ (returns_ofExcept.mp ran).1, le_rfl⟩
  returns ran _ := ran

/-- What is counted fits if the evaluations do. -/
theorem count {outcome : Checks → Except Fault A} {answer : A}
    (fits : ∀ checks, checks.Fits least → outcome checks = .ok answer) :
    Fitting (fun _ => least) (· = answer) least
      fun checks => (MonadExcept.ofExcept (outcome checks) : m A) where
  agrees next next' begins same := by
    rw [fits _ (Checks.fits_of_lt begins), fits _ (Checks.fits_of_lt begins)]
    simp only [Checks.ofExcept_ok, pure_bind]
    exact same answer rfl le_rfl begins
  known ran := by
    rw [fits _ (Checks.roomOnly_fits least)] at ran
    exact ⟨(returns_pure.mp ran).1, le_rfl⟩
  returns ran begins := by
    rw [fits _ (Checks.roomOnly_fits least)] at ran
    rwa [fits _ (Checks.fits_of_lt begins)]

end Fitting

end Fitting

end Descent

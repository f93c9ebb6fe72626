import Descent.Proofs.Iteration

/-!
Two callers in two monads whose answers correspond get minimizations that correspond. What
corresponding means is left open: it is any relation between programs that sequencing keeps. The
parts of a minimization put the questions to their caller in sequence and case distinctions look
at answers only, so a relation has to be checked for the five questions and nothing else. With one
program on both sides such a relation is a property that every part has.
-/

namespace Descent

open Scalar Execution

section Congruent

variable {m m' : Type → Type} [Monad m] [Monad m'] [MonadExceptOf Fault m]
variable [MonadExceptOf Fault m']

/-- A relation between programs that sequencing keeps. -/
structure Congruent (Related : ∀ ⦃A : Type⦄, m A → m' A → Prop) : Prop where
  pure {A : Type} (value : A) : Related (Pure.pure value : m A) (Pure.pure value)
  throw {A : Type} (fault : Fault) : Related (MonadExcept.throw fault : m A) (MonadExcept.throw fault)
  bind {A B : Type} {program : m A} {program' : m' A} {next : A → m B} {next' : A → m' B} :
    Related program program' → (∀ value, Related (next value) (next' value)) →
      Related (program >>= next) (program' >>= next')

structure Caller.Corresponds {F : Type} {n : Nat} (Related : ∀ ⦃A : Type⦄, m A → m' A → Prop)
    (caller : Caller m F n) (caller' : Caller m' F n) : Prop where
  evaluate (x : Vector F n) : Related (caller.evaluate x) (caller'.evaluate x)
  shouldStop (x : Vector F n) (best : F) (iterations : Nat) :
    Related (caller.shouldStop x best iterations) (caller'.shouldStop x best iterations)
  isCancelled : Related caller.isCancelled caller'.isCancelled
  cancel : Related caller.cancel caller'.cancel
  note (event : Event F) : Related (caller.note event) (caller'.note event)

namespace Congruent

variable {Related : ∀ ⦃A : Type⦄, m A → m' A → Prop} (rules : Congruent Related)
variable {A B : Type} {program other : m A} {program' other' : m' A}

include rules

theorem map [LawfulMonad m] [LawfulMonad m'] (f : A → B) (inner : Related program program') :
    Related (f <$> program) (f <$> program') := by
  rw [← bind_pure_comp, ← bind_pure_comp]
  exact rules.bind inner fun value => rules.pure (f value)

theorem ofExcept (outcome : Except Fault A) :
    Related (MonadExcept.ofExcept outcome : m A) (MonadExcept.ofExcept outcome : m' A) := by
  cases outcome with
  | error fault => exact rules.throw fault
  | ok value => exact rules.pure value

omit rules [Monad m] [Monad m'] [MonadExceptOf Fault m] [MonadExceptOf Fault m'] in
theorem ite {condition : Prop} [Decidable condition] (yes : Related program program')
    (no : Related other other') :
    Related (if condition then program else other) (if condition then program' else other') := by
  split
  · exact yes
  · exact no

theorem search {F : Type} [Scalar F] {S : Type} {tuning : Tuning F}
    {probe : F → S → m (Sample F × S)} {probe' : F → S → m' (Sample F × S)} {firstStep : F}
    (probes : ∀ step carried, Related (probe step carried) (probe' step carried))
    (bracket : Bracket F) (carried : S) :
    Related (search tuning probe firstStep bracket carried)
      (search tuning probe' firstStep bracket carried) := by
  induction bracket, carried using search.induct tuning firstStep with
  | case1 bracket carried exit ends =>
    rw [Descent.search, Descent.search]
    split
    · exact rules.pure _
    · next goesOn =>
      rw [ends] at goesOn
      exact absurd goesOn (by simp)
  | case2 bracket carried goesOn target bisected chosen ih =>
    rw [Descent.search, Descent.search]
    split
    · next exit ends =>
      rw [goesOn] at ends
      exact absurd ends (by simp)
    · rw [chosen]
      exact rules.bind (probes _ _) fun probed => ih probed.1 probed.2

end Congruent

end Congruent

/-! What programs keep. -/

section Keeps

variable {m : Type → Type} [Monad m] [MonadExceptOf Fault m] {World : Type} [Execution m World]
variable {A : Type} {Holds : World → World → Prop}

def Keeps (Holds : World → World → Prop) (program : m A) : Prop :=
  ∀ before answer after, Returns program before answer after → Holds before after

/-- A relation between worlds that holds across any sequence of programs which keep it. -/
structure Lasting {World : Type} (Holds : World → World → Prop) : Prop where
  refl (world : World) : Holds world world
  trans {before middle after : World} : Holds before middle → Holds middle after →
    Holds before after

namespace Lasting

variable (lasting : Lasting Holds)

include lasting

theorem keeps_pure (value : A) : Keeps Holds (pure value : m A) := by
  intro before answer after ran
  obtain ⟨_, rfl⟩ := returns_pure.mp ran
  exact lasting.refl after

theorem keeps_bind {B : Type} {program : m A} {next : A → m B} (first : Keeps Holds program)
    (rest : ∀ value, Keeps Holds (next value)) : Keeps Holds (program >>= next) := by
  intro before answer after ran
  obtain ⟨value, middle, begun, ended⟩ := returns_bind.mp ran
  exact lasting.trans (first _ _ _ begun) (rest value _ _ _ ended)

theorem congruent : Congruent fun A (program _ : m A) => Keeps Holds program where
  pure := lasting.keeps_pure
  throw _ := fun _ _ _ ran => absurd ran not_returns_throw
  bind := lasting.keeps_bind

theorem keeps_search {F : Type} [Scalar F] {S : Type} {tuning : Tuning F}
    {probe : F → S → m (Sample F × S)} {firstStep : F} {bracket : Bracket F} {carried : S}
    (probes : ∀ step carried, Keeps Holds (probe step carried)) :
    Keeps Holds (search tuning probe firstStep bracket carried) := by
  rintro before ⟨found, left⟩ after ran
  obtain ⟨_, holds, _⟩ := search_invariant (fun _ _ world => Holds before world)
    (fun _ _ _ _ _ _ kept _ probed => lasting.trans kept (probes _ _ _ _ _ probed))
    (lasting.refl before) ran
  exact holds

end Lasting

end Keeps

namespace Minimization

variable {m m' : Type → Type} [Monad m] [Monad m'] [MonadExceptOf Fault m]
variable [MonadExceptOf Fault m'] {F : Type} [Unbounded F] {n : Nat}
variable {Related : ∀ ⦃A : Type⦄, m A → m' A → Prop} (rules : Congruent Related)
variable {caller : Caller m F n} {caller' : Caller m' F n}
variable (callers : caller.Corresponds Related caller')
variable {kernels : Kernels F n} {settings : Settings F} {iteration : Nat} {state : State F n}

include rules callers

theorem evaluateIterate_corresponds :
    Related (evaluateIterate caller state) (evaluateIterate caller' state) :=
  rules.bind (callers.evaluate _) fun _ => rules.pure _

theorem probe_corresponds (step : F) (trail : Trail F n) :
    Related (probe kernels caller state step trail) (probe kernels caller' state step trail) :=
  rules.bind (callers.evaluate _) fun _ => rules.pure _

theorem downhill_corresponds :
    Related (downhill kernels caller iteration state)
      (downhill kernels caller' iteration state) :=
  Congruent.ite (rules.pure _) (rules.bind (callers.note _) fun _ => rules.pure _)

theorem move_corresponds {line : Record F n} {target : State.Move F n} :
    Related (move kernels settings caller iteration state line target)
      (move kernels settings caller' iteration state line target) := by
  unfold move
  dsimp only
  split
  · exact rules.bind (callers.note _) fun _ => rules.pure _
  · exact rules.pure _

theorem settle_corresponds {probe : Marked F n} {bestBefore : F} :
    Related (settle kernels caller iteration state probe bestBefore)
      (settle kernels caller' iteration state probe bestBefore) := by
  apply Congruent.ite
  · exact rules.bind (callers.note _) fun _ => rules.pure _
  · apply rules.bind (evaluateIterate_corresponds rules callers)
    intro evaluated
    exact Congruent.ite (rules.bind (callers.note _) fun _ => rules.pure _)
      (rules.bind (callers.note _) fun _ => rules.pure _)

theorem searchSlope_corresponds {keep : Bool} :
    Related (searchSlope kernels caller iteration state keep)
      (searchSlope kernels caller' iteration state keep) :=
  Congruent.ite (rules.pure _)
    (rules.bind (downhill_corresponds rules callers) fun _ => rules.pure _)

theorem probing_corresponds (step : F) (trail : Trail F n) :
    Related (probing kernels caller state step trail)
      (probing kernels caller' state step trail) :=
  rules.bind (probe_corresponds rules callers step trail) fun _ => rules.pure _

theorem searchLine_corresponds {slope step : F} {kept : Option (Marked F n)} :
    Related (searchLine kernels settings caller iteration state slope kept step)
      (searchLine kernels settings caller' iteration state slope kept step) := by
  apply rules.bind (rules.ofExcept _)
  intro opened
  apply rules.bind (rules.search (probing_corresponds rules callers) _ _)
  intro searched
  exact Congruent.ite (move_corresponds rules callers)
    (rules.bind (callers.note _) fun _ => rules.pure _)

theorem careful_corresponds {probe : Marked F n} {step bestBefore : F} :
    Related (careful kernels settings caller iteration state probe step bestBefore)
      (careful kernels settings caller' iteration state probe step bestBefore) := by
  apply rules.bind (settle_corresponds rules callers)
  rintro ⟨keep, settled⟩
  apply rules.bind (searchSlope_corresponds rules callers)
  rintro ⟨kept, slope?, turned⟩
  cases slope? with
  | none => exact rules.pure _
  | some slope => exact searchLine_corresponds rules callers

theorem iterate_corresponds :
    Related (iterate kernels settings caller iteration state)
      (iterate kernels settings caller' iteration state) := by
  unfold iterate
  apply rules.bind (downhill_corresponds rules callers)
  rintro ⟨slope?, turned⟩
  cases slope? with
  | none => exact rules.pure _
  | some slope =>
    dsimp only
    refine rules.bind (probe_corresponds rules callers _ _) ?_
    rintro ⟨probed, trail⟩
    split
    · exact move_corresponds rules callers
    · exact careful_corresponds rules callers

theorem confirm_corresponds :
    Related (confirm kernels settings caller state) (confirm kernels settings caller' state) :=
  Congruent.ite (evaluateIterate_corresponds rules callers) (rules.pure _)

theorem check_corresponds {done : Nat} :
    Related (check kernels settings caller done state)
      (check kernels settings caller' done state) := by
  apply rules.bind callers.isCancelled
  intro cancelled
  apply Congruent.ite (rules.pure _)
  apply rules.bind (callers.shouldStop _ _ _)
  intro stop
  apply Congruent.ite
  · exact rules.bind callers.cancel fun _ => rules.pure _
  · exact Congruent.ite (rules.pure _)
      (rules.bind (confirm_corresponds rules callers) fun _ => rules.pure _)

-- Both runs recurse on the iterations that are left, which the callers have no part in.
theorem run_corresponds (done : Nat) (state : State F n) :
    Related (run kernels settings caller done state)
      (run kernels settings caller' done state) := by
  induction done, state using run.induct settings with
  | case1 done state ih =>
    rw [run, run]
    apply rules.bind (check_corresponds rules callers)
    rintro ⟨termination?, checked⟩
    cases termination? with
    | some termination => exact rules.pure _
    | none =>
      by_cases goesOn : done < settings.maxIterations
      · simp only [goesOn, if_true]
        apply rules.bind (iterate_corresponds rules callers)
        intro next
        exact rules.bind (callers.note _) fun _ => ih goesOn next
      · simp only [goesOn, if_false]
        exact rules.bind callers.cancel fun _ => rules.pure _

theorem start_corresponds {x : Vector F n} :
    Related (start kernels settings caller x) (start kernels settings caller' x) := by
  apply rules.bind (callers.evaluate _)
  rintro ⟨value, gradient⟩
  exact rules.bind (rules.ofExcept _) fun _ => rules.pure _

-- What follows the verdict is the same program on both ways.
theorem judge_corresponds {A : Type} {ended : Ended F n} {best : F}
    {next : Termination → m A} {next' : Termination → m' A}
    (rest : ∀ termination, Related (next termination) (next' termination)) :
    Related
      (if isFinite best = true then do
          let termination ← pure ended.termination
          next termination
        else do
          caller.note (.unbounded ended.iterations best)
          let termination ← pure Termination.notFinite
          next termination)
      (if isFinite best = true then do
          let termination ← pure ended.termination
          next' termination
        else do
          caller'.note (.unbounded ended.iterations best)
          let termination ← pure Termination.notFinite
          next' termination) := by
  apply Congruent.ite
  · exact rules.bind (rules.pure _) rest
  · exact rules.bind (callers.note _) fun _ => rules.bind (rules.pure _) rest

theorem conclude_corresponds {ended : Ended F n} :
    Related (conclude kernels caller ended) (conclude kernels caller' ended) := by
  apply Congruent.ite
  · apply rules.bind (rules.pure _)
    intro state
    exact judge_corresponds rules callers fun _ => rules.pure _
  · apply rules.bind (evaluateIterate_corresponds rules callers)
    intro state
    exact judge_corresponds rules callers fun _ => rules.pure _

/-- Minimizations correspond if their callers do. -/
theorem minimize_corresponds [LawfulMonad m] [LawfulMonad m'] {runner : Runner}
    {x : Vector F n} :
    Related (minimize settings runner caller x) (minimize settings runner caller' x) := by
  simp only [minimize, discard, Functor.discard, LawfulFunctor.map_const]
  apply rules.bind (rules.map _ (rules.ofExcept _))
  intro _
  apply rules.bind (start_corresponds rules callers)
  intro started
  exact rules.bind (run_corresponds rules callers 0 started) fun _ =>
    conclude_corresponds rules callers

end Minimization

end Descent

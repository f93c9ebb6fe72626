import Descent.Proofs.Lawful
import Descent.Proofs.Run

/-!
A minimization whose caller answers comes to an end. A program completes if it returns from every
world, and sequencing keeps this. Two loops need more: a search counts its probes and a run its
iterations, and both counts are limited. One part could refuse to go on, the careful search of a
line that does not descend; but no line is searched before its slope was found to be negative.
-/

namespace Descent

open Scalar Execution

variable {m : Type → Type} [Monad m] [MonadExceptOf Fault m] {World : Type} [Execution m World]
variable {F : Type} {n : Nat}

def Completes {A : Type} (program : m A) : Prop :=
  ∀ before, ∃ answer after, Returns program before answer after

section Rules

variable {A B : Type} {program program' : m A} {next : A → m B}

theorem completes_pure (value : A) : Completes (pure value : m A) :=
  fun before => ⟨value, before, returns_pure.mpr ⟨rfl, rfl⟩⟩

theorem completes_bind_of_returns (first : Completes program)
    (rest : ∀ value before after, Returns program before value after → Completes (next value)) :
    Completes (program >>= next) := by
  intro before
  obtain ⟨value, middle, returned⟩ := first before
  obtain ⟨answer, after, continued⟩ := rest value before middle returned middle
  exact ⟨answer, after, returns_bind.mpr ⟨value, middle, returned, continued⟩⟩

theorem completes_bind (first : Completes program) (rest : ∀ value, Completes (next value)) :
    Completes (program >>= next) :=
  completes_bind_of_returns first fun value _ _ _ => rest value

theorem completes_map [LawfulMonad m] (f : A → B) (inner : Completes program) :
    Completes (f <$> program) := by
  rw [← bind_pure_comp]
  exact completes_bind inner fun value => completes_pure (f value)

theorem completes_ofExcept {outcome : Except Fault A} {value : A} (accepted : outcome = .ok value) :
    Completes (MonadExcept.ofExcept outcome : m A) :=
  fun before => ⟨value, before, returns_ofExcept.mpr ⟨accepted, rfl⟩⟩

theorem completes_ite {condition : Prop} [Decidable condition] (yes : Completes program)
    (no : Completes program') : Completes (if condition then program else program') := by
  by_cases holds : condition
  · rw [if_pos holds]
    exact yes
  · rw [if_neg holds]
    exact no

end Rules

/-- A caller that answers whatever it is asked. What it answers is its own affair. -/
structure Caller.Responds (caller : Caller m F n) : Prop where
  evaluate (x : Vector F n) : Completes (caller.evaluate x)
  shouldStop (x : Vector F n) (best : F) (iterations : Nat) :
    Completes (caller.shouldStop x best iterations)
  isCancelled : Completes caller.isCancelled
  cancel : Completes caller.cancel
  note (event : Event F) : Completes (caller.note event)

/-- Every probe is counted, and there is a limit to the count. -/
theorem search_completes [Scalar F] {S : Type} {tuning : Tuning F}
    {probe : F → S → m (Sample F × S)} {firstStep : F}
    (probes : ∀ step carried, Completes (probe step carried)) (bracket : Bracket F)
    (carried : S) : Completes (search tuning probe firstStep bracket carried) := by
  induction bracket, carried using search.induct tuning firstStep with
  | case1 bracket carried exit ends =>
    rw [search_stops ends]
    exact completes_pure _
  | case2 bracket carried goesOn target bisected chosen ih =>
    rw [search_steps goesOn, chosen]
    exact completes_bind (probes _ _) fun probed => ih probed.1 probed.2

namespace Minimization

variable [Unbounded F]
variable {kernels : Kernels F n} {settings : Settings F} {caller : Caller m F n}
variable {before after : World} {iteration : Nat} {state left : State F n}

section Slopes

variable [Opposing F]

theorem downhill_slope_neg {slope : F}
    (ran : Returns (downhill kernels caller iteration state) before (some slope, left) after) :
    slope < 0 := by
  rcases downhill_returns ran with ⟨descends, same, _⟩ | ⟨_, _, _, steepest⟩
  · rw [Option.some.inj same]
    exact descends
  · rw [State.steepestSlope?] at steepest
    split at steepest
    · next length =>
      rw [Option.some.inj steepest]
      exact Opposing.neg_lt_zero length
    · exact nomatch steepest

theorem searchSlope_neg {keep kept : Bool} {slope : F}
    (ran : Returns (searchSlope kernels caller iteration state keep) before
      (kept, some slope, left) after) : slope < 0 := by
  rcases searchSlope_returns ran with ⟨_, descends, _, same, _⟩ | ⟨_, _, turns⟩
  · rw [Option.some.inj same]
    exact descends
  · exact downhill_slope_neg turns

end Slopes

section Parts

variable (responds : caller.Responds)
include responds

theorem evaluateIterate_completes (state : State F n) :
    Completes (evaluateIterate caller state) :=
  completes_bind (responds.evaluate _) fun _ => completes_pure _

theorem probe_completes (step : F) (trail : Trail F n) :
    Completes (probe kernels caller state step trail) :=
  completes_bind (responds.evaluate _) fun _ => completes_pure _

theorem probing_completes (step : F) (trail : Trail F n) :
    Completes (probing kernels caller state step trail) :=
  completes_bind (probe_completes responds step trail) fun _ => completes_pure _

theorem downhill_completes : Completes (downhill kernels caller iteration state) :=
  completes_ite (completes_pure _) (completes_bind (responds.note _) fun _ => completes_pure _)

theorem move_completes (line : Record F n) (target : State.Move F n) :
    Completes (move kernels settings caller iteration state line target) := by
  unfold move
  dsimp only
  split
  · exact completes_bind (responds.note _) fun _ => completes_pure _
  · exact completes_pure _

theorem settle_completes (probe : Marked F n) (bestBefore : F) :
    Completes (settle kernels caller iteration state probe bestBefore) := by
  apply completes_ite
  · exact completes_bind (responds.note _) fun _ => completes_pure _
  · apply completes_bind (evaluateIterate_completes responds state)
    intro evaluated
    exact completes_ite (completes_bind (responds.note _) fun _ => completes_pure _)
      (completes_bind (responds.note _) fun _ => completes_pure _)

theorem searchSlope_completes (keep : Bool) :
    Completes (searchSlope kernels caller iteration state keep) :=
  completes_ite (completes_pure _)
    (completes_bind (downhill_completes responds) fun _ => completes_pure _)

theorem searchLine_completes {slope : F} (descends : slope < 0) (kept : Option (Marked F n))
    (step : F) :
    Completes (searchLine kernels settings caller iteration state slope kept step) := by
  have opens : Bracket.create (.make 0 state.value slope) = .ok _ := if_pos descends
  apply completes_bind (completes_ofExcept opens)
  intro opened
  apply completes_bind (search_completes (probing_completes responds) _ _)
  intro (found, trail)
  exact completes_ite (move_completes responds _ _)
    (completes_bind (responds.note _) fun _ => completes_pure _)

theorem confirm_completes (state : State F n) :
    Completes (confirm kernels settings caller state) :=
  completes_ite (evaluateIterate_completes responds state) (completes_pure _)

theorem check_completes (done : Nat) (state : State F n) :
    Completes (check kernels settings caller done state) := by
  apply completes_bind responds.isCancelled
  intro cancelled
  apply completes_ite (completes_pure _)
  apply completes_bind (responds.shouldStop _ _ _)
  intro stop
  apply completes_ite
  · exact completes_bind responds.cancel fun _ => completes_pure _
  · apply completes_ite (completes_pure _)
    exact completes_bind (confirm_completes responds state) fun _ => completes_pure _

theorem start_completes (x : Vector F n)
    (room : reserve (settings.tuning.stagnationWindow + 1) (Unbounded.bytes F) = .ok ()) :
    Completes (start kernels settings caller x) := by
  apply completes_bind (responds.evaluate x)
  intro (value, gradient)
  exact completes_bind (completes_ofExcept room) fun _ => completes_pure _

-- What follows the verdict is the same program on both ways.
theorem judge_completes {A : Type} {ended : Ended F n} {best : F} {next : Termination → m A}
    (rest : ∀ termination, Completes (next termination)) :
    Completes
      (if isFinite best = true then do
          let termination ← pure ended.termination
          next termination
        else do
          caller.note (.unbounded ended.iterations best)
          let termination ← pure Termination.notFinite
          next termination) := by
  apply completes_ite
  · exact completes_bind (completes_pure _) rest
  · exact completes_bind (responds.note _) fun _ => completes_bind (completes_pure _) rest

theorem conclude_completes (ended : Ended F n) : Completes (conclude kernels caller ended) := by
  apply completes_ite
  · apply completes_bind (completes_pure _)
    intro state
    exact judge_completes responds fun _ => completes_pure _
  · apply completes_bind (evaluateIterate_completes responds _)
    intro state
    exact judge_completes responds fun _ => completes_pure _

variable [Opposing F]

theorem careful_completes (probe : Marked F n) (step bestBefore : F) :
    Completes (careful kernels settings caller iteration state probe step bestBefore) := by
  apply completes_bind (settle_completes responds probe bestBefore)
  intro (keep, settled)
  apply completes_bind_of_returns (searchSlope_completes responds keep)
  intro (kept, slope?, turned) before after turns
  cases slope? with
  | none => exact completes_pure _
  | some slope => exact searchLine_completes responds (searchSlope_neg turns) _ step

theorem iterate_completes (iteration : Nat) (state : State F n) :
    Completes (iterate kernels settings caller iteration state) := by
  unfold iterate
  apply completes_bind (downhill_completes responds)
  intro (slope?, turned)
  cases slope? with
  | none => exact completes_pure _
  | some slope =>
    dsimp only
    apply completes_bind (probe_completes responds _ _)
    intro (probed, trail)
    split
    · exact move_completes responds _ _
    · exact careful_completes responds _ _ _

/-- Every iteration is counted, and there is a limit to the count. -/
theorem run_completes (done : Nat) (state : State F n) :
    Completes (run kernels settings caller done state) := by
  induction done, state using run.induct settings with
  | case1 done state ih =>
    rw [run]
    apply completes_bind (check_completes responds done state)
    rintro ⟨termination?, checked⟩
    cases termination? with
    | some termination => exact completes_pure _
    | none =>
      by_cases goesOn : done < settings.maxIterations
      · simp only [goesOn, if_true]
        apply completes_bind (iterate_completes responds (done + 1) checked)
        intro next
        exact completes_bind (responds.note _) fun _ => ih goesOn next
      · simp only [goesOn, if_false]
        exact completes_bind responds.cancel fun _ => completes_pure _

end Parts

end Minimization

/-- Memory has room for what a run stores beside its vectors: the spans of all threads, and the
window of recent best values. -/
structure Settings.Addressable [Unbounded F] (settings : Settings F) : Prop where
  spans : reserve settings.threads spanBytes = .ok ()
  window : reserve (settings.tuning.stagnationWindow + 1) (Unbounded.bytes F) = .ok ()

theorem partition_ok {threads length : Nat} (positive : 0 < threads)
    (room : reserve threads spanBytes = .ok ()) :
    partition length threads = .ok (Span.cut 0 length threads) := by
  rw [partition, Precondition.guard, if_pos positive]
  change (reserve threads spanBytes >>= fun _ => _) = _
  rw [room]
  rfl

theorem create_ok {threads length : Nat} (positive : 0 < threads)
    (room : reserve threads spanBytes = .ok ()) :
    Context.create threads length = .ok { threads, length } := by
  rw [Context.create, partition_ok positive room]
  rfl

theorem reserve_of_create {threads length : Nat} {context : Context}
    (created : Context.create threads length = .ok context) :
    reserve threads spanBytes = .ok () := by
  cases spans : reserve threads spanBytes with
  | ok => rfl
  | error fault =>
    have positive := Minimization.threads_of_create created
    have refused : partition length threads = .error fault := by
      rw [partition, Precondition.guard, if_pos positive]
      change (reserve threads spanBytes >>= fun _ => _) = _
      rw [spans]
      rfl
    rw [Context.create, refused] at created
    exact nomatch created

namespace Minimization

variable [Unbounded F] [LawfulMonad m]
variable {settings : Settings F} {caller : Caller m F n} {runner : Runner} {x : Vector F n}

theorem minimize_completes [Opposing F] (responds : caller.Responds)
    (positive : 0 < settings.threads) (room : settings.Addressable) :
    Completes (minimize settings runner caller x) := by
  simp only [minimize, discard, Functor.discard, LawfulFunctor.map_const]
  apply completes_bind (completes_map _ (completes_ofExcept (create_ok positive room.spans)))
  intro _
  apply completes_bind (start_completes responds x room.window)
  intro started
  apply completes_bind (run_completes responds 0 started)
  intro ended
  exact conclude_completes responds ended

theorem addressable_of_minimize {before after : World} {answer : Vector F n × Report F}
    (ran : Returns (minimize settings runner caller x) before answer after) :
    settings.Addressable := by
  obtain ⟨⟨context, accepted⟩, started, _, _, _, starts, _⟩ := minimize_returns_iff.mp ran
  obtain ⟨_, _, _, opened⟩ := returns_bind.mp starts
  obtain ⟨_, _, reserved, _⟩ := returns_bind.mp opened
  exact
    { spans := reserve_of_create accepted
      window := (returns_ofExcept.mp reserved).1 }

end Minimization

end Descent

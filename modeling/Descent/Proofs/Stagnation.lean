import Descent.Proofs.Answer
import Descent.Proofs.Remarks

/-!
When a run stagnates. The best value after an iteration is noted in a window, newest first, and
counted as an improvement or not. Only an iteration that finds no way down ends without taking
note, and then the run ends at its next check. So while a run goes on the count tells for how long
the best value has been the same, and the newer two values of the window have it for their least.
-/

namespace Descent

open Scalar Execution

/-! The window of best values. -/

namespace State

section Notes

variable {F : Type} [Scalar F] {n : Nat} {settings : Settings F}

structure Notes (settings : Settings F) (memory : Memory F) (next : State F n) : Prop where
  recentBests : next.recentBests =
    (next.tally.best.value :: memory.recentBests).take (max settings.tuning.stagnationWindow 2)
  sinceImprovement : next.sinceImprovement =
    if memory.recentBests.head?.all fun previous => next.tally.best.value < previous then 0
    else memory.sinceImprovement + 1

theorem Notes.window {memory : Memory F} {next : State F n} {best : F} {older : List F}
    (notes : next.Notes settings memory) (bests : memory.recentBests = best :: older) :
    ∃ kept, next.recentBests = next.tally.best.value :: kept ∧ kept.head? = some best := by
  obtain ⟨room, wide⟩ : ∃ room, max settings.tuning.stagnationWindow 2 = room + 2 :=
    ⟨_, (Nat.sub_add_cancel (Nat.le_max_right _ 2)).symm⟩
  refine ⟨best :: older.take room, ?_, rfl⟩
  rw [notes.recentBests, bests, wide, List.take_succ_cons, List.take_succ_cons]

theorem noteProgress_notes (worn : State F n) {memory : Memory F}
    (bests : worn.recentBests = memory.recentBests)
    (since : worn.sinceImprovement = memory.sinceImprovement) :
    (worn.noteProgress settings).Notes settings memory := by
  constructor
  · rw [← bests]
    rfl
  · rw [← bests, ← since]
    rfl

variable (kernels : Kernels F n) (settings : Settings F) (state : State F n)

theorem turn_window (beta : F) :
    (state.turn kernels settings beta).state.recentBests = state.recentBests ∧
      (state.turn kernels settings beta).state.sinceImprovement = state.sinceImprovement := by
  unfold turn
  dsimp only
  split
  · split <;> exact ⟨rfl, rfl⟩
  · split <;> exact ⟨rfl, rfl⟩

theorem advance_notes (line : Record F n) (target : Move F n) :
    (state.advance kernels settings line target).state.Notes settings state.memory := by
  unfold advance
  dsimp only
  exact noteProgress_notes _ (turn_window kernels settings _ _).1
    (turn_window kernels settings _ _).2

end Notes

theorem recentThreshold_eq {F : Type} [Unbounded F] [Lawful F] {n : Nat} {state : State F n}
    {best : F} {older : List F} (bests : state.recentBests = best :: older)
    (defined : best ≤ best) (top : best = Unbounded.infinity ∨ best < Unbounded.infinity)
    (newest : ∀ previous ∈ older.head?, best ≤ previous) : state.recentThreshold = best := by
  have known : isNaN best = false := Lawful.isNaN_eq_false_iff.mpr defined
  have bounded : isNaN (Unbounded.infinity : F) = false :=
    Lawful.isNaN_eq_false_iff.mpr Lawful.infinity_defined
  -- infinity, where the fold starts, gives way to the newest value
  have first : minNum Unbounded.infinity best = best := by
    rw [minNum, bounded, if_neg Bool.false_ne_true]
    rcases top with rfl | below
    · exact if_neg (Lawful.lt_irrefl _)
    · exact if_pos below
  rw [recentThreshold, bests]
  cases older with
  | nil => exact first
  | cons previous older =>
    refine (congrArg (minNum · previous) first).trans ?_
    rw [minNum, known, if_neg Bool.false_ne_true]
    exact if_neg fun lower => Lawful.not_le_of_lt lower (newest previous rfl)

end State

namespace Minimization

/-! What the count tells. -/

section Remembers

variable {F : Type} [Unbounded F] [Lawful F] {n : Nat} {settings : Settings F}
variable {past : Nat → F → Prop} {done : Nat} {state next : State F n}

/-- What a state remembers of the best values that were there after earlier iterations: the last
two, and for how long there was no lower one. -/
structure Remembers (past : Nat → F → Prop) (done : Nat) (state : State F n) : Prop where
  window : ∃ older, state.recentBests = state.tally.best.value :: older ∧
    ∀ previous ∈ older.head?, state.tally.best.value ≤ previous
  since : state.sinceImprovement ≤ done
  same : ∀ earlier best, past earlier best → earlier ≤ done →
    done ≤ earlier + state.sinceImprovement → state.tally.best.value = best
  lower : ∀ earlier best, past earlier best → earlier + state.sinceImprovement < done →
    state.tally.best.value < best

omit [Lawful F] in
theorem Remembers.goOn (remembers : Remembers past done state)
    (defined : state.tally.best.value ≤ state.tally.best.value) {older : List F}
    (window : next.recentBests = next.tally.best.value :: older)
    (newest : older.head? = some state.tally.best.value)
    (kept : next.tally.best.value = state.tally.best.value)
    (count : next.sinceImprovement = state.sinceImprovement + 1)
    (latest : ∀ best, past (done + 1) best → next.tally.best.value = best) :
    Remembers past (done + 1) next := by
  refine ⟨⟨older, window, ?_⟩, by rw [count]; exact Nat.succ_le_succ remembers.since, ?_, ?_⟩
  · rintro previous member
    obtain rfl := Option.some.inj (newest.symm.trans member)
    rw [kept]
    exact defined
  · intro earlier best known before within
    rcases Nat.eq_or_lt_of_le before with rfl | before
    · exact latest best known
    · rw [kept]
      exact remembers.same earlier best known (by omega) (by omega)
  · intro earlier best known before
    rw [kept]
    exact remembers.lower earlier best known (by omega)

theorem Remembers.improve (remembers : Remembers past done state) {older : List F}
    (window : next.recentBests = next.tally.best.value :: older)
    (newest : older.head? = some state.tally.best.value)
    (fell : next.tally.best.value < state.tally.best.value) (count : next.sinceImprovement = 0)
    (latest : ∀ best, past (done + 1) best → next.tally.best.value = best) :
    Remembers past (done + 1) next := by
  refine ⟨⟨older, window, ?_⟩, by rw [count]; exact Nat.zero_le _, ?_, ?_⟩
  · rintro previous member
    obtain rfl := Option.some.inj (newest.symm.trans member)
    exact Lawful.le_of_lt fell
  · intro earlier best known before within
    obtain rfl : earlier = done + 1 := by omega
    exact latest best known
  · intro earlier best known before
    -- earlier values are those that the count went back to, or were lower then already
    rcases Nat.lt_or_ge (earlier + state.sinceImprovement) done with long | short
    · exact Lawful.lt_of_lt_of_le fell
        (Lawful.le_of_lt (remembers.lower earlier best known long))
    · rw [← remembers.same earlier best known (by omega) short]
      exact fell

theorem Remembers.note (remembers : Remembers past done state)
    (defined : state.tally.best.value ≤ state.tally.best.value)
    (notes : next.Notes settings state.memory)
    (falls : next.tally.best.value = state.tally.best.value ∨
      next.tally.best.value < state.tally.best.value)
    (latest : ∀ best, past (done + 1) best → next.tally.best.value = best) :
    Remembers past (done + 1) next := by
  obtain ⟨older, bests, _⟩ := remembers.window
  have remembered : state.memory.recentBests = state.tally.best.value :: older := bests
  obtain ⟨kept, window, newest⟩ := notes.window remembered
  have since := notes.sinceImprovement
  rw [remembered] at since
  rcases falls with same | fell
  · have count : next.sinceImprovement = state.sinceImprovement + 1 := by
      rw [since, same]
      exact if_neg (by simpa using Lawful.lt_irrefl _)
    exact remembers.goOn defined window newest same count latest
  · have count : next.sinceImprovement = 0 := by
      rw [since]
      exact if_pos (by simpa using fell)
    exact remembers.improve window newest fell count latest

end Remembers

/-! One pass. -/

section Pass

variable {m : Type → Type} [Monad m] [MonadExceptOf Fault m] {World : Type} [Execution m World]
variable {F : Type} [Unbounded F] {n : Nat} {kernels : Kernels F n} {settings : Settings F}

/-- A landing takes note of the best value, unless there is no way down. -/
theorem lands_notes {caller : Caller m F n} {before after : Journal F n × World} {iteration : Nat}
    {state next : State F n}
    (lands : Lands kernels settings caller iteration state before next after) :
    (next.directionNormSquared = 0 ∧ next.recentBests = state.recentBests ∧
      next.sinceImprovement = state.sinceImprovement) ∨ next.Notes settings state.memory := by
  cases lands with
  | rests plans =>
    obtain ⟨_, _, _, memory⟩ := plan_underway plans
    exact .inl ⟨rfl, congrArg Memory.recentBests memory, congrArg Memory.sinceImprovement memory⟩
  | stays _ underway =>
    obtain ⟨_, _, _, memory⟩ := underway
    exact .inr (State.noteProgress_notes _ (congrArg Memory.recentBests memory)
      (congrArg Memory.sinceImprovement memory))
  | @moves moved line target _ _ _ underway =>
    obtain ⟨_, _, _, memory⟩ := underway
    obtain ⟨bests, since⟩ := moved.advance_notes kernels settings line target
    right
    rw [memory] at bests since
    exact ⟨bests, since⟩

variable {state : State F n}

theorem fresh_of_verdict? (goesOn : verdict? kernels settings state = none) :
    state.sinceImprovement ≤ settings.tuning.stagnationWindow := by
  unfold verdict? at goesOn
  split at goesOn
  · cases goesOn
  · split at goesOn
    · cases goesOn
    · split at goesOn
      · cases goesOn
      · next fresh => exact Nat.le_of_not_lt fresh

theorem stagnated_of_verdict? (judged : verdict? kernels settings state = some .stagnated) :
    ¬ isZero state.directionNormSquared = true ∧
      settings.tuning.stagnationWindow < state.sinceImprovement := by
  unfold verdict? at judged
  split at judged
  · cases judged
  · split at judged
    · cases judged
    · next directed =>
      split at judged
      · next stale => exact ⟨directed, stale⟩
      · cases judged

theorem ends_stagnated {caller : Caller m F n} {before after : World} {ended : Ended F n}
    (ends : Ends kernels settings caller state before ended after)
    (named : ended.termination = .stagnated) :
    ¬ isZero state.directionNormSquared = true ∧
      settings.tuning.stagnationWindow < state.sinceImprovement := by
  have judged := ends_verdict ends (named ▸ rfl)
  rw [named] at judged
  obtain ⟨_, _, checks⟩ : ∃ termination? asked,
      Returns (check kernels settings caller ended.iterations state) before
        (termination?, ended.state) asked := by
    rcases ends with checks | ⟨_, checks, _⟩
    · exact ⟨_, _, checks⟩
    · exact ⟨_, _, checks⟩
  obtain ⟨memory, direction⟩ := check_memory checks
  have since : ended.state.sinceImprovement = state.sinceImprovement :=
    congrArg Memory.sinceImprovement memory
  rw [← direction, ← since]
  exact stagnated_of_verdict? judged

end Pass

/-! Whole runs. -/

section Runs

variable {m : Type → Type} [Monad m] [MonadExceptOf Fault m] {World : Type} [Execution m World]
variable {F : Type} [Unbounded F] {n : Nat} {settings : Settings F} {runner : Runner}
variable {caller : Caller m F n} {x : Vector F n} {before : World}

def BestAfter (settings : Settings F) (runner : Runner) (caller : Caller m F n) (x : Vector F n)
    (before : World) (iterations : Nat) (best : F) : Prop :=
  ∃ state reached, Visits settings runner caller x before iterations state reached ∧
    state.tally.best.value = best

theorem bestAfter_unique {iterations : Nat} {best other : F}
    (first : BestAfter settings runner caller x before iterations best)
    (second : BestAfter settings runner caller x before iterations other) : best = other := by
  obtain ⟨_, _, visits, rfl⟩ := first
  obtain ⟨_, _, visits', rfl⟩ := second
  rw [(visits_unique visits visits').1]

theorem bestAfter_recorded_iff {iterations : Nat} {best : F} :
    BestAfter settings runner caller.recorded x ([], before) iterations best ↔
      BestAfter settings runner caller x before iterations best := by
  constructor
  · rintro ⟨state, ⟨journal, reached⟩, visits, same⟩
    exact ⟨state, reached, visits_recorded_iff.mpr ⟨journal, visits⟩, same⟩
  · rintro ⟨state, reached, visits, same⟩
    obtain ⟨journal, visits⟩ := visits_recorded_iff.mp visits
    exact ⟨state, (journal, reached), visits, same⟩

variable [Lawful F] {reached after : Journal F n × World} {done last : Nat} {state next : State F n}

theorem visits_tally
    (visits : Visits settings runner caller.recorded x ([], before) done state reached) :
    state.tally = .after x (Journal.evaluations reached.1) := by
  obtain ⟨_, _, _, starts, passes⟩ := visits
  obtain ⟨first, rfl, faithful⟩ := start_faithful rfl starts
  exact (passes_faithful faithful passes).tally

theorem passes_fall
    (visits : Visits settings runner caller.recorded x ([], before) done state reached)
    (passes : Passes (Kernels.shared F n settings.threads runner) settings caller.recorded done
      state reached last next after) :
    next.tally.best.value = state.tally.best.value ∨
      next.tally.best.value < state.tally.best.value := by
  obtain ⟨written, grown⟩ := passes_keep grows_lasting (recorded_grows caller) passes
  rw [visits_tally visits, visits_tally (visits_extend visits passes), ← grown,
    Journal.evaluations_append]
  exact Tally.after_best_value x _ _

/-- What the state after `done` iterations knows of the best values before. One without a way down
knows what the state before it knew. -/
inductive Watches (past : Nat → F → Prop) (done : Nat) (state : State F n) : Prop where
  | going : Remembers past done state → Watches past done state
  | resting {earlier : Nat} : isZero state.directionNormSquared = true → done = earlier + 1 →
      past earlier state.recentThreshold → Watches past done state

structure Windowed (settings : Settings F) (state : State F n) : Prop where
  some : state.recentBests ≠ []
  bounded : state.recentBests.length ≤ max settings.tuning.stagnationWindow 2

omit [Lawful F] in
theorem Windowed.note {memory : Memory F} (notes : next.Notes settings memory) :
    Windowed settings next := by
  constructor
  · rw [notes.recentBests, Ne, List.take_eq_nil_iff]
    simp
  · rw [notes.recentBests]
    exact List.length_take_le _ _

theorem Remembers.threshold {past : Nat → F → Prop} (remembers : Remembers past done state)
    (visits : Visits settings runner caller.recorded x ([], before) done state reached) :
    state.recentThreshold = state.tally.best.value := by
  have tally := visits_tally visits
  obtain ⟨older, bests, newest⟩ := remembers.window
  refine State.recentThreshold_eq bests ?_ ?_ newest
  · rw [tally]
    exact Tally.after_best_defined x _
  · rw [tally]
    exact Tally.after_best_top x _

theorem pass_watches [LawfulMonad m]
    (visits : Visits settings runner caller.recorded x ([], before) done state reached)
    (watches : Watches (BestAfter settings runner caller.recorded x ([], before)) done state)
    (windowed : Windowed settings state)
    (pass : Pass (Kernels.shared F n settings.threads runner) settings caller.recorded done state
      reached next after) :
    Watches (BestAfter settings runner caller.recorded x ([], before)) (done + 1) next ∧
      Windowed settings next := by
  have falls := passes_fall visits (.next pass (.refl _ _ _))
  have arrived := visits_next visits pass
  obtain ⟨checked, asked, checks, _, _, iterates, _⟩ := pass
  obtain ⟨memory, direction⟩ := check_memory checks
  have directed := directed_of_verdict? (check_none checks)
  rw [direction] at directed
  -- the check lets a run go on only with a direction, so the state before had not come to rest
  cases watches with
  | resting still => exact absurd still directed
  | going remembers =>
    rcases lands_notes (iterate_lands iterates) with ⟨still, bests, _⟩ | notes
    · -- nothing was noted, so the threshold is the one from before
      have kept : next.recentBests = state.recentBests :=
        bests.trans (congrArg Memory.recentBests memory)
      have level : isZero next.directionNormSquared = true := by
        rw [still]
        exact Lawful.beq_iff.mpr ⟨Lawful.zero_defined, Lawful.zero_defined⟩
      have threshold : next.recentThreshold = state.recentThreshold := by
        rw [State.recentThreshold, State.recentThreshold, kept]
      refine ⟨.resting level rfl ?_, ⟨kept ▸ windowed.some, kept ▸ windowed.bounded⟩⟩
      rw [threshold, remembers.threshold visits]
      exact ⟨state, reached, visits, rfl⟩
    · rw [memory] at notes
      have defined : state.tally.best.value ≤ state.tally.best.value := by
        rw [visits_tally visits]
        exact Tally.after_best_defined x _
      exact ⟨.going (remembers.note defined notes falls fun _ known =>
        bestAfter_unique ⟨next, after, arrived, rfl⟩ known), .note notes⟩

theorem visits_watches [LawfulMonad m]
    (visits : Visits settings runner caller.recorded x ([], before) done state reached) :
    Watches (BestAfter settings runner caller.recorded x ([], before)) done state ∧
      Windowed settings state := by
  refine visits_invariant (fun done state _ =>
    Watches (BestAfter settings runner caller.recorded x ([], before)) done state ∧
      Windowed settings state) ?_ ?_ visits
  · intro started begun starts opened
    have created : started.recentBests = [started.tally.best.value] ∧
        started.sinceImprovement = 0 := by
      obtain ⟨_, _, _, rfl⟩ := start_returns starts
      exact ⟨rfl, rfl⟩
    obtain ⟨bests, since⟩ := created
    refine ⟨.going ⟨⟨[], bests, fun _ member => nomatch member⟩, by rw [since], ?_, ?_⟩, ?_, ?_⟩
    · intro earlier best known before _
      obtain rfl := Nat.le_zero.mp before
      exact bestAfter_unique ⟨started, begun, opened, rfl⟩ known
    · intro earlier best _ before
      exact absurd before (Nat.not_lt_zero _)
    · rw [bests]
      exact List.cons_ne_nil _ _
    · rw [bests]
      exact (Nat.succ_le_succ (Nat.zero_le 1)).trans (Nat.le_max_right _ 2)
  · intro done state middle next after visits kept pass
    exact pass_watches visits kept.1 kept.2 pass

end Runs

section Results

variable {m : Type → Type} [Monad m] [MonadExceptOf Fault m] {World : Type} [Execution m World]
variable {F : Type} [Unbounded F] {n : Nat}

/-- What the best values of a run say about its going on. -/
structure Stagnates (settings : Settings F) (runner : Runner) (caller : Caller m F n)
    (x : Vector F n) (before : World) : Prop where
  falls : ∀ earlier later best lowest, earlier ≤ later →
    BestAfter settings runner caller x before earlier best →
    BestAfter settings runner caller x before later lowest → lowest ≤ best
  /-- A run that is reported as stagnated has ended with the best value that it had as many
  iterations before as the window has, and one more. -/
  reported : ∀ answer after, Returns (minimize settings runner caller x) before answer after →
    answer.2.termination = .stagnated →
    ∃ earlier best, answer.2.iterations = earlier + settings.tuning.stagnationWindow + 1 ∧
      BestAfter settings runner caller x before earlier best ∧
      BestAfter settings runner caller x before answer.2.iterations best
  /-- Where the best value is that of so many iterations before, the next check stops the run. -/
  stops : ∀ earlier best state reached checked asked,
    BestAfter settings runner caller x before earlier best →
    Visits settings runner caller x before (earlier + settings.tuning.stagnationWindow + 1) state
      reached →
    ¬ state.tally.best.value < best →
    ¬ Returns
      (check (Kernels.shared F n settings.threads runner) settings caller
        (earlier + settings.tuning.stagnationWindow + 1) state) reached (none, checked) asked
  /-- No more iterations than that fail to improve the best value one after the other. -/
  limited : ∀ earlier count best latest,
    BestAfter settings runner caller x before earlier best →
    BestAfter settings runner caller x before (earlier + count) latest → ¬ latest < best →
    count ≤ settings.tuning.stagnationWindow + 1
  windowed : ∀ done state reached, Visits settings runner caller x before done state reached →
    Windowed settings state
  /-- After an iteration the threshold is the best value, unless there was no way down. Then it is
  the best value after the iteration before. -/
  threshold : ∀ done state reached, Visits settings runner caller x before done state reached →
    state.recentThreshold = state.tally.best.value ∨
      isZero state.directionNormSquared = true ∧
        ∃ earlier, done = earlier + 1 ∧
          BestAfter settings runner caller x before earlier state.recentThreshold
  /-- A probe is compared with the best value after the iteration before, whatever the check in
  between evaluated. -/
  compared : ∀ done state reached checked asked view looked,
    Visits settings runner caller x before done state reached →
    Returns (check (Kernels.shared F n settings.threads runner) settings caller done state) reached
      (none, checked) asked →
    checked.recentThreshold = state.tally.best.value ∧
      (Returns
        (look (Kernels.shared F n settings.threads runner) settings caller (done + 1) checked) asked
        (.probed view) looked →
      view.state.recentThreshold = state.tally.best.value)

variable {settings : Settings F} {runner : Runner} {caller : Caller m F n} {x : Vector F n}
variable {before reached asked : World} {done : Nat} {state checked : State F n}

theorem look_bests {kernels : Kernels F n} {iteration : Nat} {view : Probed F n}
    (looks : Returns (look kernels settings caller iteration state) before (.probed view)
      reached) : view.state.recentBests = state.recentBests := by
  obtain ⟨turned, _, _, _, turns, _, _, viewed, _⟩ := look_probed looks
  rw [viewed]
  rcases downhill_returns turns with ⟨_, _, rfl, _⟩ | ⟨_, _, rfl, _⟩ <;> rfl

variable [Lawful F]

theorem bestAfter_falls {earlier later : Nat} {best lowest : F} (ordered : earlier ≤ later)
    (first : BestAfter settings runner caller x before earlier best)
    (second : BestAfter settings runner caller x before later lowest) : lowest ≤ best := by
  obtain ⟨_, _, visits, rfl⟩ := bestAfter_recorded_iff.mpr first
  obtain ⟨_, _, visits', rfl⟩ := bestAfter_recorded_iff.mpr second
  obtain ⟨_, _, passed, passes⟩ := visits_earlier ordered visits'
  obtain ⟨rfl, rfl⟩ := visits_unique visits passed
  rcases passes_fall visits passes with same | lower
  · rw [same, visits_tally visits]
    exact Tally.after_best_defined x _
  · exact Lawful.le_of_lt lower

variable [LawfulMonad m]

theorem visits_remembers
    (visits : Visits settings runner caller x before done state reached)
    (directed : ¬ isZero state.directionNormSquared = true) :
    Remembers (BestAfter settings runner caller x before) done state ∧
      state.recentThreshold = state.tally.best.value := by
  obtain ⟨journal, recorded⟩ := visits_recorded_iff.mp visits
  cases (visits_watches recorded).1 with
  | resting still => exact absurd still directed
  | going remembers =>
    refine ⟨⟨remembers.window, remembers.since, ?_, ?_⟩, remembers.threshold recorded⟩
    · exact fun earlier best known => remembers.same earlier best (bestAfter_recorded_iff.mpr known)
    · exact fun earlier best known => remembers.lower earlier best (bestAfter_recorded_iff.mpr known)

theorem checked_remembers
    (visits : Visits settings runner caller x before done state reached)
    (checks : Returns
      (check (Kernels.shared F n settings.threads runner) settings caller done state) reached
      (none, checked) asked) :
    Remembers (BestAfter settings runner caller x before) done state ∧
      state.recentThreshold = state.tally.best.value ∧
      state.sinceImprovement ≤ settings.tuning.stagnationWindow := by
  obtain ⟨memory, direction⟩ := check_memory checks
  have goesOn := check_none checks
  have directed := directed_of_verdict? goesOn
  rw [direction] at directed
  obtain ⟨remembers, threshold⟩ := visits_remembers visits directed
  have since : checked.sinceImprovement = state.sinceImprovement :=
    congrArg Memory.sinceImprovement memory
  exact ⟨remembers, threshold, since ▸ fresh_of_verdict? goesOn⟩

theorem minimize_stagnated {answer : Vector F n × Report F} {after : World}
    (ran : Returns (minimize settings runner caller x) before answer after)
    (stagnated : answer.2.termination = .stagnated) :
    ∃ earlier best, answer.2.iterations = earlier + settings.tuning.stagnationWindow + 1 ∧
      BestAfter settings runner caller x before earlier best ∧
      BestAfter settings runner caller x before answer.2.iterations best := by
  obtain ⟨threads, started, begun, ended, _, starts, ⟨last, reached, passes, ends⟩, concludes⟩ :=
    minimize_returns ran
  obtain ⟨_, _, termination, _, judged, rfl⟩ := conclude_returns concludes
  obtain rfl : termination = .stagnated := stagnated
  have named : Termination.stagnated = ended.termination := by
    rcases judged with ⟨_, named, _⟩ | ⟨_, impossible, _⟩
    · exact named
    · cases impossible
  obtain ⟨directed, stale⟩ := ends_stagnated ends named.symm
  have visits : Visits settings runner caller x before ended.iterations last reached :=
    ⟨threads, started, begun, starts, passes⟩
  obtain ⟨remembers, _⟩ := visits_remembers visits directed
  have long := remembers.since
  obtain ⟨earlier, far⟩ : ∃ earlier,
      ended.iterations = earlier + settings.tuning.stagnationWindow + 1 :=
    ⟨ended.iterations - (settings.tuning.stagnationWindow + 1), by omega⟩
  have within : earlier ≤ ended.iterations := by omega
  obtain ⟨state, passed, known, _⟩ := visits_earlier within visits
  have same := remembers.same earlier _ ⟨state, passed, known, rfl⟩ (by omega) (by omega)
  exact ⟨earlier, last.tally.best.value, far, ⟨state, passed, known, same.symm⟩, last, reached,
    visits, rfl⟩

theorem check_stops {earlier : Nat} {best : F}
    (known : BestAfter settings runner caller x before earlier best)
    (visits : Visits settings runner caller x before
      (earlier + settings.tuning.stagnationWindow + 1) state reached)
    (unimproved : ¬ state.tally.best.value < best) :
    ¬ Returns
      (check (Kernels.shared F n settings.threads runner) settings caller
        (earlier + settings.tuning.stagnationWindow + 1) state) reached (none, checked) asked := by
  intro checks
  -- the count is within the window, so it began again after that best value was there
  obtain ⟨remembers, _, fresh⟩ := checked_remembers visits checks
  exact unimproved (remembers.lower earlier best known (by omega))

/-- The best value of a run never increases. The run is stagnated when it has been the same for
one iteration more than the window has, and is stopped then at the latest. The window holds at
least one value, and the lower one of the newer two is the best value after the iteration
before. -/
theorem minimize_stagnates (settings : Settings F) (runner : Runner) (caller : Caller m F n)
    (x : Vector F n) (before : World) : Stagnates settings runner caller x before where
  falls _ _ _ _ ordered first second := bestAfter_falls ordered first second
  reported _ _ ran stagnated := minimize_stagnated ran stagnated
  stops _ _ _ _ _ _ known visits unimproved := check_stops known visits unimproved
  limited := by
    intro earlier count best latest known last unimproved
    by_contra far
    generalize reaches : earlier + count = done at last
    obtain ⟨state, reached, visits, rfl⟩ := last
    have within : earlier + settings.tuning.stagnationWindow + 1 ≤ done := by omega
    obtain ⟨middle, passed, early, passes⟩ := visits_earlier within visits
    -- the run has gone on from the state where it would have been stopped
    have improved : middle.tally.best.value < best := by
      cases passes with
      | refl => omega
      | next pass _ =>
        obtain ⟨checked, asked, checks, _⟩ := pass
        by_contra same
        exact check_stops known early same checks
    have fallen := bestAfter_falls (by omega) ⟨middle, passed, early, rfl⟩
      ⟨state, reached, visits, rfl⟩
    exact unimproved (Lawful.lt_of_le_of_lt fallen improved)
  windowed _ _ _ visits := by
    obtain ⟨journal, recorded⟩ := visits_recorded_iff.mp visits
    exact (visits_watches recorded).2
  threshold _ _ _ visits := by
    obtain ⟨journal, recorded⟩ := visits_recorded_iff.mp visits
    cases (visits_watches recorded).1 with
    | going remembers => exact .inl (remembers.threshold recorded)
    | resting still earlier known =>
      exact .inr ⟨still, _, earlier, bestAfter_recorded_iff.mp known⟩
  compared _ state _ checked _ view _ visits checks := by
    obtain ⟨_, threshold, _⟩ := checked_remembers visits checks
    have bests : checked.recentBests = state.recentBests :=
      congrArg Memory.recentBests (check_memory checks).1
    have same : checked.recentThreshold = state.tally.best.value := by
      rw [← threshold, State.recentThreshold, State.recentThreshold, bests]
    refine ⟨same, fun looks => ?_⟩
    rw [← same, State.recentThreshold, State.recentThreshold, look_bests looks]

end Results

/-! A slope down to a floor, where the gradient still promises more. -/

def floored (x : Vector Float 1) : Float × Vector Float 1 :=
  let u := x.get ⟨0, Nat.zero_lt_one⟩
  (if u < 0 then 0 else u, Vector.replicate 1 1)

def flooredCaller : Caller (Except Fault) Float 1 := .ofFunction floored

def shortWindow : Settings Float :=
  { Settings.standard with tuning := { Tuning.standard with stagnationWindow := 1 } }

theorem floored_yields : Yields (minimize shortWindow .inOrder flooredCaller #v[2]) fun answer =>
    answer.2.termination = .stagnated ∧ answer.2.iterations = 3 := by
  decide +kernel

/-- The first iteration comes down to the floor. Two more do not go below it. -/
theorem minimize_stagnates_floored :
    ∃ answer best,
      Returns (minimize shortWindow .inOrder flooredCaller #v[2]) () answer () ∧
      answer.2.termination = .stagnated ∧ answer.2.iterations = 1 + 1 + 1 ∧
      BestAfter shortWindow .inOrder flooredCaller #v[2] () 1 best ∧
      BestAfter shortWindow .inOrder flooredCaller #v[2] () 3 best ∧
      ∀ count latest, BestAfter shortWindow .inOrder flooredCaller #v[2] () (1 + count) latest →
        ¬ latest < best → count ≤ 2 := by
  obtain ⟨answer, ran, stagnated, three⟩ := floored_yields
  have stagnates := minimize_stagnates shortWindow .inOrder flooredCaller #v[2] ()
  obtain ⟨earlier, best, far, known, last⟩ := stagnates.reported answer () ran stagnated
  rw [three] at far last
  obtain rfl : 1 = earlier := Nat.succ.inj (Nat.succ.inj far)
  exact ⟨answer, best, ran, stagnated, three, known, last,
    fun count latest => stagnates.limited 1 count best latest known⟩

end Minimization

end Descent

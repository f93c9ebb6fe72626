import Mathlib.Algebra.Order.Floor.Semiring
import Descent.Proofs.Leap
import Descent.Proofs.Remarks

/-!
When the direction starts anew by schedule. A state counts its moves since the last restart of the
direction, whatever the reason was, and the count stays below the run length. Where the next move
would reach the run length the restart is a scheduled one: it is remarked as such, and the next run
is longer by a factor. Nothing else changes the run length, so it tells how many scheduled restarts
there were, and each of them is a whole run of iterations away from the one before.
-/

namespace Descent

open Scalar Execution

/-! Scheduled restarts in a journal. -/

namespace Journal

variable {F : Type} {n : Nat}

def scheduled (journal : Journal F n) : List Nat :=
  journal.filterMap fun
    | .noted (.restarting iteration true) => some iteration
    | _ => none

theorem scheduled_append (journal later : Journal F n) :
    scheduled (journal ++ later) = scheduled journal ++ scheduled later :=
  List.filterMap_append

theorem Aloft.scheduled {journal : Journal F n} (aloft : journal.Aloft) :
    journal.scheduled = [] := by
  apply List.filterMap_eq_nil_iff.mpr
  intro entry member
  have high := aloft entry member
  cases entry with
  | noted event =>
    cases event with
    | restarting => exact nomatch high
    | _ => rfl
  | evaluated | asked | polled | cancelled => rfl

/-- Where runs start: with the first iteration, and after every scheduled restart. -/
def starts (journal : Journal F n) : List Nat := 0 :: journal.scheduled

end Journal

/-- From the start at position `k` to the next one it is at least `gap k`. -/
def Spaced (gap : Nat → Nat) (starts : List Nat) : Prop :=
  ∀ k earlier later, starts[k]? = some earlier → starts[k + 1]? = some later →
    earlier + gap k ≤ later

theorem Spaced.snoc {gap : Nat → Nat} {starts : List Nat} {count last next : Nat}
    (spaced : Spaced gap starts) (length : starts.length = count + 1)
    (ends : starts[count]? = some last) (far : last + gap count ≤ next) :
    Spaced gap (starts ++ [next]) := by
  intro k earlier later first second
  -- both starts were there before, or the later one is new
  rcases Nat.lt_or_ge (k + 1) starts.length with inside | outside
  · rw [List.getElem?_append_left (by omega)] at first second
    exact spaced k earlier later first second
  · rw [List.getElem?_append_right outside] at second
    obtain rfl : count = k := by
      have below := (List.getElem?_eq_some_iff.mp second).1
      simp only [List.length_singleton] at below
      omega
    rw [List.getElem?_append_left (by omega), ends] at first
    obtain rfl := Option.some.inj first
    have same : later = next := by simpa [length] using second.symm
    rw [same]
    exact far

/-! How a move turns the direction. -/

namespace State

section Turn

variable {F : Type} [Scalar F] {n : Nat} (kernels : Kernels F n) (settings : Settings F)

def Fresh (state : State F n) : Prop :=
  state.sinceReset = 0 ∧ state.direction = kernels.update (.scale (-1)) state.gradient

/-- A move starts the direction anew when the run is over, which makes the next one longer, or for
another reason, or else goes on with a conjugate direction. -/
theorem turn_cases (state : State F n) (beta : F) :
    (state.runLength ≤ (state.sinceReset : F) ∧
      (state.turn kernels settings beta).restarted = some true ∧
      (state.turn kernels settings beta).state =
        State.restart kernels
          { state with runLength := state.runLength * settings.resetExpandFactor }) ∨
    (¬ state.runLength ≤ (state.sinceReset : F) ∧
      (state.turn kernels settings beta).restarted ≠ some true ∧
      ∃ worn : State F n, worn.runLength = state.runLength ∧
        (state.turn kernels settings beta).state = worn.restart kernels) ∨
    (¬ state.runLength ≤ (state.sinceReset : F) ∧ 0 < beta ∧
      (state.turn kernels settings beta).restarted = none ∧
      (state.turn kernels settings beta).state = state.conjugate kernels beta) := by
  unfold turn
  by_cases spent : state.runLength ≤ (state.sinceReset : F)
  · left
    simp only [spent, decide_true, true_or, if_true, and_self]
  · right
    simp only [spent, decide_false, Bool.false_eq_true, false_or, if_false, not_false_eq_true,
      true_and]
    split
    · exact .inl ⟨by simp, state, rfl, rfl⟩
    · next useful =>
      split
      · exact .inr ⟨not_not.mp fun flat => useful (.inl flat), rfl, rfl⟩
      · exact .inl ⟨by simp, _, rfl, rfl⟩

theorem advance_cases (state : State F n) (line : Record F n) (target : Move F n) :
    (state.runLength ≤ ((state.sinceReset + 1 : Nat) : F) ∧
      (state.advance kernels settings line target).restarted = some true ∧
      (state.advance kernels settings line target).state.runLength =
        state.runLength * settings.resetExpandFactor ∧
      (state.advance kernels settings line target).state.Fresh kernels) ∨
    (¬ state.runLength ≤ ((state.sinceReset + 1 : Nat) : F) ∧
      (state.advance kernels settings line target).restarted ≠ some true ∧
      (state.advance kernels settings line target).state.runLength = state.runLength ∧
      (state.advance kernels settings line target).state.Fresh kernels) ∨
    (¬ state.runLength ≤ ((state.sinceReset + 1 : Nat) : F) ∧
      (state.advance kernels settings line target).restarted = none ∧
      (state.advance kernels settings line target).state.runLength = state.runLength ∧
      (state.advance kernels settings line target).state.sinceReset = state.sinceReset + 1 ∧
      ∃ beta, 0 < beta ∧
        (state.advance kernels settings line target).state.direction =
          kernels.update
            (.addScaled (state.advance kernels settings line target).state.gradient (-1))
            (kernels.update (.scale beta) state.direction)) := by
  unfold advance
  dsimp only
  generalize kernels.dot target.gradient _ / _ = beta
  generalize moves : State.mk _ _ _ target.gradient _ _ _ _ _ _ _ (state.sinceReset + 1) _ _ = moved
  have count : moved.sinceReset = state.sinceReset + 1 := by rw [← moves]
  have length : moved.runLength = state.runLength := by rw [← moves]
  have along : moved.direction = state.direction := by rw [← moves]
  rw [← count, ← length, ← along]
  rcases turn_cases kernels settings moved beta with
    ⟨spent, named, turned⟩ | ⟨early, named, worn, kept, turned⟩ | ⟨early, useful, named, turned⟩
  · refine .inl ⟨spent, named, ?_⟩
    rw [turned]
    exact ⟨rfl, rfl, rfl⟩
  · refine .inr (.inl ⟨early, named, ?_⟩)
    rw [turned]
    exact ⟨kept, rfl, rfl⟩
  · refine .inr (.inr ⟨early, named, ?_⟩)
    rw [turned]
    exact ⟨rfl, rfl, beta, useful, rfl⟩

end Turn

section Steepest

variable {F : Type} [Field F] [LinearOrder F] [Exact F] {n : Nat} {state : State F n}

theorem Fresh.steepest (fresh : state.Fresh (.serial F n)) :
    state.direction.get = -state.gradient.get := by
  rw [fresh.2, serial_scale, neg_one_smul]

theorem Directed.direction_ne (directed : state.Directed (.serial F n)) :
    state.direction.get ≠ 0 := by
  intro still
  rw [Directed, slope, serial_dot, serial_normSquared, still, dotProduct_zero,
    zero_dotProduct] at directed
  exact directed.elim (lt_irrefl 0) (lt_irrefl 0)

end Steepest

end State

/-- The run length after so many scheduled restarts. -/
def Settings.runLengthAfter {F : Type} [Field F] (settings : Settings F) (restarts : Nat) : F :=
  settings.noResetRunLength * settings.resetExpandFactor ^ restarts

namespace Minimization

section Counts

variable {m : Type → Type} [Monad m] [MonadExceptOf Fault m] {World : Type} [Execution m World]
variable {F : Type} [Field F] [LinearOrder F] [Exact F] [Limited F] {n : Nat}
variable {kernels : Kernels F n} {settings : Settings F} {caller : Caller m F n}
variable {before after : Journal F n × World} {iteration done : Nat} {state next : State F n}

/-- After an iteration the count is zero if the direction is that of steepest descent, and only
then. -/
theorem lands_steepest
    (lands : Lands (.serial F n) settings caller iteration state before next after) :
    next.sinceReset = 0 ↔ next.direction.get = -next.gradient.get := by
  have restarted {fresh : State F n} (starts : fresh.Fresh (.serial F n)) :
      fresh.sinceReset = 0 ↔ fresh.direction.get = -fresh.gradient.get :=
    iff_of_true starts.1 starts.steepest
  cases lands with
  | rests plans =>
    obtain ⟨worn, rfl⟩ := plan_restarted plans
    exact restarted ⟨rfl, rfl⟩
  | stays => exact restarted ⟨rfl, rfl⟩
  | @moves moved line target _ _ directed =>
    rcases moved.advance_cases (.serial F n) settings line target with
      ⟨_, _, _, fresh⟩ | ⟨_, _, _, fresh⟩ | ⟨_, _, _, counted, beta, useful, along⟩
    · exact restarted fresh
    · exact restarted fresh
    · -- a conjugate direction differs from it by a multiple of the old one, which is not zero
      refine iff_of_false (by omega) fun steepest => ?_
      rw [along, serial_addScaled, serial_scale, neg_one_smul, add_eq_right] at steepest
      exact (smul_ne_zero useful.ne' directed.direction_ne) steepest

variable [IsStrictOrderedRing F] [FloorSemiring F]

/-- What an iteration makes of the run length and of the count of moves, which a restart before
the line is searched has set to zero already. -/
inductive Counts (settings : Settings F) (iteration : Nat) (state next : State F n) :
    Journal F n → Prop where
  | scheduled {work : Journal F n} : work.Aloft →
      work.recount state.sinceReset + 1 = ⌈state.runLength⌉₊ →
      next.runLength = state.runLength * settings.resetExpandFactor → next.sinceReset = 0 →
      Counts settings iteration state next (work ++ [.noted (.restarting iteration true)])
  | unscheduled {written : Journal F n} : written.scheduled = [] →
      next.runLength = state.runLength → next.sinceReset = 0 →
      Counts settings iteration state next written
  | counted {written : Journal F n} : written.Aloft → next.runLength = state.runLength →
      next.sinceReset = written.recount state.sinceReset + 1 →
      (next.sinceReset : F) < next.runLength → Counts settings iteration state next written

theorem lands_counts (within : (state.sinceReset : F) < state.runLength)
    (lands : Lands kernels settings caller iteration state before next after) :
    ∃ written, after.1 = before.1 ++ written ∧ Counts settings iteration state next written := by
  cases lands with
  | rests plans =>
    obtain ⟨written, grown, aloft, memory⟩ := plan_underway plans
    obtain ⟨worn, rfl⟩ := plan_restarted plans
    exact ⟨written, grown, .unscheduled aloft.scheduled (congrArg Memory.runLength memory) rfl⟩
  | stays plans underway last =>
    obtain ⟨written, grown, aloft, memory⟩ := underway
    refine ⟨_, last.trans (grown ▸ List.append_assoc _ _ _),
      .unscheduled ?_ (congrArg Memory.runLength memory) rfl⟩
    rw [Journal.scheduled_append, aloft.scheduled]
    rfl
  | @moves moved line target middle after directed underway last =>
    obtain ⟨written, grown, aloft, memory⟩ := underway
    have length : moved.runLength = state.runLength := congrArg Memory.runLength memory
    have count : moved.sinceReset = written.recount state.sinceReset :=
      congrArg Memory.sinceReset memory
    refine ⟨_, last.trans (grown ▸ List.append_assoc _ _ _), ?_⟩
    -- restarts on the way only lower the count
    have ahead : (moved.sinceReset : F) < moved.runLength := by
      rw [length, count]
      exact (Nat.cast_le.mpr (Journal.recount_le _ _)).trans_lt within
    rcases moved.advance_cases kernels settings line target with
      ⟨spent, named, grows, fresh⟩ | ⟨early, named, kept, fresh⟩ | ⟨early, named, kept, counted, _⟩
    · rw [named]
      refine .scheduled aloft ?_ (grows.trans (by rw [length])) fresh.1
      rw [← count, ← length]
      -- the count is below the run length and its successor is not, which makes that the ceiling
      exact ((Nat.ceil_eq_iff (Nat.succ_ne_zero _)).mpr ⟨ahead, spent⟩).symm
    · refine .unscheduled ?_ (kept.trans length) fresh.1
      rw [Journal.scheduled_append, aloft.scheduled]
      generalize (State.advance kernels settings moved line target).restarted = turned at named
      rcases turned with _ | _ | _
      · rfl
      · rfl
      · exact absurd rfl named
    · rw [named]
      refine .counted ?_ (kept.trans length) ?_ ?_
      · exact Journal.aloft_append aloft Journal.aloft_nil
      · rw [counted, Journal.recount_append, ← count]
        rfl
      · rw [counted, kept]
        exact not_le.mp early

/-- Where a run stands in its schedule after `done` iterations. -/
structure OnSchedule (settings : Settings F) (done : Nat) (journal : Journal F n)
    (state : State F n) : Prop where
  within : (state.sinceReset : F) < state.runLength
  runLength : state.runLength = settings.runLengthAfter journal.scheduled.length
  /-- No run is shorter than the run length that it began with. -/
  spaced : Spaced (fun k => ⌈(settings.runLengthAfter k : F)⌉₊) journal.starts
  /-- All moves that count were made since the last run began. -/
  counted : ∃ last, journal.starts[journal.scheduled.length]? = some last ∧
    last + state.sinceReset ≤ done
  /-- Where the count is zero the direction starts, and nowhere else. -/
  steepest : state.sinceReset = 0 ↔ state.direction.get = -state.gradient.get

section Steps

omit [Limited F]

variable {journal written later : Journal F n}

omit [IsStrictOrderedRing F] in
theorem OnSchedule.goOn (on : OnSchedule settings done journal state)
    (same : later.scheduled = journal.scheduled) (kept : next.runLength = state.runLength)
    (within : (next.sinceReset : F) < next.runLength)
    (few : next.sinceReset ≤ state.sinceReset + 1)
    (steepest : next.sinceReset = 0 ↔ next.direction.get = -next.gradient.get) :
    OnSchedule settings (done + 1) later next := by
  obtain ⟨last, ends, since⟩ := on.counted
  have starts : later.starts = journal.starts := congrArg (0 :: ·) same
  refine ⟨within, ?_, starts ▸ on.spaced, ⟨last, ?_, by omega⟩, steepest⟩
  · rw [kept, same, on.runLength]
  · rw [starts, same, ends]

theorem OnSchedule.restart (positive : 0 < settings.resetExpandFactor)
    (on : OnSchedule settings done journal state)
    (grown : later.scheduled = journal.scheduled ++ [done + 1])
    (full : ⌈state.runLength⌉₊ ≤ state.sinceReset + 1)
    (grows : next.runLength = state.runLength * settings.resetExpandFactor)
    (fresh : next.sinceReset = 0)
    (steepest : next.sinceReset = 0 ↔ next.direction.get = -next.gradient.get) :
    OnSchedule settings (done + 1) later next := by
  obtain ⟨last, ends, since⟩ := on.counted
  have length : 0 < state.runLength := (Nat.cast_nonneg _).trans_lt on.within
  have starts : later.starts = journal.starts ++ [done + 1] := by
    rw [Journal.starts, grown]
    rfl
  have room : journal.starts.length = journal.scheduled.length + 1 := rfl
  refine ⟨?_, ?_, ?_, ⟨done + 1, ?_, by omega⟩, steepest⟩
  · rw [fresh, grows, Nat.cast_zero]
    exact mul_pos length positive
  · rw [grows, on.runLength, grown, List.length_append, List.length_singleton]
    exact (mul_assoc _ _ _).trans (congrArg _ (pow_succ _ _).symm)
  · -- the moves of the run that is over all fell between the last two starts
    rw [starts]
    refine on.spaced.snoc room ends ?_
    rw [← on.runLength]
    omega
  · rw [starts, grown, List.length_append, List.length_singleton, ← room]
    exact List.getElem?_concat_length

theorem OnSchedule.counts (positive : 0 < settings.resetExpandFactor)
    (on : OnSchedule settings done journal state)
    (counts : Counts settings (done + 1) state next written)
    (steepest : next.sinceReset = 0 ↔ next.direction.get = -next.gradient.get)
    (grown : later.scheduled = journal.scheduled ++ written.scheduled) :
    OnSchedule settings (done + 1) later next := by
  cases counts with
  | @scheduled work aloft full grows fresh =>
    rw [Journal.scheduled_append, aloft.scheduled] at grown
    have count := Journal.recount_le work state.sinceReset
    exact on.restart positive grown (by omega) grows fresh steepest
  | unscheduled quiet kept fresh =>
    rw [quiet, List.append_nil] at grown
    refine on.goOn grown kept ?_ (by omega) steepest
    rw [fresh, kept, Nat.cast_zero]
    exact (Nat.cast_nonneg _).trans_lt on.within
  | counted aloft kept counted within =>
    rw [aloft.scheduled, List.append_nil] at grown
    have count := Journal.recount_le written state.sinceReset
    exact on.goOn grown kept within (by omega) steepest

end Steps

/-- The iteration after a check, for the state before the check. -/
theorem iterate_counts [LawfulMonad m] {checked : State F n} {asked : Journal F n × World}
    (within : (state.sinceReset : F) < state.runLength)
    (checks : Returns (check kernels settings caller.recorded done state) before (none, checked)
      asked)
    (iterates : Returns (iterate kernels settings caller.recorded iteration checked) asked next
      after) :
    ∃ written, after.1 = asked.1 ++ written ∧ Counts settings iteration state next written := by
  obtain ⟨memory, _⟩ := check_memory checks
  have length : checked.runLength = state.runLength := congrArg Memory.runLength memory
  have count : checked.sinceReset = state.sinceReset := congrArg Memory.sinceReset memory
  rw [← length, ← count] at within
  obtain ⟨written, grown, counts⟩ := lands_counts within (iterate_lands iterates)
  refine ⟨written, grown, ?_⟩
  cases counts with
  | scheduled aloft full grows fresh =>
    exact .scheduled aloft (length ▸ count ▸ full) (length ▸ grows) fresh
  | unscheduled quiet kept fresh => exact .unscheduled quiet (length ▸ kept) fresh
  | counted aloft kept counted within =>
    exact .counted aloft (length ▸ kept) (count ▸ counted) within

theorem pass_onSchedule [LawfulMonad m] (positive : 0 < settings.resetExpandFactor)
    (on : OnSchedule settings done before.1 state)
    (pass : Pass (.serial F n) settings caller.recorded done state before next after) :
    OnSchedule settings (done + 1) after.1 next := by
  obtain ⟨checked, asked, checks, iterated, _, iterates, notes⟩ := pass
  obtain ⟨written, asks, silent⟩ := check_quiet _ _ _ checks
  obtain ⟨work, works, counts⟩ := iterate_counts on.within checks iterates
  refine on.counts positive counts (lands_steepest (iterate_lands iterates)) ?_
  rw [(Caller.returns_record.mp notes).2, works, asks, Journal.scheduled_append,
    Journal.scheduled_append, Journal.scheduled_append, silent.aloft.scheduled, List.append_nil]
  exact List.append_nil _

theorem start_onSchedule {x : Vector F n} {world : World} (long : 0 < settings.noResetRunLength)
    (starts : Returns (start (.serial F n) settings caller.recorded x) ([], world) state after) :
    OnSchedule settings 0 after.1 state := by
  obtain ⟨_, _, written⟩ := start_journal starts
  obtain ⟨value, gradient, _, rfl⟩ := start_returns starts
  rw [written]
  refine ⟨?_, ?_, ?_, ⟨0, rfl, Nat.le_refl 0⟩, ?_⟩
  · exact (Nat.cast_zero (R := F)).trans_lt (Nat.cast_pos.mpr long)
  · exact ((congrArg _ (pow_zero _)).trans (mul_one _)).symm
  · intro k earlier later _ second
    cases second
  · exact iff_of_true rfl ((serial_scale _ _).trans (neg_one_smul F _))

variable {runner : Runner} {x : Vector F n} {world : World}

theorem visits_onSchedule [LawfulMonad m] (long : 0 < settings.noResetRunLength)
    (positive : 0 < settings.resetExpandFactor)
    (visits : Visits settings runner caller.recorded x ([], world) done state after) :
    OnSchedule settings done after.1 state := by
  obtain ⟨threads, started, begun, starts, passes⟩ := visits
  -- exact sums come out the same however they are shared
  rw [Kernels.shared_eq_serial settings.threads runner threads] at starts passes
  exact passes_invariant (fun done state world => OnSchedule settings done world.1 state)
    (fun _ _ _ _ _ on pass => pass_onSchedule positive on pass) passes
    (start_onSchedule long starts)

end Counts

/-- At every state of a run the moves since the last restart are fewer than the run length, which
the scheduled restarts and nothing else have made longer; each of them is a whole run away from
the one before. An iteration restarts by schedule where the run is over, otherwise it leaves the
run length alone, and the count is zero or goes up by one. -/
theorem restarts_on_schedule {m : Type → Type} [Monad m] [LawfulMonad m] [MonadExceptOf Fault m]
    {World : Type} [Execution m World] {F : Type} [Field F] [LinearOrder F]
    [IsStrictOrderedRing F] [FloorSemiring F] [Exact F] [Limited F] {n : Nat}
    (settings : Settings F) (long : 1 ≤ settings.noResetRunLength)
    (grows : 1 ≤ settings.resetExpandFactor) (runner : Runner) (caller : Caller m F n)
    (x : Vector F n) (before : World) (done : Nat) (state : State F n) (reached : World)
    (visits : Visits settings runner caller x before done state reached) :
    ∃ journal,
      Visits settings runner caller.recorded x ([], before) done state (journal, reached) ∧
      OnSchedule settings done journal state ∧
      ∀ checked next asked after,
        Returns
          (check (Kernels.shared F n settings.threads runner) settings caller.recorded done state)
          (journal, reached) (none, checked) asked →
        Returns
          (iterate (Kernels.shared F n settings.threads runner) settings caller.recorded
            (done + 1) checked)
          asked next after →
        ∃ written, after.1 = asked.1 ++ written ∧
          Counts settings (done + 1) state next written := by
  obtain ⟨journal, recorded⟩ := visits_recorded_iff.mp visits
  have on := visits_onSchedule long (zero_lt_one.trans_le grows) recorded
  exact ⟨journal, recorded, on, fun _ _ _ _ checks iterates =>
    iterate_counts on.within checks iterates⟩

instance : FloorSemiring Fraction := inferInstanceAs (FloorSemiring ℚ)

def shortRun : Settings Fraction := { Settings.standard with noResetRunLength := 1 }

theorem shortRun_restarts :
    Yields ((visit shortRun .inOrder ovalCaller.recorded #v[2, 1] 3).run []) fun (state?, journal) =>
      ∃ state ∈ state?, state.runLength = 9 / 4 ∧ journal.scheduled = [1, 3] := by
  decide +kernel

/-- The first run takes one iteration, the second one has a length of one and a half and takes
two. -/
theorem restarts_on_schedule_oval :
    1 ≤ shortRun.noResetRunLength ∧ 1 ≤ shortRun.resetExpandFactor ∧
    ∃ (state : State Fraction 2) (journal : Journal Fraction 2),
      Visits shortRun .inOrder ovalCaller #v[2, 1] () 3 state () ∧
      Visits shortRun .inOrder ovalCaller.recorded #v[2, 1] ([], ()) 3 state (journal, ()) ∧
      OnSchedule shortRun 3 journal state ∧
      journal.scheduled = [1, 3] ∧ state.runLength = 9 / 4 := by
  have long : 1 ≤ shortRun.noResetRunLength := by decide
  have grows : 1 ≤ shortRun.resetExpandFactor := by decide +kernel
  obtain ⟨⟨_, journal⟩, ran, state, rfl, length, restarts⟩ := shortRun_restarts
  have recorded : Visits shortRun .inOrder ovalCaller.recorded #v[2, 1] ([], ()) 3 state
      (journal, ()) := visits_of_visit Nat.zero_lt_one ran
  have visits := visits_recorded_iff.mpr ⟨journal, recorded⟩
  obtain ⟨_, recorded', on, _⟩ := restarts_on_schedule shortRun long grows .inOrder ovalCaller
    #v[2, 1] () 3 state () visits
  obtain ⟨rfl, _⟩ := Prod.mk.inj (visits_unique recorded recorded').2
  exact ⟨long, grows, state, _, visits, recorded, on, restarts, length⟩

end Minimization

end Descent

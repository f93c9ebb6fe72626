import Descent.Proofs.Protocol
import Descent.Proofs.Stages

/-!
What the remarks of an iteration tell about it. Until it lands, an iteration remarks every restart
of its direction, and what the state remembers of earlier iterations stays as it is but for the
count of moves since the last restart. Landing adds at most one remark: that a search was no
progress, or that the direction starts anew after a move.
-/

namespace Descent

open Scalar Execution

variable {F : Type} {n : Nat}

/-! Kinds of remarks. -/

namespace Entry

def isRemark : Entry F n → Bool
  | .noted _ => true
  | _ => false

def restarts : Entry F n → Bool
  | .noted (.notDownhill _) | .noted (.backingOut ..) => true
  | _ => false

def lands : Entry F n → Bool
  | .noted (.noProgress ..) | .noted (.restarting ..) => true
  | _ => false

theorem lands_of_silent {entry : Entry F n} (silent : entry.isRemark = false) :
    entry.lands = false := by
  cases entry with
  | noted => exact nomatch silent
  | evaluated | asked | polled | cancelled => rfl

theorem restarts_of_silent {entry : Entry F n} (silent : entry.isRemark = false) :
    entry.restarts = false := by
  cases entry with
  | noted => exact nomatch silent
  | evaluated | asked | polled | cancelled => rfl

end Entry

namespace Journal

def Aloft (journal : Journal F n) : Prop := ∀ entry ∈ journal, entry.lands = false

theorem aloft_nil : Aloft ([] : Journal F n) := fun _ member => nomatch member

theorem aloft_singleton {entry : Entry F n} (aloft : entry.lands = false) : Aloft [entry] :=
  fun _ member => List.mem_singleton.mp member ▸ aloft

theorem aloft_append {journal later : Journal F n} (first : Aloft journal)
    (second : Aloft later) : Aloft (journal ++ later) :=
  fun entry member => (List.mem_append.mp member).elim (first entry) (second entry)

/-- The moves since the last restart, where `count` were known before the journal begins. -/
def recount (journal : Journal F n) (count : Nat) : Nat :=
  if journal.any Entry.restarts then 0 else count

theorem recount_append (journal later : Journal F n) (count : Nat) :
    recount (journal ++ later) count = later.recount (journal.recount count) := by
  simp only [recount, List.any_append, Bool.or_eq_true]
  split <;> split <;> simp_all

theorem recount_le (journal : Journal F n) (count : Nat) : journal.recount count ≤ count := by
  unfold recount
  split
  · exact Nat.zero_le _
  · exact Nat.le_refl _

def Silent (journal : Journal F n) : Prop := ∀ entry ∈ journal, entry.isRemark = false

theorem silent_nil : Silent ([] : Journal F n) := fun _ member => nomatch member

theorem silent_append {journal later : Journal F n} (first : Silent journal)
    (second : Silent later) : Silent (journal ++ later) :=
  fun entry member => (List.mem_append.mp member).elim (first entry) (second entry)

theorem Silent.aloft {journal : Journal F n} (silent : journal.Silent) : journal.Aloft :=
  fun entry member => Entry.lands_of_silent (silent entry member)

theorem Silent.recount {journal : Journal F n} (silent : journal.Silent) (count : Nat) :
    journal.recount count = count := by
  refine if_neg fun found => ?_
  obtain ⟨entry, member, restarts⟩ := List.any_eq_true.mp found
  rw [Entry.restarts_of_silent (silent entry member)] at restarts
  exact Bool.false_ne_true restarts

end Journal

/-! What is remembered of earlier iterations. -/

/-- The run length with the count of moves, and the window of best values with its count. -/
structure Memory (F : Type) where
  runLength : F
  sinceReset : Nat
  recentBests : List F
  sinceImprovement : Nat

namespace State

def memory (state : State F n) : Memory F where
  runLength := state.runLength
  sinceReset := state.sinceReset
  recentBests := state.recentBests
  sinceImprovement := state.sinceImprovement

variable [Scalar F] {kernels : Kernels F n} (state : State F n)

@[simp]
theorem restart_memory :
    (state.restart kernels).memory = { state.memory with sinceReset := 0 } := rfl

def Directed (kernels : Kernels F n) (state : State F n) : Prop :=
  state.slope kernels < 0 ∨ 0 < kernels.normSquared state.direction

theorem restart_directed {slope : F}
    (steepest : (state.restart kernels).steepestSlope? = some slope) :
    (state.restart kernels).Directed kernels := by
  rw [steepestSlope?] at steepest
  split at steepest
  · next length => exact .inr length
  · cases steepest

end State

/-! What asks without a remark. -/

def Caller.unheard {m : Type → Type} [Monad m] (caller : Caller m F n) : Caller m F n :=
  { caller with note := fun _ => pure () }

section Quiet

variable {m : Type → Type} [Monad m] [MonadExceptOf Fault m] {World : Type} [Execution m World]

def Quiet {A : Type} (program : StateT (Journal F n) m A) : Prop :=
  Keeps (fun before after => ∃ written, after.1 = before.1 ++ written ∧ Journal.Silent written)
    program

theorem quiet_lasting :
    Lasting fun before after : Journal F n × World =>
      ∃ written, after.1 = before.1 ++ written ∧ Journal.Silent written where
  refl _ := ⟨[], (List.append_nil _).symm, Journal.silent_nil⟩
  trans := by
    rintro before middle after ⟨written, first, silent⟩ ⟨more, second, further⟩
    exact ⟨written ++ more, by rw [second, first, List.append_assoc],
      Journal.silent_append silent further⟩

theorem quiet_congruent :
    Congruent fun A (program _ : StateT (Journal F n) m A) => Quiet program :=
  quiet_lasting.congruent

theorem record_quiet {A : Type} {program : m A} {entry : A → Entry F n}
    (silent : ∀ answer, (entry answer).isRemark = false) :
    Quiet (Caller.record program entry) := by
  intro before answer after ran
  exact ⟨[entry answer], (Caller.returns_record.mp ran).2,
    fun _ member => List.mem_singleton.mp member ▸ silent answer⟩

theorem unheard_quiet (caller : Caller m F n) :
    caller.recorded.unheard.Corresponds (fun _ program _ => Quiet program)
      caller.recorded.unheard where
  evaluate _ := record_quiet fun _ => rfl
  shouldStop _ _ _ := record_quiet fun _ => rfl
  isCancelled := record_quiet fun _ => rfl
  cancel := record_quiet fun _ => rfl
  note _ := quiet_congruent.pure ()

end Quiet

namespace Minimization

variable {m : Type → Type} [Monad m] [MonadExceptOf Fault m] {World : Type} [Execution m World]
variable [Unbounded F] {kernels : Kernels F n} {settings : Settings F} {caller : Caller m F n}
variable {before middle after : Journal F n × World} {iteration : Nat}
variable {state turned left : State F n}

/-! On the way to the landing. -/

/-- From one state to another without a landing. The memory stays, and the moves are counted anew
after a restart. -/
def Underway (state : State F n) (before : Journal F n × World) (left : State F n)
    (after : Journal F n × World) : Prop :=
  ∃ written, after.1 = before.1 ++ written ∧ written.Aloft ∧
    left.memory = { state.memory with sinceReset := written.recount state.sinceReset }

section Underway

omit [Monad m] [MonadExceptOf Fault m] [Execution m World] [Unbounded F]

theorem Underway.trans (first : Underway state before turned middle)
    (rest : Underway turned middle left after) : Underway state before left after := by
  obtain ⟨written, grown, aloft, memory⟩ := first
  obtain ⟨more, further, high, kept⟩ := rest
  refine ⟨written ++ more, ?_, Journal.aloft_append aloft high, ?_⟩
  · rw [further, grown, List.append_assoc]
  · have count : turned.sinceReset = written.recount state.sinceReset :=
      congrArg Memory.sinceReset memory
    rw [kept, memory, count, Journal.recount_append]

theorem Underway.quiet
    (quiet : ∃ written, after.1 = before.1 ++ written ∧ Journal.Silent written)
    (kept : left.memory = state.memory) : Underway state before left after := by
  obtain ⟨written, grown, silent⟩ := quiet
  refine ⟨written, grown, silent.aloft, ?_⟩
  rw [kept, silent.recount]
  rfl

theorem Underway.refl (kept : left.memory = state.memory) : Underway state before left before :=
  .quiet (quiet_lasting.refl before) kept

end Underway

omit [Unbounded F] in
theorem Underway.note {event : Event F}
    (notes : Returns (caller.recorded.note event) before () after)
    (aloft : (Entry.noted event : Entry F n).lands = false)
    (kept : left.memory =
      { state.memory with
        sinceReset := Journal.recount ([.noted event] : Journal F n) state.sinceReset }) :
    Underway state before left after :=
  ⟨_, (Caller.returns_record.mp notes).2, Journal.aloft_singleton aloft, kept⟩

theorem evaluateIterate_underway
    (ran : Returns (evaluateIterate caller.recorded state) before left after) :
    Underway state before left after := by
  refine .quiet (evaluateIterate_corresponds quiet_congruent (unheard_quiet caller) _ _ _ ran) ?_
  obtain ⟨_, _, _, rfl⟩ := evaluateIterate_returns ran
  rfl

theorem check_quiet {done : Nat} :
    Quiet (check kernels settings caller.recorded done state) :=
  check_corresponds quiet_congruent (unheard_quiet caller)

theorem downhill_underway {slope? : Option F}
    (ran : Returns (downhill kernels caller.recorded iteration state) before (slope?, left)
      after) : Underway state before left after := by
  rcases downhill_returns ran with ⟨_, _, rfl, rfl⟩ | ⟨_, notes, rfl, _⟩
  · exact .refl rfl
  · exact .note notes rfl (state.restart_memory)

theorem settle_underway {probe : Marked F n} {bestBefore : F} {keep : Bool}
    (ran : Returns (settle kernels caller.recorded iteration state probe bestBefore) before
      (keep, left) after) : Underway state before left after := by
  rcases settle_returns ran with ⟨_, _, rfl, notes⟩ | ⟨_, evaluated, _, evaluates, ends⟩
  · exact .note notes rfl rfl
  · refine (evaluateIterate_underway evaluates).trans ?_
    rcases ends with ⟨_, _, rfl, notes⟩ | ⟨_, _, rfl, notes⟩
    · exact .note notes rfl rfl
    · exact .note notes rfl (State.restart_memory _)

theorem searchSlope_underway {keep kept : Bool} {slope? : Option F}
    (ran : Returns (searchSlope kernels caller.recorded iteration state keep) before
      (kept, slope?, left) after) : Underway state before left after := by
  rcases searchSlope_returns ran with ⟨_, _, _, _, rfl, rfl⟩ | ⟨_, _, turns⟩
  · exact .refl rfl
  · exact downhill_underway turns

theorem look_underway {view : Probed F n}
    (looks : Returns (look kernels settings caller.recorded iteration state) before (.probed view)
      after) : Underway state before view.state after := by
  obtain ⟨turned, _, jitter, trail, turns, _, probes, viewed, _⟩ := look_probed looks
  refine (downhill_underway turns).trans (.quiet ?_ ?_)
  · exact probe_corresponds quiet_congruent (unheard_quiet caller) _ _ _ _ _ probes
  · rw [viewed]
    rfl

theorem plan_underway {planned : Plan F n}
    (plans : Returns (plan kernels settings caller.recorded iteration state) before planned
      after) : Underway state before planned.state after := by
  rcases plan_returns plans with ⟨turned, rfl, looks⟩ | ⟨view, _, looks, leaps | reconsiders⟩
  · exact downhill_underway (look_level looks)
  · obtain ⟨fit, rfl, rfl, _⟩ := leaps
    exact look_underway looks
  · obtain ⟨_, settled, _, _, slope?, turned, settles, turns, rfl⟩ := reconsider_returns reconsiders
    -- any of these three may have restarted, and the count forgets all but the last restart
    have reached := ((look_underway looks).trans (settle_underway settles)).trans
      (searchSlope_underway turns)
    cases slope? <;> exact reached

theorem search_quiet {start : State F n} {step : F} {bracket : Bracket F} {trail : Trail F n} :
    Quiet (search settings.tuning (probing kernels caller.recorded start) step bracket trail) :=
  quiet_lasting.keeps_search (probing_corresponds quiet_congruent (unheard_quiet caller))

/-! Ways down. -/

section Directions

variable {caller : Caller m F n} {before after : World}

theorem check_memory {done : Nat} {termination? : Option Termination}
    (checks : Returns (check kernels settings caller done state) before (termination?, left)
      after) :
    left.memory = state.memory ∧ left.directionNormSquared = state.directionNormSquared := by
  rcases check_left checks with rfl | ⟨_, _, evaluates⟩
  · exact ⟨rfl, rfl⟩
  · obtain ⟨_, _, _, rfl⟩ := evaluateIterate_returns evaluates
    exact ⟨rfl, rfl⟩

theorem downhill_directed {slope : F}
    (ran : Returns (downhill kernels caller iteration state) before (some slope, left) after) :
    left.Directed kernels := by
  rcases downhill_returns ran with ⟨descends, _, rfl, _⟩ | ⟨_, _, rfl, steepest⟩
  · exact .inl descends
  · exact state.restart_directed steepest.symm

theorem searchSlope_directed {keep kept : Bool} {slope : F}
    (ran : Returns (searchSlope kernels caller iteration state keep) before
      (kept, some slope, left) after) : left.Directed kernels := by
  rcases searchSlope_returns ran with ⟨_, descends, _, _, rfl, _⟩ | ⟨_, _, turns⟩
  · exact .inl descends
  · exact downhill_directed turns

theorem plan_directed {planned : Plan F n}
    (plans : Returns (plan kernels settings caller iteration state) before planned after) :
    (∃ resting, planned = .rest resting) ∨ planned.state.Directed kernels := by
  rcases plan_returns plans with ⟨turned, rfl, _⟩ | ⟨view, _, looks, leaps | reconsiders⟩
  · exact .inl ⟨turned, rfl⟩
  · obtain ⟨fit, rfl, _⟩ := leaps
    obtain ⟨turned, _, _, _, turns, _, _, viewed, _⟩ := look_probed looks
    have directed : turned.Directed kernels := downhill_directed turns
    right
    rw [Plan.state, viewed]
    exact directed
  · obtain ⟨_, _, _, _, slope?, turned, _, turns, rfl⟩ := reconsider_returns reconsiders
    cases slope? with
    | none => exact .inl ⟨turned, rfl⟩
    | some slope => exact .inr (searchSlope_directed turns)

theorem plan_restarted {resting : State F n}
    (plans : Returns (plan kernels settings caller iteration state) before (.rest resting) after) :
    ∃ worn : State F n, resting = worn.restart kernels := by
  -- whichever stage gives up, it does so in the same way
  have restarted {worn level : State F n} {first last : World}
      (turns : Returns (downhill kernels caller iteration worn) first (none, level) last) :
      level = worn.restart kernels := by
    rcases downhill_returns turns with ⟨_, impossible, _⟩ | ⟨_, _, same, _⟩
    · cases impossible
    · exact same
  rcases plan_returns plans with ⟨turned, same, looks⟩ | ⟨_, _, _, leaps | reconsiders⟩
  · obtain rfl := Plan.rest.inj same
    exact ⟨_, restarted (look_level looks)⟩
  · obtain ⟨_, impossible, _⟩ := leaps
    cases impossible
  · obtain ⟨_, settled, _, _, slope?, turned, _, turns, same⟩ := reconsider_returns reconsiders
    cases slope? with
    | some slope => cases same
    | none =>
      obtain rfl := Plan.rest.inj same
      rcases searchSlope_returns turns with ⟨_, _, _, impossible, _⟩ | ⟨_, _, turns⟩
      · cases impossible
      · exact ⟨_, restarted turns⟩

end Directions

/-! The landing. -/

def restartRemark (iteration : Nat) (restarted : Option Bool) : Journal F n :=
  restarted.toList.map fun scheduled => .noted (.restarting iteration scheduled)

/-- How an iteration lands, with its last remark. -/
inductive Lands (kernels : Kernels F n) (settings : Settings F) (caller : Caller m F n)
    (iteration : Nat) (state : State F n) (before : Journal F n × World) :
    State F n → Journal F n × World → Prop where
  | rests {resting : State F n} {after : Journal F n × World} :
      Returns (plan kernels settings caller.recorded iteration state) before (.rest resting)
        after →
      Lands kernels settings caller iteration state before resting.withoutDirection after
  | stays {start : State F n} {slope step : F} {kept : Option (Marked F n)} {tally : Tally F n}
      {entered middle after : Journal F n × World} {exit : Exit} {probes : Nat} :
      Returns (plan kernels settings caller.recorded iteration state) before
        (.explore start slope kept step) entered →
      Underway state before start middle →
      after.1 = middle.1 ++ [.noted (.noProgress iteration exit probes)] →
      Lands kernels settings caller iteration state before
        ((State.restart kernels
          { start with tally, step := step / settings.tuning.maxStepGrowth }).noteProgress
            settings) after
  | moves {moved : State F n} {line : Record F n} {target : State.Move F n}
      {middle after : Journal F n × World} :
      moved.Directed kernels →
      Underway state before moved middle →
      after.1 = middle.1 ++
        restartRemark iteration (moved.advance kernels settings line target).restarted →
      Lands kernels settings caller iteration state before
        (moved.advance kernels settings line target).state after

theorem move_journal {line : Record F n} {target : State.Move F n}
    (ran : Returns (move kernels settings caller.recorded iteration state line target) before left
      after) :
    left = (state.advance kernels settings line target).state ∧
      after.1 = before.1 ++
        restartRemark iteration (state.advance kernels settings line target).restarted := by
  obtain ⟨same, notes⟩ := move_returns ran
  refine ⟨same, ?_⟩
  rcases notes with ⟨turns, rfl⟩ | ⟨scheduled, restarts, notes⟩
  · rw [turns]
    exact (List.append_nil _).symm
  · rw [restarts, (Caller.returns_record.mp notes).2]
    rfl

theorem iterate_lands [LawfulMonad m]
    (iterates : Returns (iterate kernels settings caller.recorded iteration state) before left
      after) : Lands kernels settings caller iteration state before left after := by
  rw [iterate_eq_stride] at iterates
  obtain ⟨landing, next, strides, finishes⟩ := returns_bind.mp iterates
  obtain ⟨planned, entered, plans, lands⟩ := returns_bind.mp strides
  have underway := plan_underway plans
  have directed := plan_directed plans
  cases planned with
  | rest resting =>
    obtain ⟨rfl, rfl⟩ := returns_pure.mp lands
    obtain ⟨rfl, rfl⟩ := returns_pure.mp finishes
    exact .rests plans
  | leap view fit =>
    obtain ⟨rfl, rfl⟩ := returns_pure.mp lands
    obtain ⟨rfl, grown⟩ := move_journal finishes
    rcases directed with ⟨_, impossible⟩ | directed
    · cases impossible
    · exact .moves directed underway grown
  | explore start slope kept step =>
    obtain ⟨_, found, trail, searched, _, searches, ends⟩ := land_explore lands
    -- a search asks for values but remarks nothing, whatever comes of it
    have quiet := search_quiet _ _ _ searches
    rcases ends with ⟨_, rfl, rfl⟩ | ⟨notes, rfl⟩
    · obtain ⟨rfl, grown⟩ := move_journal finishes
      rcases directed with ⟨_, impossible⟩ | directed
      · cases impossible
      · exact .moves directed (underway.trans (.quiet quiet rfl)) grown
    · obtain ⟨rfl, rfl⟩ := returns_pure.mp finishes
      exact .stays plans (underway.trans (.quiet quiet rfl))
        (Caller.returns_record.mp notes).2

end Minimization

end Descent

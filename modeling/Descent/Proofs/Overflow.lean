import Descent.Proofs.Binary
import Descent.Proofs.Budget
import Descent.Proofs.Continuation
import Descent.Proofs.Fitting

/-!
Where counts overflow. Every count but that of the evaluations is bounded by something: the
counters of a bracket by the evaluations, the counters of a state by the iterations, the iterations
of a run by their limit and by the evaluations as well. So while the evaluations stay in a word all
other counts do, and the checks of the others are never failed. What can be too large is the room
that is laid out for a limit before anything is counted.
-/

namespace Descent

open Scalar Execution

/-! Counters of a state. -/

namespace State

variable {F : Type} [Scalar F] {n : ℕ} {kernels : Kernels F n} {settings : Settings F}
variable {limit : ℕ} {state : State F n}

structure Within (limit : ℕ) (state : State F n) : Prop where
  reset : state.sinceReset ≤ limit
  improvement : state.sinceImprovement ≤ limit

theorem Within.restart (within : state.Within limit) : (state.restart kernels).Within limit :=
  ⟨Nat.zero_le limit, within.improvement⟩

theorem Within.noteProgress (within : state.Within limit) :
    (state.noteProgress settings).Within (limit + 1) := by
  refine ⟨Nat.le_succ_of_le within.reset, ?_⟩
  unfold State.noteProgress
  dsimp only
  split
  · exact Nat.zero_le _
  · exact Nat.succ_le_succ within.improvement

theorem turn_sinceReset (beta : F) :
    (state.turn kernels settings beta).state.sinceReset ≤ state.sinceReset := by
  unfold turn
  dsimp only
  split
  · split <;> exact Nat.zero_le _
  · split
    · exact le_rfl
    · exact Nat.zero_le _

theorem Within.advance (within : state.Within limit) (line : Record F n) (target : Move F n) :
    (state.advance kernels settings line target).state.Within (limit + 1) := by
  constructor
  · refine (turn_sinceReset _).trans ?_
    exact Nat.succ_le_succ within.reset
  · rw [(advance_notes kernels settings state line target).sinceImprovement]
    split
    · exact Nat.zero_le _
    · exact Nat.succ_le_succ within.improvement

/-- After so many iterations there were as many evaluations, and one more unless the direction is
gone. -/
structure Paid (done : ℕ) (state : State F n) : Prop where
  within : state.Within done
  counted : done ≤ state.tally.evaluations
  ahead : ¬ isZero state.directionNormSquared = true → done < state.tally.evaluations

structure Ahead (limit evaluated : ℕ) (state : State F n) : Prop where
  within : state.Within limit
  ahead : evaluated < state.tally.evaluations

theorem Ahead.paid {done : ℕ} (ahead : state.Ahead done done) : state.Paid done :=
  ⟨ahead.within, ahead.ahead.le, fun _ => ahead.ahead⟩

end State

/-! Stages of an iteration. Only a line without a way down is not probed. -/

namespace Minimization

variable {F : Type} [Scalar F] {n : ℕ}

def Outlook.Ahead (limit : ℕ) : Outlook F n → Prop
  | .level state => state.Ahead limit limit
  | .probed view => view.state.Ahead limit (limit + 1)

def Plan.Ahead (limit : ℕ) : Plan F n → Prop
  | .rest state => state.Ahead limit limit
  | .leap view _ => view.state.Ahead limit (limit + 1)
  | .explore state _ _ _ => state.Ahead limit (limit + 1)

def Landing.Ahead (limit : ℕ) : Landing F n → Prop
  | .stays left => left.Paid (limit + 1)
  | .moves state _ _ => state.Ahead limit (limit + 1)

end Minimization

namespace Checks

section Parts

variable {m : Type → Type} [Monad m] [LawfulMonad m] [MonadExceptOf Fault m] [Aborting m]
variable {World : Type} [Execution m World] {F : Type} [Unbounded F] {n : ℕ}
variable {kernels : Kernels F n} {settings : Settings F} {caller : Caller m F n}
variable {limit least iteration : ℕ} {state : State F n}

/-! One iteration. -/

/-- The one count that may be refused, which is then refused with and without the other checks. -/
theorem sum_fits (a b : ℕ) :
    Fitting (m := m) id (· = a + b) a fun checks =>
      MonadExcept.ofExcept (checks.sum .evaluations a b) where
  agrees next next' _ same := by
    by_cases fits : a + b < Nat.pow 2 64
    · rw [sum_eq (fits_of_lt fits), sum_eq (fits_of_lt fits)]
      simp only [ofExcept_ok, pure_bind]
      exact same _ rfl (Nat.le_add_right a b) fits
    · rw [sum_overflow rfl fits, sum_overflow rfl fits]
      exact (Aborting.throw_bind _ next).trans (Aborting.throw_bind _ next').symm
  known ran := by
    obtain rfl := Except.ok.inj (returns_ofExcept.mp ran).1
    exact ⟨rfl, Nat.le_add_right a b⟩
  returns ran fits := by
    obtain ⟨same, rfl⟩ := returns_ofExcept.mp ran
    obtain rfl := Except.ok.inj same
    exact returns_ofExcept.mpr ⟨sum_eq (fits_of_lt fits), rfl⟩

theorem evaluate_fits {tally : Tally F n} (counted : tally.evaluations = least)
    (point : Vector F n) :
    Fitting (fun answer => answer.2.evaluations)
      (fun answer => answer.2.evaluations = least + 1) least
      fun checks => checks.evaluate caller tally point := by
  subst counted
  refine (sum_fits tally.evaluations 1).bind fun evaluations same _ => ?_
  exact (Fitting.ask _).bind fun _ _ _ => Fitting.pure same rfl

theorem evaluateIterate_fits (within : state.Within limit)
    (counted : state.tally.evaluations = least) :
    Fitting (fun left => left.tally.evaluations)
      (fun left => left.Within limit ∧ left.tally.evaluations = least + 1) least
      fun checks => checks.evaluateIterate caller state :=
  (evaluate_fits counted state.x).bind fun _ once _ =>
    Fitting.pure ⟨⟨within.reset, within.improvement⟩, once⟩ rfl

theorem probe_fits (step : F) {trail : Trail F n} (counted : trail.tally.evaluations = least) :
    Fitting (fun answer => answer.2.tally.evaluations)
      (fun answer => answer.2.tally.evaluations = least + 1) least
      fun checks => checks.probe kernels caller state step trail :=
  (evaluate_fits counted _).bind fun _ once _ => Fitting.pure once rfl

theorem probing_fits (step : F) {trail : Trail F n} (counted : trail.tally.evaluations = least) :
    Fitting (fun answer => answer.2.tally.evaluations)
      (fun answer => answer.2.tally.evaluations = least + 1) least
      fun checks => checks.probing kernels caller state step trail :=
  (probe_fits step counted).bind fun _ once _ => Fitting.pure once rfl

omit [Aborting m] in
theorem downhill_fits (within : state.Within limit) (counted : state.tally.evaluations = least) :
    Fitting (fun answer => answer.2.tally.evaluations) (fun answer => answer.2.Within limit) least
      fun _ => Minimization.downhill kernels caller iteration state := by
  refine Fitting.ite (fun _ => Fitting.pure within counted) fun _ => ?_
  exact (Fitting.ask _).bind fun _ _ _ => Fitting.pure within.restart counted

omit [Aborting m] in
theorem move_fits (within : state.Within limit) (fits : limit + 1 < Nat.pow 2 64)
    (counted : state.tally.evaluations = least) (line : Record F n) (target : State.Move F n) :
    Fitting (fun left => left.tally.evaluations) (State.Within (limit + 1)) least
      fun checks => checks.move kernels settings caller iteration state line target := by
  have advances (checks : Checks) : checks.advance kernels settings state line target =
      .ok (state.advance kernels settings line target) :=
    advance_eq (fits_of_lt fits) within.reset within.improvement
  have kept := congrArg Position.tally (state.advance_position kernels settings line target)
  refine (Fitting.count fun checks _ => advances checks).bind ?_
  rintro _ rfl -
  have moved : (state.advance kernels settings line target).state.Within (limit + 1) :=
    within.advance line target
  have counted := (congrArg Tally.evaluations kept).trans counted
  dsimp only
  cases (state.advance kernels settings line target).restarted with
  | some scheduled => exact (Fitting.ask _).bind fun _ _ _ => Fitting.pure moved counted
  | none => exact Fitting.pure moved counted

omit [Aborting m] in
theorem noteProgress_fits (within : state.Within limit) (fits : limit + 1 < Nat.pow 2 64)
    (counted : state.tally.evaluations = least) :
    Fitting (m := m) (fun left => left.tally.evaluations) (State.Within (limit + 1)) least
      fun checks => MonadExcept.ofExcept (checks.noteProgress settings state) := by
  have noted (checks : Checks) : checks.noteProgress settings state =
      .ok (state.noteProgress settings) := noteProgress_eq (fits_of_lt fits) within.improvement
  simp only [noted]
  exact Fitting.pure within.noteProgress counted

theorem settle_fits (within : state.Within limit) (counted : state.tally.evaluations = least)
    (probe : Marked F n) (bestBefore : F) :
    Fitting (fun answer => answer.2.tally.evaluations) (fun answer => answer.2.Within limit) least
      fun checks =>
        (checks.engine kernels settings caller).settle iteration state probe bestBefore := by
  dsimp only [Minimization.Engine.settle, engine]
  refine Fitting.ite (fun _ => ?_) fun _ => ?_
  · exact (Fitting.ask _).bind fun _ _ _ => Fitting.pure within counted
  · refine (evaluateIterate_fits within counted).bind fun evaluated paid _ => ?_
    refine Fitting.ite (fun _ => ?_) fun _ => ?_
    · exact (Fitting.ask _).bind fun _ _ _ => Fitting.pure paid.1 rfl
    · have back : (Minimization.backOut kernels evaluated).Within limit :=
        ⟨Nat.zero_le limit, paid.1.improvement⟩
      exact (Fitting.ask _).bind fun _ _ _ => Fitting.pure back rfl

omit [Aborting m] in
theorem searchSlope_fits (within : state.Within limit)
    (counted : state.tally.evaluations = least) (keep : Bool) :
    Fitting (fun answer => answer.2.2.tally.evaluations)
      (fun answer => answer.2.2.Within limit) least
      fun _ => Minimization.searchSlope kernels caller iteration state keep := by
  refine Fitting.ite (fun _ => Fitting.pure within counted) fun _ => ?_
  exact (downhill_fits within counted).bind fun _ turned _ => Fitting.pure turned rfl

theorem search_fits {tuning : Tuning F} {firstStep : F} {bracket : Bracket F} {trail : Trail F n}
    {least : ℕ} (counted : trail.tally.evaluations = least) (below : bracket.Below least)
    (probes : bracket.probes ≤ least) :
    Fitting (fun answer => answer.2.tally.evaluations) (fun _ => True) least
      fun checks => checks.search tuning (checks.probing kernels caller state) firstStep bracket
        trail := by
  cases exits : bracket.exit? tuning with
  | some exit => exact Fitting.of_eq (fun _ => search_stops exits) (Fitting.pure trivial counted)
  | none =>
    refine Fitting.of_eq (fun _ => search_steps exits) ?_
    refine (probing_fits _ counted).bind fun answer once _ => ?_
    have absorbed (checks : Checks) (fits : checks.Fits answer.2.tally.evaluations) :
        checks.absorb tuning bracket answer.1 (bracket.next tuning firstStep).2 =
          .ok (bracket.absorb tuning answer.1 (bracket.next tuning firstStep).2) :=
      absorb_eq (once ▸ fits) below probes _ _
    have below' : (bracket.absorb tuning answer.1 (bracket.next tuning firstStep).2).Below
        answer.2.tally.evaluations := by
      rw [once]
      exact below.absorb _ _
    have probes' : (bracket.absorb tuning answer.1 (bracket.next tuning firstStep).2).probes ≤
        answer.2.tally.evaluations := by
      rw [once, Bracket.absorb_probes]
      exact Nat.succ_le_succ probes
    exact (Fitting.count absorbed).bind fun _ _ _ => search_fits rfl below' probes'
termination_by tuning.maxProbes - bracket.probes
decreasing_by
  have limited := bracket.probes_lt_of_exit?_none tuning exits
  rw [Bracket.absorb_probes]
  omega

omit [Monad m] [LawfulMonad m] [MonadExceptOf Fault m] [Aborting m] [Execution m World] in
theorem create_below {start : Sample F} {opened : Bracket F}
    (opens : Bracket.create start = .ok opened) : opened.Below 0 := by
  obtain ⟨_, rfl⟩ := Bracket.eq_of_create opens
  exact ⟨le_rfl, le_rfl, le_rfl, le_rfl⟩

omit [Monad m] [LawfulMonad m] [MonadExceptOf Fault m] [Aborting m] [Execution m World] in
theorem opening_below (tuning : Tuning F) {start : Sample F} {opened : Bracket F}
    (opens : Bracket.create start = .ok opened) (fresh : Record F n) (kept : Option (Marked F n)) :
    (Minimization.opening tuning opened fresh kept).2.Below 1 := by
  cases kept with
  | none => exact (create_below opens).le (Nat.zero_le 1)
  | some probe => exact (create_below opens).merge probe.sample false

theorem look_fits (within : state.Within limit) (ahead : limit < least)
    (counted : state.tally.evaluations = least) :
    Fitting (fun outlook => outlook.state.tally.evaluations) (Minimization.Outlook.Ahead limit)
      least fun checks => (checks.engine kernels settings caller).look iteration state := by
  refine (downhill_fits within counted).bind fun turned kept more => ?_
  obtain ⟨slope?, turned⟩ := turned
  have ahead : limit < turned.tally.evaluations := ahead.trans_le more
  cases slope? with
  | none => exact Fitting.pure ⟨kept, ahead⟩ rfl
  | some slope =>
    obtain ⟨jitter, stepping⟩ := turned.probeStep_eq settings
    dsimp only [engine]
    rw [stepping]
    refine (probe_fits _ (rfl : turned.tally.evaluations = _)).bind fun probed once _ => ?_
    exact Fitting.pure ⟨⟨kept.reset, kept.improvement⟩, once.symm ▸ Nat.succ_lt_succ ahead⟩ rfl

theorem reconsider_fits {view : Minimization.Probed F n}
    (ahead : view.state.Ahead limit (limit + 1))
    (counted : view.state.tally.evaluations = least) :
    Fitting (fun planned => planned.state.tally.evaluations) (Minimization.Plan.Ahead limit) least
      fun checks => (checks.engine kernels settings caller).reconsider iteration view := by
  dsimp only [Minimization.Engine.reconsider, engine]
  refine (settle_fits ahead.within counted view.probe view.bestBefore).bind fun settled kept more =>
    ?_
  refine (searchSlope_fits kept rfl settled.1).bind fun turned kept more' => ?_
  obtain ⟨keep, slope?, left⟩ := turned
  have past : limit + 1 < left.tally.evaluations :=
    ahead.ahead.trans_le ((counted.trans_le more).trans more')
  cases slope? with
  | none => exact Fitting.pure ⟨kept, Nat.lt_of_succ_lt past⟩ rfl
  | some slope => exact Fitting.pure ⟨kept, past⟩ rfl

theorem decide_fits {outlook : Minimization.Outlook F n} (ahead : outlook.Ahead limit)
    (counted : outlook.state.tally.evaluations = least) :
    Fitting (fun planned => planned.state.tally.evaluations) (Minimization.Plan.Ahead limit) least
      fun checks => (checks.engine kernels settings caller).decide iteration outlook := by
  cases outlook with
  | level state => exact Fitting.pure ahead counted
  | probed view =>
    dsimp only [Minimization.Engine.decide, engine, Minimization.Outlook.state] at counted ⊢
    cases Minimization.fit? kernels settings view.state view.slope view.probe with
    | some fit => exact Fitting.pure ahead counted
    | none => exact reconsider_fits ahead counted

theorem land_fits [Lawful F] {planned : Minimization.Plan F n} (ahead : planned.Ahead limit)
    (fits : limit + 1 < Nat.pow 2 64) (counted : planned.state.tally.evaluations = least) :
    Fitting (fun landing => landing.state.tally.evaluations) (Minimization.Landing.Ahead limit)
      least fun checks => (checks.engine kernels settings caller).land iteration planned := by
  cases planned with
  | rest resting =>
    have zero : isZero (0 : F) = true :=
      Lawful.beq_iff.mpr ⟨Lawful.zero_defined, Lawful.zero_defined⟩
    refine Fitting.pure ⟨?_, ahead.ahead, fun directed => absurd zero directed⟩ counted
    exact ⟨Nat.le_succ_of_le ahead.within.reset, Nat.le_succ_of_le ahead.within.improvement⟩
  | leap view fit =>
    dsimp only [Minimization.Engine.land, engine]
    exact Fitting.pure ahead counted
  | explore start slope kept step =>
    dsimp only [Minimization.Engine.land, engine]
    refine (Fitting.refuse fun _ opens => opens).bind fun opened opens _ => ?_
    generalize Record.create (Sample.make 0 start.value slope) start.gradient = fresh
    have starts (checks : Checks) : checks.opening settings.tuning opened fresh kept =
        .ok (Minimization.opening settings.tuning opened fresh kept) :=
      opening_eq (fits_of_lt (by decide)) (create_below opens) fresh kept
    have some : 0 < least := (Nat.zero_lt_of_lt ahead.ahead).trans_eq counted
    have below := (opening_below settings.tuning opens fresh kept).le some
    have unprobed : (Minimization.opening settings.tuning opened fresh kept).2.probes = 0 :=
      Minimization.opening_probes opens fresh kept
    refine (Fitting.count fun checks _ => starts checks).bind ?_
    rintro _ rfl -
    refine (search_fits counted below (unprobed.trans_le (Nat.zero_le _))).bind
      fun found _ more => ?_
    have past : limit + 1 < found.2.tally.evaluations :=
      ahead.ahead.trans_le (counted.trans_le more)
    have searched : State.Within limit { start with tally := found.2.tally } :=
      ⟨ahead.within.reset, ahead.within.improvement⟩
    refine Fitting.ite (fun _ => Fitting.pure ⟨searched, past⟩ rfl) fun _ => ?_
    have stepped : State.Within limit
        { start with tally := found.2.tally, step := step / settings.tuning.maxStepGrowth } :=
      ⟨ahead.within.reset, ahead.within.improvement⟩
    refine (Fitting.ask _).bind fun _ _ _ => ?_
    refine (noteProgress_fits stepped.restart fits rfl).bind fun left within more => ?_
    exact Fitting.pure (State.Ahead.paid ⟨within, past.trans_le more⟩) rfl

omit [Aborting m] in
theorem finish_fits {landing : Minimization.Landing F n} (ahead : landing.Ahead limit)
    (fits : limit + 1 < Nat.pow 2 64) (counted : landing.state.tally.evaluations = least) :
    Fitting (fun left => left.tally.evaluations) (State.Paid (limit + 1)) least
      fun checks => (checks.engine kernels settings caller).finish iteration landing := by
  cases landing with
  | stays left => exact Fitting.pure ahead counted
  | moves state line target =>
    refine (move_fits ahead.within fits counted line target).weaken fun left within more => ?_
    exact State.Ahead.paid ⟨within, ahead.ahead.trans_le (counted.trans_le more)⟩

theorem iterate_fits [Lawful F] (within : state.Within limit) (fits : limit + 1 < Nat.pow 2 64)
    (ahead : limit < least) (counted : state.tally.evaluations = least) :
    Fitting (fun left => left.tally.evaluations) (State.Paid (limit + 1)) least
      fun checks => (checks.engine kernels settings caller).iterate iteration state := by
  refine Fitting.bind ?_ fun landing ahead _ => finish_fits ahead fits rfl
  refine Fitting.bind ?_ fun planned ahead _ => land_fits ahead fits rfl
  exact (look_fits within ahead counted).bind fun outlook ahead _ => decide_fits ahead rfl

/-! Runs. -/

theorem confirm_fits (paid : state.Paid limit) (counted : state.tally.evaluations = least) :
    Fitting (fun left => left.tally.evaluations) (State.Paid limit) least
      fun checks => (checks.engine kernels settings caller).confirm state := by
  change Fitting _ _ _ fun checks =>
    if ¬ state.real ∧
        kernels.normSquared state.gradient ≤ Minimization.toleranceSquared settings state then
      checks.evaluateIterate caller state
    else pure state
  refine Fitting.ite (fun _ => ?_) fun _ => Fitting.pure paid counted
  refine (evaluateIterate_fits paid.within counted).weaken fun left known _ => ?_
  have past : limit < left.tally.evaluations := by
    rw [known.2, ← counted]
    exact Nat.lt_succ_of_le paid.counted
  exact ⟨known.1, past.le, fun _ => past⟩

theorem check_fits (done : ℕ) (paid : state.Paid limit)
    (counted : state.tally.evaluations = least) :
    Fitting (fun answer => answer.2.tally.evaluations)
      (fun answer => answer.2.Paid limit ∧
        (answer.1 = none → limit < answer.2.tally.evaluations)) least
      fun checks => (checks.engine kernels settings caller).check done state := by
  dsimp only [Minimization.Engine.check, engine]
  have stops (termination : Termination) : Fitting (m := m)
      (fun answer : Option Termination × State F n => answer.2.tally.evaluations)
      (fun answer => answer.2.Paid limit ∧
        (answer.1 = none → limit < answer.2.tally.evaluations)) least
      fun _ => pure (some termination, state) :=
    Fitting.pure ⟨paid, nofun⟩ counted
  refine (Fitting.ask _).bind fun _ _ _ => Fitting.ite (fun _ => stops _) fun _ => ?_
  refine (Fitting.ask _).bind fun _ _ _ => Fitting.ite (fun _ => ?_) fun _ => ?_
  · exact (Fitting.ask _).bind fun _ _ _ => stops _
  · refine Fitting.ite (fun _ => stops _) fun _ => ?_
    refine (confirm_fits paid counted).bind fun confirmed paid _ => Fitting.pure ⟨paid, ?_⟩ rfl
    exact fun goesOn => paid.ahead (Minimization.directed_of_verdict? goesOn)

omit [Aborting m] in
theorem goOn_fits {done : ℕ} (fits : done + 1 < Nat.pow 2 64) :
    Fitting (fun _ => least) (fun _ => True) least
      fun checks => (checks.engine kernels settings caller).goOn done :=
  (Fitting.count fun _ _ => sum_eq (fits_of_lt fits)).bind fun _ _ _ => Fitting.pure trivial rfl

theorem run_fits [Lawful F] (limited : settings.maxIterations < Nat.pow 2 64) {done least : ℕ}
    {state : State F n} (paid : state.Paid done) (counted : state.tally.evaluations = least) :
    Fitting (fun ended => ended.state.tally.evaluations)
      (fun ended => ended.iterations ≤ ended.state.tally.evaluations) least
      fun checks => (checks.engine kernels settings caller).run done state := by
  unfold Minimization.Engine.run
  refine (check_fits done paid counted).bind fun checked known _ => ?_
  obtain ⟨termination?, checked⟩ := checked
  cases termination? with
  | some termination => exact Fitting.pure known.1.counted rfl
  | none =>
    by_cases more : done < settings.maxIterations
    · refine Fitting.of_eq (fun _ => if_pos more) ?_
      have fits : done + 1 < Nat.pow 2 64 := Nat.lt_of_le_of_lt more limited
      refine (goOn_fits fits).bind fun _ _ _ => ?_
      refine (iterate_fits known.1.within fits (known.2 rfl) rfl).bind fun next paid _ => ?_
      exact (Fitting.ask (caller.note _)).bind fun _ _ _ => run_fits limited paid rfl
    · refine Fitting.of_eq (fun _ => if_neg more) ?_
      exact (Fitting.ask caller.cancel).bind fun _ _ _ => Fitting.pure known.1.counted rfl
termination_by settings.maxIterations - done

theorem reserve_ok {count bytes : ℕ} (room : Descent.reserve count bytes = .ok ())
    (checks : Checks) : checks.reserve count bytes = .ok () := by
  unfold reserve
  split
  · exact room
  · rfl

theorem lt_of_reserve {count bytes : ℕ} (room : Descent.reserve count bytes = .ok ()) :
    count < Nat.pow 2 64 := by
  rw [Descent.reserve] at room
  split at room
  · next enough => exact enough.1
  · cases room

theorem start_fits (room : settings.Addressable) (x : Vector F n) :
    Fitting (fun started => started.tally.evaluations) (State.Paid 0) 0
      fun checks => checks.start kernels settings caller x := by
  have fits : settings.tuning.stagnationWindow + 1 < Nat.pow 2 64 := lt_of_reserve room.window
  refine (evaluate_fits (rfl : (Tally.create x).evaluations = 0) x).bind fun answer once _ => ?_
  refine (Fitting.count fun _ _ => sum_eq (fits_of_lt fits)).bind ?_
  rintro _ rfl -
  refine (Fitting.count fun checks _ => reserve_ok room.window checks).bind fun _ _ _ => ?_
  have past : 0 < answer.2.evaluations := once.symm ▸ Nat.one_pos
  exact Fitting.pure ⟨⟨le_rfl, le_rfl⟩, past.le, fun _ => past⟩ rfl

theorem conclude_fits {ended : Minimization.Ended F n}
    (paid : ended.iterations ≤ ended.state.tally.evaluations)
    (counted : ended.state.tally.evaluations = least) :
    Fitting (fun answer => answer.2.evaluations)
      (fun answer => answer.2.iterations ≤ answer.2.evaluations) least
      fun checks => (checks.engine kernels settings caller).conclude ended := by
  dsimp only [Minimization.Engine.conclude, engine]
  have rests : Fitting (m := m) (fun state => state.tally.evaluations)
      (fun state => ended.iterations ≤ state.tally.evaluations) least fun _ => pure ended.state :=
    Fitting.pure paid counted
  have evaluates : Fitting (fun state => state.tally.evaluations)
      (fun state => ended.iterations ≤ state.tally.evaluations) least
      fun checks => checks.evaluateIterate caller ended.state :=
    (evaluate_fits counted ended.state.x).bind fun _ _ more =>
      Fitting.pure ((paid.trans_eq counted).trans more) rfl
  refine Fitting.ite (fun _ => rests.bind ?_) fun _ => evaluates.bind ?_
  all_goals
    intro state paid _
    refine Fitting.ite (fun _ => ?_) fun _ => ?_
    · exact (Fitting.ask _).bind fun _ _ _ => Fitting.pure paid rfl
    · refine (Fitting.ask _).bind fun _ _ _ => (Fitting.ask _).bind fun _ _ _ => ?_
      exact Fitting.pure paid rfl

theorem create_eq {threads length : ℕ} (room : Descent.reserve threads spanBytes = .ok ())
    (addressed : length < Nat.pow 2 64) (checks : Checks) :
    checks.create threads length = Context.create threads length := by
  have cuts : checks.cut length threads = .ok () := by
    have words := Span.cutWords_eq addressed 0 (Nat.zero_le length) threads
    rw [Nat.zero_add, ← List.range_eq_range'] at words
    simp only [cut, words, ite_self]
  rw [← roomOnly_create, create, create, reserve_ok room, reserve_ok room, cuts]
  rfl

theorem minimize_fits [Lawful F] (room : settings.Addressable)
    (limited : settings.maxIterations < Nat.pow 2 64) (addressed : n < Nat.pow 2 64)
    (runner : Runner) (x : Vector F n) :
    Fitting (fun answer => answer.2.evaluations)
      (fun answer => answer.2.iterations ≤ answer.2.evaluations) 0
      fun checks => checks.minimize settings caller runner x := by
  unfold minimize
  simp only [create_eq room.spans addressed]
  refine (Fitting.ask _).bind fun _ _ _ => (start_fits room x).bind fun started paid _ => ?_
  exact (run_fits limited paid rfl).bind fun ended paid _ => conclude_fits paid rfl

end Parts

/-! Solves. -/

section Solves

variable {m : Type → Type} [Monad m] [LawfulMonad m] [MonadExceptOf Fault m] [Aborting m]
variable {World : Type} [Execution m World]

/-- Where the smaller total does not fit the larger one does not either, and it is the same fault
that ends the program. -/
theorem totals_fit {A : Type} {size : A → ℕ} {Known : A → Prop} {a b c d : ℕ} (less : a ≤ c)
    (fewer : b ≤ d) {next : Checks → ℕ → ℕ → m A}
    (rest : Fitting size Known (c + d) fun checks => next checks (a + b) (c + d)) :
    Fitting size Known d fun checks =>
      MonadExcept.ofExcept (checks.sum .innerIterations a b) >>= fun inner =>
        MonadExcept.ofExcept (checks.sum .totalEvaluations c d) >>= next checks inner := by
  have sums (checks : Checks) (fits : checks.Fits (c + d)) :
      (MonadExcept.ofExcept (checks.sum .innerIterations a b) >>= fun inner =>
        MonadExcept.ofExcept (checks.sum .totalEvaluations c d) >>= next checks inner) =
        next checks (a + b) (c + d) := by
    rw [sum_eq (fits.le (Nat.add_le_add less fewer)), sum_eq fits]
    simp only [ofExcept_ok, pure_bind]
  constructor
  case agrees =>
    intro B last last' begins same
    by_cases fits : c + d < Nat.pow 2 64
    · rw [sums _ (fits_of_lt fits), sums _ (fits_of_lt fits)]
      refine rest.agrees last last' fits fun answer known more => same answer known ?_
      exact (Nat.le_add_left d c).trans more
    · have refused (checks : Checks) (checked : checks.words .totalEvaluations = true)
          (last : A → m B) :
          (MonadExcept.ofExcept (checks.sum .innerIterations a b) >>= fun inner =>
            MonadExcept.ofExcept (checks.sum .totalEvaluations c d) >>= next checks inner) >>=
              last = throw .capacity := by
        rw [sum_overflow checked fits]
        rcases sum_cases checks .innerIterations a b with same | same
        · rw [same, ofExcept_ok, pure_bind, ofExcept_error, Aborting.throw_bind,
            Aborting.throw_bind]
        · rw [same, ofExcept_error, Aborting.throw_bind, Aborting.throw_bind]
      exact (refused _ rfl last).trans (refused _ rfl last').symm
  case known =>
    intro before after answer ran
    rw [sums _ (roomOnly_fits _)] at ran
    exact ⟨(rest.known ran).1, (Nat.le_add_left d c).trans (rest.known ran).2⟩
  case returns =>
    intro before after answer ran fits
    rw [sums _ (roomOnly_fits _)] at ran
    rw [sums _ (fits_of_lt ((rest.known ran).2.trans_lt fits))]
    exact rest.returns ran fits

variable {F : Type} [Unbounded F] {n : ℕ} {settings : PenaltySettings F} {watch : Watch m F}

structure Counted (done : ℕ) (progress : Penalty.Progress m F n) : Prop where
  outer : progress.outerIterations = done
  inner : progress.innerIterations ≤ progress.evaluations

theorem minimizeOnce_fits [Lawful F] (room : settings.inner.Addressable)
    (limited : settings.innerIterations < Nat.pow 2 64) (addressed : n < Nat.pow 2 64)
    (runner : Runner) {done : ℕ} (fits : done + 1 < Nat.pow 2 64)
    {progress : Penalty.Progress m F n} (counted : Counted done progress) :
    Fitting (fun answer => answer.2.evaluations)
      (fun answer => Counted (done + 1) answer.2 ∧ progress.evaluations ≤ answer.2.evaluations)
      progress.evaluations
      fun checks => checks.minimizeOnce settings runner watch progress := by
  have minimizes : Fitting (fun answer => answer.2.evaluations)
      (fun answer => answer.2.iterations ≤ answer.2.evaluations) 0
      fun checks =>
        checks.minimize settings.inner (Penalty.innerCaller watch) runner progress.x :=
    minimize_fits room limited addressed runner progress.x
  refine Fitting.onward ?_ fun _ known => known.2
  refine (minimizes.run { problem := progress.problem, token := .fresh }).bind
    fun answer within _ => ?_
  have outer : progress.outerIterations + 1 < Nat.pow 2 64 := counted.outer.symm ▸ fits
  refine (Fitting.count fun _ _ => sum_eq (fits_of_lt outer)).bind ?_
  rintro _ rfl -
  refine totals_fit counted.inner within ?_
  refine (Fitting.ask _).bind fun _ _ _ => Fitting.pure ⟨?_, Nat.le_add_right _ _⟩ rfl
  exact ⟨congrArg (· + 1) counted.outer, Nat.add_le_add counted.inner within⟩

theorem outerFrom_fits [Lawful F] (room : settings.inner.Addressable)
    (limited : settings.innerIterations < Nat.pow 2 64)
    (outer : settings.outerIterations < Nat.pow 2 64) (addressed : n < Nat.pow 2 64)
    (runner : Runner) (done : ℕ) {progress : Penalty.Progress m F n} {least : ℕ}
    (counted : Counted done progress) (same : progress.evaluations = least) :
    Fitting (fun last => last.evaluations) (fun _ => True) least
      fun checks => (checks.cycle settings runner watch).outerFrom done progress := by
  subst same
  unfold Penalty.Cycle.outerFrom
  by_cases more : done < settings.outerIterations
  · refine Fitting.of_eq (fun _ => if_pos more) ?_
    refine (Fitting.ask _).bind fun _ _ _ => ?_
    refine Fitting.ite (fun _ => Fitting.pure trivial rfl) fun _ => ?_
    have fits : done + 1 < Nat.pow 2 64 := Nat.lt_of_le_of_lt more outer
    refine (minimizeOnce_fits room limited addressed runner fits counted).bind fun ran known _ => ?_
    refine (Fitting.ask _).bind fun _ _ _ => ?_
    by_cases final : Penalty.isFinal settings ran.2.status ran.1 = true
    · exact Fitting.of_eq (fun _ => if_pos final) (Fitting.pure trivial rfl)
    refine Fitting.of_eq (fun _ => if_neg final) ?_
    have moves : Fitting (m := m) (fun next => next.evaluations) (Counted (done + 1))
        ran.2.evaluations fun checks =>
          (checks.cycle settings runner watch).adjustOffsets ran.2 :=
      (Fitting.ask (ran.2.problem.adjustOffsets settings.offsetRate ran.2.x)).bind
        fun _ _ _ => Fitting.pure ⟨known.1.outer, known.1.inner⟩ rfl
    exact moves.bind fun _ known _ =>
      outerFrom_fits room limited outer addressed runner (done + 1) known rfl
  · exact Fitting.of_eq (fun _ => if_neg more) (Fitting.pure trivial rfl)
termination_by settings.outerIterations - done

theorem solve_fits [Lawful F]
    (outer : Descent.reserve settings.outerIterations (Unbounded.bytes F) = .ok ())
    (room : settings.inner.Addressable) (limited : settings.innerIterations < Nat.pow 2 64)
    (addressed : n < Nat.pow 2 64) (runner : Runner) (x : Vector F n)
    (objective : Nonlinear ℕ m F n) (constraints : List (Constraint ℕ m F n))
    (stepSizes : Array F) :
    Fitting (fun solution => solution.report.evaluations) (fun _ => True) 0
      fun checks => checks.solve settings runner watch x objective constraints stepSizes := by
  have fits : settings.outerIterations < Nat.pow 2 64 := lt_of_reserve outer
  refine (Fitting.refuse fun _ _ => trivial).bind fun problem (_ : True) _ => ?_
  refine (Fitting.count fun checks _ => reserve_ok outer checks).bind fun _ _ _ => ?_
  have begins : Counted 0 (.begun x problem) := ⟨rfl, le_rfl⟩
  refine (outerFrom_fits room limited fits addressed runner 0 begins rfl).bind fun last _ _ => ?_
  unfold Penalty.Progress.conclude
  refine (Fitting.ask _).bind fun _ _ _ => (Fitting.ask _).bind fun _ _ _ => ?_
  exact (Fitting.ask _).bind fun _ _ _ => Fitting.pure trivial rfl

end Solves

end Checks

/-- As long as the evaluations stay in a word, all counts do. Spelling the counts out changes
nothing. Where memory has room for what is laid out, checking all of them refuses only what
checking the evaluations would refuse, and nothing at all of a run that returns with fewer
evaluations than a word holds. -/
theorem counts_fit {m : Type → Type} [Monad m] [LawfulMonad m] [MonadExceptOf Fault m] [Aborting m]
    {World : Type} [Execution m World] {F : Type} [Unbounded F] [Lawful F] {n : ℕ}
    (addressed : n < Nat.pow 2 64) (runner : Runner) :
    (∀ (settings : Settings F) (caller : Caller m F n) (x : Vector F n),
      settings.Addressable → settings.maxIterations < Nat.pow 2 64 →
        Checks.roomOnly.minimize settings caller runner x = minimize settings runner caller x ∧
        Checks.all.minimize settings caller runner x =
          Checks.evaluationsOnly.minimize settings caller runner x ∧
        ∀ before answer after,
          Returns (minimize settings runner caller x) before answer after →
          answer.2.evaluations < Nat.pow 2 64 →
          Returns (Checks.all.minimize settings caller runner x) before answer after) ∧
    ∀ (settings : PenaltySettings F) (watch : Watch m F) (x : Vector F n)
      (objective : Nonlinear ℕ m F n) (constraints : List (Constraint ℕ m F n))
      (stepSizes : Array F),
      reserve settings.outerIterations (Unbounded.bytes F) = .ok () →
        settings.inner.Addressable → settings.innerIterations < Nat.pow 2 64 →
        Checks.roomOnly.solve settings runner watch x objective constraints stepSizes =
          Penalty.solve settings runner watch x objective constraints stepSizes ∧
        Checks.all.solve settings runner watch x objective constraints stepSizes =
          Checks.evaluationsOnly.solve settings runner watch x objective constraints stepSizes ∧
        ∀ before solution after,
          Returns (Penalty.solve settings runner watch x objective constraints stepSizes) before
            solution after →
          solution.report.evaluations < Nat.pow 2 64 →
          Returns (Checks.all.solve settings runner watch x objective constraints stepSizes) before
            solution after := by
  constructor
  · intro settings caller x room limited
    have plain := Checks.roomOnly_minimize settings caller runner x
    have fits : Fitting (fun answer => answer.2.evaluations)
        (fun answer => answer.2.iterations ≤ answer.2.evaluations) 0
        fun checks => checks.minimize settings caller runner x :=
      Checks.minimize_fits room limited addressed runner x
    refine ⟨plain, fits.eq, fun before answer after ran few => ?_⟩
    rw [fits.eq]
    rw [← plain] at ran
    exact fits.returns ran few
  · intro settings watch x objective constraints stepSizes outer room limited
    have plain := Checks.roomOnly_solve settings runner watch x objective constraints stepSizes
    have fits : Fitting (fun solution => solution.report.evaluations) (fun _ => True) 0
        fun checks => checks.solve settings runner watch x objective constraints stepSizes :=
      Checks.solve_fits outer room limited addressed runner x objective constraints stepSizes
    refine ⟨plain, fits.eq, fun before solution after ran few => ?_⟩
    rw [fits.eq]
    rw [← plain] at ran
    exact fits.returns ran few

/-! A square, and settings that mean no limit. -/

def dishCaller : Caller (Except Fault) Float 1 :=
  .ofFunction fun x => (x.get ⟨0, Nat.one_pos⟩ * x.get ⟨0, Nat.one_pos⟩, x.map (2 * ·))

def dish : Nonlinear ℕ (Except Fault) Float 1 :=
  .create #[0] (fun x => pure (x.get ⟨0, Nat.one_pos⟩ * x.get ⟨0, Nat.one_pos⟩))
    fun x _ => pure (some (x.map (2 * ·)))

def single : PenaltySettings Float := { PenaltySettings.standard with outerIterations := 1 }

theorem counts_fit_dish :
    1 < Nat.pow 2 64 ∧ (Settings.standard : Settings Float).Addressable ∧
      (Settings.standard : Settings Float).maxIterations < Nat.pow 2 64 ∧
      (∃ answer, minimize Settings.standard .inOrder dishCaller #v[1] = .ok answer ∧
        answer.2.evaluations = 3 ∧
        Checks.all.minimize Settings.standard dishCaller .inOrder #v[1] = .ok answer) ∧
      reserve single.outerIterations (Unbounded.bytes Float) = .ok () ∧
      single.inner.Addressable ∧ single.innerIterations < Nat.pow 2 64 ∧
      ∃ solution, Penalty.solve single .inOrder (.idle false) #v[1] dish [] #[1] =
          .ok solution ∧
        solution.report.evaluations = 3 ∧
        Checks.all.solve single .inOrder (.idle false) #v[1] dish [] #[1] = .ok solution := by
  have addressed : 1 < Nat.pow 2 64 := by decide
  have room : (Settings.standard : Settings Float).Addressable := ⟨rfl, rfl⟩
  have limited : (Settings.standard : Settings Float).maxIterations < Nat.pow 2 64 := by decide
  have outer : reserve single.outerIterations (Unbounded.bytes Float) = .ok () := rfl
  have inner : single.inner.Addressable := ⟨rfl, rfl⟩
  have short : single.innerIterations < Nat.pow 2 64 := by decide
  obtain ⟨minimizes, solves⟩ := counts_fit (m := Except Fault) (F := Float) addressed .inOrder
  obtain ⟨answer, ran, three⟩ :
      Yields (minimize Settings.standard .inOrder dishCaller #v[1])
        (fun answer => answer.2.evaluations = 3) := by
    decide +kernel
  obtain ⟨solution, solved, three'⟩ :
      Yields (Penalty.solve single .inOrder (.idle false) #v[1] dish [] #[1])
        (fun solution => solution.report.evaluations = 3) := by
    decide +kernel
  have few : 3 < Nat.pow 2 64 := by decide
  have checked := (minimizes _ dishCaller #v[1] room limited).2.2 () answer () ran
    (three.trans_lt few)
  have checked' := (solves single (.idle false) #v[1] dish [] #[1] outer inner short).2.2 ()
    solution () solved (three'.trans_lt few)
  exact ⟨addressed, room, limited, ⟨answer, ran, three, checked⟩, outer, inner, short, solution,
    solved, three', checked'⟩

def endless : Settings Float :=
  { Settings.standard with
    tuning := { Tuning.standard with stagnationWindow := Nat.pow 2 64 - 2 } }

def unlimited : PenaltySettings Float :=
  { PenaltySettings.standard with
    outerIterations := Nat.pow 2 64 - 1
    violationTolerance := 1 }

/-- The settings are accepted and the runs would take three evaluations. One ends where room is
asked for a window that would not be filled, the other where it is asked for a history that would
not get longer than one entry. -/
theorem counts_overflow :
    (Settings.standard.withTuning
        { Tuning.standard with stagnationWindow := Nat.pow 2 64 - 2 } = .ok endless ∧
      reserve (endless.tuning.stagnationWindow + 1) (Unbounded.bytes Float) =
        .error .capacity ∧
      minimize endless .inOrder dishCaller #v[1] = .error .capacity ∧
      Yields (Checks.evaluationsOnly.minimize endless dishCaller .inOrder #v[1])
        fun answer => answer.2.evaluations = 3) ∧
    ((PenaltySettings.standard.withOuterIterations (Nat.pow 2 64 - 1) >>=
        fun settings => settings.withViolationTolerance 1) = .ok unlimited ∧
      reserve unlimited.outerIterations (Unbounded.bytes Float) = .error .capacity ∧
      Penalty.solve unlimited .inOrder (.idle false) #v[1] dish [] #[1] =
        .error .capacity ∧
      Yields
        (Checks.evaluationsOnly.solve unlimited .inOrder (.idle false) #v[1] dish [] #[1])
        fun solution => solution.report.evaluations = 3) := by
  refine ⟨⟨?_, rfl, ?_, ?_⟩, ?_, rfl, ?_, ?_⟩
  · have checked : Tuning.check { (Tuning.standard : Tuning Float) with
        stagnationWindow := Nat.pow 2 64 - 2 } = .ok () := by decide +kernel
    rw [Settings.withTuning, checked]
    rfl
  · rfl
  · decide +kernel
  · rfl
  · obtain ⟨problem, stated, -⟩ : Yields (Problem.create dish [] #[1]) fun _ => True := by
      decide +kernel
    have refused : reserve unlimited.outerIterations (Unbounded.bytes Float) =
        .error .capacity := rfl
    rw [Penalty.solve, stated, refused]
    rfl
  · decide +kernel

end Descent

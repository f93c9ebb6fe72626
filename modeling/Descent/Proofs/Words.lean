import Descent.Proofs.Cycle
import Descent.Proofs.Engine
import Descent.Proofs.Search
import Descent.Proofs.Spans
import Descent.Proofs.Stagnation

/-!
Counts in machine words. The parts of the programs that count something are written down once more,
with every sum of counts and every request for room spelled out and subject to checks: a sum may
have to fit into a word, and room may have to be addressable. With no check but that of the room
they are the parts as they are. With all checks they are refused where a machine would overflow.
-/

namespace Descent

open Scalar

/-! Checks. -/

inductive Count where
  | evaluations
  | iterations
  | sinceReset
  | sinceImprovement
  | probes
  | stale
  | lostMinima
  | bisectionsWithLost
  | suspectBisections
  | window
  | spans
  | outerIterations
  | innerIterations
  | totalEvaluations
  deriving DecidableEq

/-- Which counts must stay in a word, and whether there must be room for what is laid out. -/
structure Checks where
  words : Count → Bool
  room : Bool

namespace Checks

def all : Checks where
  words _ := true
  room := true

def roomOnly : Checks where
  words _ := false
  room := true

/-- Nothing but the evaluations, in one run and in a whole solve. -/
def evaluationsOnly : Checks where
  words count := count = .evaluations ∨ count = .totalEvaluations
  room := false

variable (checks : Checks)

def sum (count : Count) (a b : ℕ) : Except Fault ℕ :=
  if checks.words count then
    match Word.add? a b with
    | some total => .ok total
    | none => .error .capacity
  else .ok (a + b)

def tick (count : Count) (happened : Bool) (a : ℕ) : Except Fault ℕ :=
  if happened then checks.sum count a 1 else .ok a

def recount (count : Count) (again : Bool) (a : ℕ) : Except Fault ℕ :=
  if again then checks.sum count a 1 else .ok 0

def reserve (count bytes : ℕ) : Except Fault Unit :=
  if checks.room then Descent.reserve count bytes else .ok ()

def cut (length threads : ℕ) : Except Fault Unit :=
  if checks.words .spans then
    match Span.cutWords length threads (List.range threads) 0 with
    | some _ => .ok ()
    | none => .error .capacity
  else .ok ()

def create (threads length : ℕ) : Except Fault Context := do
  Precondition.threads.guard (0 < threads)
  checks.reserve threads spanBytes
  checks.cut length threads
  pure { threads, length }

/-! The parts without questions. -/

section Brackets

variable {F : Type} [Scalar F] (tuning : Tuning F) (bracket : Bracket F) (sample : Sample F)

def loses : Bool :=
  !sample.isBetterThan bracket.best &&
    if bracket.best.step < sample.step then decide (sample.slope < 0)
    else decide (0 < sample.slope)

def countBisection : Except Fault (Bracket F) := do
  let bisectionsWithLost ←
    checks.tick .bisectionsWithLost (0 < bracket.lostMinima) bracket.bisectionsWithLost
  let suspectBisections ←
    checks.tick .suspectBisections (bracket.looksFlat tuning) bracket.suspectBisections
  pure { bracket with bisectionsWithLost, suspectBisections }

def place : Except Fault (Bracket F) := do
  let lostMinima ← checks.tick .lostMinima (loses bracket sample) bracket.lostMinima
  pure { bracket.place sample with lostMinima }

def judge (bisected : Bool) : Except Fault (Bracket F) :=
  if bisected then checks.countBisection tuning bracket else .ok bracket

def merge (bisected : Bool) : Except Fault (Bracket F) := do
  let stale ← checks.recount .stale (bracket.repeats sample) bracket.stale
  let placed ← checks.place { bracket with stale } sample
  let judged ← checks.judge tuning placed bisected
  pure (judged.measureWidth tuning)

def absorb (bisected : Bool) : Except Fault (Bracket F) := do
  let probes ← checks.sum .probes bracket.probes 1
  checks.merge tuning { bracket with probes } sample bisected

def opening {n : ℕ} (opened : Bracket F) (fresh : Record F n) :
    Option (Marked F n) → Except Fault (Record F n × Bracket F)
  | some probe => do
      let merged ← checks.merge tuning opened probe.sample false
      pure (fresh.add probe.sample probe.gradient, merged)
  | none => pure (fresh, opened)

end Brackets

section States

variable {F : Type} [Unbounded F] {n : ℕ} (kernels : Kernels F n) (settings : Settings F)

def noteProgress (state : State F n) : Except Fault (State F n) := do
  let value := state.tally.best.value
  let improved := state.recentBests.head?.all fun previous => value < previous
  let sinceImprovement ← checks.recount .sinceImprovement (!improved) state.sinceImprovement
  pure
    { state with
      sinceImprovement
      recentBests := (value :: state.recentBests).take (max settings.tuning.stagnationWindow 2) }

def advance (state : State F n) (line : Record F n) (move : State.Move F n) :
    Except Fault (State.Turn F n) := do
  let (difference, span) := state.change kernels line move
  let directionChange := kernels.dot state.direction difference
  let gradientChange := kernels.dot move.gradient difference
  let curvature := directionChange / (span * state.directionNormSquared)
  let length := Scalar.abs move.step * sqrt state.directionNormSquared
  let sinceReset ← checks.sum .sinceReset state.sinceReset 1
  let moved :=
    { state with
      x := kernels.update (.addScaled state.direction move.step) state.x
      gradient := move.gradient
      value := move.value
      real := move.real
      sinceReset }
  let turned := moved.turn kernels settings (gradientChange / directionChange)
  let guessed :=
    { turned.state with step := turned.state.guess settings turned.slope curvature length }
  pure { turned with state := ← checks.noteProgress settings guessed }

end States

/-! The parts with questions. -/

section Programs

variable {m : Type → Type} [Monad m] [MonadExceptOf Fault m]

section Searches

variable {F S : Type} [Scalar F] (tuning : Tuning F) (probe : F → S → m (Sample F × S))
variable (firstStep : F)

/-- A probe for a search that carries its bracket along, to check what is absorbed. -/
def audited (step : F) (carried : Bracket F × S) : m (Sample F × Bracket F × S) := do
  let (sample, left) ← probe step carried.2
  let bisected := (carried.1.next tuning firstStep).2
  let _ ← MonadExcept.ofExcept (checks.absorb tuning carried.1 sample bisected)
  pure (sample, carried.1.absorb tuning sample bisected, left)

def search (bracket : Bracket F) (carried : S) : m (Found F × S) := do
  let (found, _, left) ←
    Descent.search tuning (checks.audited tuning probe firstStep) firstStep bracket
      (bracket, carried)
  pure (found, left)

end Searches

variable {F : Type} [Unbounded F] {n : ℕ}
variable (kernels : Kernels F n) (settings : Settings F) (caller : Caller m F n)

/-- An evaluation is counted before it is made. -/
def evaluate (tally : Tally F n) (point : Vector F n) :
    m ((F × Vector F n) × Tally F n) := do
  let evaluations ← MonadExcept.ofExcept (checks.sum .evaluations tally.evaluations 1)
  let (value, gradient) ← caller.evaluate point
  pure ((value, gradient), { tally.add point value gradient with evaluations })

def evaluateIterate (state : State F n) : m (State F n) := do
  let ((value, gradient), tally) ← checks.evaluate caller state.tally state.x
  pure { state with value, gradient, real := true, tally }

def probe (state : State F n) (step : F) (trail : Trail F n) : m (Marked F n × Trail F n) := do
  let point := kernels.update (.addScaled state.direction step) state.x
  let ((value, gradient), tally) ← checks.evaluate caller trail.tally point
  let sample := Sample.make step value (kernels.dot gradient state.direction)
  pure (⟨sample, gradient⟩, { tally, line := trail.line.add sample gradient })

def probing (state : State F n) (step : F) (trail : Trail F n) : m (Sample F × Trail F n) := do
  let (marked, trail) ← checks.probe kernels caller state step trail
  pure (marked.sample, trail)

def move (iteration : ℕ) (state : State F n) (line : Record F n) (move : State.Move F n) :
    m (State F n) := do
  let turn ← MonadExcept.ofExcept (checks.advance kernels settings state line move)
  match turn.restarted with
  | some scheduled => caller.note (.restarting iteration scheduled)
  | none => pure ()
  pure turn.state

def engine : Minimization.Engine m F n where
  kernels
  settings
  caller
  evaluateIterate := checks.evaluateIterate caller
  probe := checks.probe kernels caller
  opening opened line kept :=
    MonadExcept.ofExcept (checks.opening settings.tuning opened line kept)
  search state := checks.search settings.tuning (checks.probing kernels caller state)
  move := checks.move kernels settings caller
  noteProgress state := MonadExcept.ofExcept (checks.noteProgress settings state)
  goOn done := do
    let _ ← MonadExcept.ofExcept (checks.sum .iterations done 1)
    pure ()

def start (x : Vector F n) : m (State F n) := do
  let ((value, gradient), tally) ← checks.evaluate caller (.create x) x
  let window ← MonadExcept.ofExcept (checks.sum .window settings.tuning.stagnationWindow 1)
  MonadExcept.ofExcept (checks.reserve window (Unbounded.bytes F))
  pure (State.create kernels settings x value gradient tally)

def minimize (runner : Runner) (x : Vector F n) : m (Vector F n × Report F) := do
  discard (MonadExcept.ofExcept (checks.create settings.threads n))
  let kernels := Kernels.shared F n settings.threads runner
  let state ← checks.start kernels settings caller x
  let ended ← (checks.engine kernels settings caller).run 0 state
  (checks.engine kernels settings caller).conclude ended

end Programs

/-! Solves. -/

section Solves

open Penalty (Cycle Progress innerCaller)

variable {m : Type → Type} [Monad m] [MonadExceptOf Fault m] {F : Type} [Unbounded F] {n : ℕ}
variable (settings : PenaltySettings F) (runner : Runner) (watch : Watch m F)

def minimizeOnce (progress : Progress m F n) : m (F × Progress m F n) := do
  let ((x, report), inner) ←
    (checks.minimize settings.inner (innerCaller watch) runner progress.x).run
      { problem := progress.problem, token := .fresh }
  let outerIterations ←
    MonadExcept.ofExcept (checks.sum .outerIterations progress.outerIterations 1)
  let innerIterations ← MonadExcept.ofExcept
    (checks.sum .innerIterations progress.innerIterations report.iterations)
  let evaluations ← MonadExcept.ofExcept
    (checks.sum .totalEvaluations progress.evaluations report.evaluations)
  let worst ← inner.problem.maxViolation x
  pure
    (worst,
      { x
        problem := inner.problem
        status := report.status
        penaltyValue := report.value
        outerIterations
        innerIterations
        evaluations
        violationHistory := progress.violationHistory.push worst })

def cycle : Cycle m F (Progress m F n) :=
  { Cycle.plain settings runner watch with
    minimizeOnce := checks.minimizeOnce settings runner watch }

def solve (x : Vector F n) (objective : Nonlinear ℕ m F n)
    (constraints : List (Constraint ℕ m F n)) (stepSizes : Array F) :
    m (Solution m F n) := do
  let problem ← MonadExcept.ofExcept (Problem.create objective constraints stepSizes)
  MonadExcept.ofExcept (checks.reserve settings.outerIterations (Unbounded.bytes F))
  let last ← (checks.cycle settings runner watch).outerFrom 0 (.begun x problem)
  last.conclude settings watch

end Solves

/-! Sums that fit. -/

section Sums

variable {checks : Checks} {count : Count} {happened : Bool} {a b limit : ℕ}

/-- If any sum has to stay in a word, this one does. -/
def Fits (checks : Checks) (total : ℕ) : Prop :=
  ∀ count, checks.words count = true → total < Nat.pow 2 64

theorem Fits.le {total : ℕ} (fits : checks.Fits limit) (atMost : total ≤ limit) :
    checks.Fits total :=
  fun count checked => atMost.trans_lt (fits count checked)

theorem fits_of_lt (below : limit < Nat.pow 2 64) : checks.Fits limit := fun _ _ => below

theorem roomOnly_fits (total : ℕ) : roomOnly.Fits total := fun _ => nofun

theorem sum_eq (fits : checks.Fits (a + b)) : checks.sum count a b = .ok (a + b) := by
  unfold sum
  split
  · next checked => rw [Word.add?_of_lt (fits count checked)]
  · rfl

theorem tick_eq (fits : checks.Fits limit) (below : a + 1 ≤ limit) :
    checks.tick count happened a = .ok (if happened then a + 1 else a) := by
  unfold tick
  split
  · exact sum_eq (fits.le below)
  · rfl

theorem recount_eq (fits : checks.Fits limit) (below : a + 1 ≤ limit) :
    checks.recount count happened a = .ok (if happened then a + 1 else 0) := by
  unfold recount
  split
  · exact sum_eq (fits.le below)
  · rfl

theorem sum_overflow (checked : checks.words count = true) (overflows : ¬ a + b < Nat.pow 2 64) :
    checks.sum count a b = .error .capacity := by
  rw [sum, if_pos checked, Word.add?, if_neg overflows]

theorem sum_cases (checks : Checks) (count : Count) (a b : ℕ) :
    checks.sum count a b = .ok (a + b) ∨ checks.sum count a b = .error .capacity := by
  by_cases checked : checks.words count = true
  · by_cases fits : a + b < Nat.pow 2 64
    · exact .inl (sum_eq fun _ _ => fits)
    · exact .inr (sum_overflow checked fits)
  · exact .inl (if_neg checked)

end Sums

end Checks

namespace Bracket

variable {F : Type} [Scalar F] {tuning : Tuning F} {bracket : Bracket F} {limit : ℕ}

structure Below (limit : ℕ) (bracket : Bracket F) : Prop where
  stale : bracket.stale ≤ limit
  lostMinima : bracket.lostMinima ≤ limit
  bisectionsWithLost : bracket.bisectionsWithLost ≤ limit
  suspectBisections : bracket.suspectBisections ≤ limit

omit [Scalar F] in
theorem Below.le {most : ℕ} (below : Below limit bracket) (atMost : limit ≤ most) :
    Below most bracket :=
  ⟨below.stale.trans atMost, below.lostMinima.trans atMost, below.bisectionsWithLost.trans atMost,
    below.suspectBisections.trans atMost⟩

theorem Below.merge (below : Below limit bracket) (sample : Sample F) (bisected : Bool) :
    Below (limit + 1) (bracket.merge tuning sample bisected) := by
  obtain ⟨stale, lostMinima, bisectionsWithLost, suspectBisections⟩ := below
  constructor
  all_goals grind [Bracket.merge, place, countBisection, measureWidth]

omit [Scalar F] in
theorem Below.probed (below : Below limit bracket) (probes : ℕ) :
    Below limit { bracket with probes } :=
  ⟨below.stale, below.lostMinima, below.bisectionsWithLost, below.suspectBisections⟩

theorem Below.absorb (below : Below limit bracket) (sample : Sample F) (bisected : Bool) :
    Below (limit + 1) (bracket.absorb tuning sample bisected) :=
  (below.probed (bracket.probes + 1)).merge sample bisected

theorem place_lostMinima (bracket : Bracket F) (sample : Sample F) :
    (bracket.place sample).lostMinima =
      if Checks.loses bracket sample then bracket.lostMinima + 1 else bracket.lostMinima := by
  grind [place, Checks.loses]

end Bracket

namespace Checks

section Parts

variable {F : Type} {checks : Checks} {limit : ℕ}

section Brackets

variable [Scalar F] {tuning : Tuning F} {bracket : Bracket F}

theorem place_eq (fits : checks.Fits (limit + 1)) (below : bracket.lostMinima ≤ limit)
    (sample : Sample F) : checks.place bracket sample = .ok (bracket.place sample) := by
  rw [place, tick_eq fits (Nat.succ_le_succ below), ← Bracket.place_lostMinima]
  rfl

theorem judge_eq (fits : checks.Fits (limit + 1)) (withLost : bracket.bisectionsWithLost ≤ limit)
    (suspect : bracket.suspectBisections ≤ limit) (bisected : Bool) :
    checks.judge tuning bracket bisected =
      .ok (if bisected then bracket.countBisection tuning else bracket) := by
  unfold judge
  split
  · rw [countBisection, tick_eq fits (Nat.succ_le_succ withLost),
      tick_eq fits (Nat.succ_le_succ suspect)]
    simp only [decide_eq_true_eq]
    rfl
  · rfl

theorem merge_eq (fits : checks.Fits (limit + 1)) (below : bracket.Below limit)
    (sample : Sample F) (bisected : Bool) :
    checks.merge tuning bracket sample bisected = .ok (bracket.merge tuning sample bisected) := by
  rw [merge, recount_eq fits (Nat.succ_le_succ below.stale)]
  simp only [bind, Except.bind]
  rw [place_eq fits]
  · simp only
    rw [judge_eq fits]
    · rfl
    · rw [Bracket.place_bisectionsWithLost]
      exact below.bisectionsWithLost
    · rw [Bracket.place_suspectBisections]
      exact below.suspectBisections
  · exact below.lostMinima

theorem absorb_eq (fits : checks.Fits (limit + 1)) (below : bracket.Below limit)
    (probes : bracket.probes ≤ limit) (sample : Sample F) (bisected : Bool) :
    checks.absorb tuning bracket sample bisected =
      .ok (bracket.absorb tuning sample bisected) := by
  rw [absorb, sum_eq (fits.le (Nat.succ_le_succ probes))]
  exact merge_eq fits (below.probed (bracket.probes + 1)) sample bisected

end Brackets

section States

variable [Unbounded F] {n : ℕ} {settings : Settings F} {state : State F n}

theorem opening_eq {tuning : Tuning F} {bracket : Bracket F} (fits : checks.Fits (limit + 1))
    (below : bracket.Below limit) (fresh : Record F n) (kept : Option (Marked F n)) :
    checks.opening tuning bracket fresh kept =
      .ok (Minimization.opening tuning bracket fresh kept) := by
  cases kept with
  | none => rfl
  | some probe =>
    rw [opening, merge_eq fits below]
    rfl

theorem noteProgress_eq (fits : checks.Fits (limit + 1)) (below : state.sinceImprovement ≤ limit) :
    checks.noteProgress settings state = .ok (state.noteProgress settings) := by
  rw [noteProgress, recount_eq fits (Nat.succ_le_succ below), State.noteProgress]
  simp only [bind, Except.bind]
  cases state.recentBests.head?.all fun previous => state.tally.best.value < previous <;> rfl

theorem advance_eq {kernels : Kernels F n} {line : Record F n} {target : State.Move F n}
    (fits : checks.Fits (limit + 1)) (reset : state.sinceReset ≤ limit)
    (improvement : state.sinceImprovement ≤ limit) :
    checks.advance kernels settings state line target =
      .ok (state.advance kernels settings line target) := by
  unfold advance State.advance
  rw [sum_eq (fits.le (Nat.succ_le_succ reset))]
  simp only [bind, Except.bind]
  rw [noteProgress_eq fits]
  · rfl
  · exact (State.turn_window kernels settings _ _).2.trans_le improvement

end States

end Parts

/-! One step of a search. -/

section Steps

variable {m : Type → Type} [Monad m] [LawfulMonad m] [MonadExceptOf Fault m]
variable {F S : Type} [Scalar F] {checks : Checks} {tuning : Tuning F} {firstStep : F}
variable {probe : F → S → m (Sample F × S)} {bracket : Bracket F} {carried : S}

theorem search_stops {exit : Exit} (ends : bracket.exit? tuning = some exit) :
    checks.search tuning probe firstStep bracket carried =
      pure ({ best := bracket.best, exit, probes := bracket.probes }, carried) := by
  rw [search, Descent.search_stops ends, pure_bind]

theorem search_steps (goesOn : bracket.exit? tuning = none) :
    checks.search tuning probe firstStep bracket carried =
      probe (bracket.next tuning firstStep).1 carried >>= fun probed =>
        MonadExcept.ofExcept (checks.absorb tuning bracket probed.1
          (bracket.next tuning firstStep).2) >>= fun _ =>
        checks.search tuning probe firstStep
          (bracket.absorb tuning probed.1 (bracket.next tuning firstStep).2) probed.2 := by
  rw [search, Descent.search_steps goesOn]
  simp only [audited, bind_assoc, pure_bind, search]

end Steps

/-! Only room. -/

section RoomOnly

theorem roomOnly_sum (count : Count) (a b : ℕ) : roomOnly.sum count a b = .ok (a + b) := rfl

theorem roomOnly_reserve (count bytes : ℕ) :
    roomOnly.reserve count bytes = Descent.reserve count bytes := rfl

theorem roomOnly_create (threads length : ℕ) :
    roomOnly.create threads length = Context.create threads length := by
  unfold create Context.create partition
  rw [roomOnly_reserve]
  cases Precondition.threads.guard (0 < threads) with
  | error fault => rfl
  | ok => cases Descent.reserve threads spanBytes <;> rfl

theorem below_total {F : Type} (bracket : Bracket F) : bracket.Below
    (bracket.stale + bracket.lostMinima + bracket.bisectionsWithLost +
      bracket.suspectBisections) := by
  constructor <;> omega

theorem roomOnly_absorb {F : Type} [Scalar F] (tuning : Tuning F) (bracket : Bracket F)
    (sample : Sample F) (bisected : Bool) :
    roomOnly.absorb tuning bracket sample bisected =
      .ok (bracket.absorb tuning sample bisected) := by
  rw [absorb, roomOnly_sum]
  exact merge_eq (roomOnly_fits _) (below_total _) sample bisected

variable {m : Type → Type} [Monad m] [LawfulMonad m] [MonadExceptOf Fault m]

omit [LawfulMonad m] in
theorem ofExcept_ok {A : Type} (answer : A) :
    (MonadExcept.ofExcept (.ok answer : Except Fault A) : m A) = pure answer := rfl

omit [LawfulMonad m] in
theorem ofExcept_error {A : Type} (fault : Fault) :
    (MonadExcept.ofExcept (.error fault : Except Fault A) : m A) = throw fault := rfl

theorem roomOnly_search {F S : Type} [Scalar F] {tuning : Tuning F}
    {probe : F → S → m (Sample F × S)} {firstStep : F} (bracket : Bracket F) (carried : S) :
    roomOnly.search tuning probe firstStep bracket carried =
      Descent.search tuning probe firstStep bracket carried := by
  induction bracket, carried using Descent.search.induct tuning firstStep with
  | case1 bracket carried exit ends => rw [search_stops ends, Descent.search_stops ends]
  | case2 bracket carried goesOn target bisected chosen ih =>
    have same := congrArg Prod.snd chosen
    rw [search_steps goesOn, Descent.search_steps goesOn]
    refine bind_congr fun probed => ?_
    rw [roomOnly_absorb, same]
    exact (pure_bind _ _).trans (ih probed.1 probed.2)

variable {F : Type} [Unbounded F] {n : ℕ}
variable {kernels : Kernels F n} {settings : Settings F} {caller : Caller m F n}
variable {iteration : ℕ} {state : State F n}

theorem roomOnly_noteProgress :
    roomOnly.noteProgress settings state = .ok (state.noteProgress settings) :=
  noteProgress_eq (roomOnly_fits _) le_rfl

theorem roomOnly_advance {line : Record F n} {target : State.Move F n} :
    roomOnly.advance kernels settings state line target =
      .ok (state.advance kernels settings line target) :=
  advance_eq (roomOnly_fits _) (Nat.le_add_right _ state.sinceImprovement)
    (Nat.le_add_left _ state.sinceReset)

theorem roomOnly_evaluate (tally : Tally F n) (point : Vector F n) :
    roomOnly.evaluate caller tally point =
      caller.evaluate point >>= fun answer =>
        pure (answer, tally.add point answer.1 answer.2) :=
  pure_bind _ _

theorem roomOnly_evaluateIterate :
    roomOnly.evaluateIterate caller = Minimization.evaluateIterate caller := by
  funext state
  rw [evaluateIterate, roomOnly_evaluate, bind_assoc]
  simp only [pure_bind]
  rfl

theorem roomOnly_probe :
    roomOnly.probe kernels caller = Minimization.probe kernels caller := by
  funext state step trail
  rw [probe, roomOnly_evaluate, bind_assoc]
  simp only [pure_bind]
  rfl

theorem roomOnly_probing :
    roomOnly.probing kernels caller state = Minimization.probing kernels caller state := by
  funext step trail
  rw [probing, roomOnly_probe]
  rfl

theorem roomOnly_move :
    roomOnly.move kernels settings caller = Minimization.move kernels settings caller := by
  funext iteration state line target
  rw [move, roomOnly_advance]
  exact pure_bind _ _

theorem roomOnly_opening (opened : Bracket F) (line : Record F n) (kept : Option (Marked F n)) :
    roomOnly.opening settings.tuning opened line kept =
      .ok (Minimization.opening settings.tuning opened line kept) :=
  opening_eq (roomOnly_fits _) (below_total opened) line kept

theorem roomOnly_engine :
    roomOnly.engine kernels settings caller = .plain kernels settings caller := by
  have searches (state : State F n) :
      roomOnly.search settings.tuning (Minimization.probing kernels caller state) =
        Descent.search settings.tuning (Minimization.probing kernels caller state) := by
    funext firstStep bracket trail
    exact roomOnly_search bracket trail
  simp only [engine, Minimization.Engine.plain, roomOnly_evaluateIterate, roomOnly_probe,
    roomOnly_opening, roomOnly_probing, searches, roomOnly_move, roomOnly_noteProgress,
    roomOnly_sum, ofExcept_ok, pure_bind]

theorem roomOnly_start (x : Vector F n) :
    roomOnly.start kernels settings caller x = Minimization.start kernels settings caller x := by
  simp only [start, Minimization.start, roomOnly_evaluate, roomOnly_sum, ofExcept_ok, bind_assoc,
    pure_bind, roomOnly_reserve]

/-- Without the checks of counts a minimization is the one as it is. -/
theorem roomOnly_minimize (settings : Settings F) (caller : Caller m F n) (runner : Runner)
    (x : Vector F n) :
    roomOnly.minimize settings caller runner x = Descent.minimize settings runner caller x := by
  simp only [minimize, Descent.minimize, roomOnly_create, roomOnly_start, roomOnly_engine,
    Minimization.Engine.plain_run, Minimization.Engine.plain_conclude]

end RoomOnly

section RoomOnlySolve

variable {m : Type → Type} [Monad m] [LawfulMonad m] [MonadExceptOf Fault m]
variable {F : Type} [Unbounded F] {n : ℕ} (settings : PenaltySettings F) (runner : Runner)
variable (watch : Watch m F)

theorem roomOnly_minimizeOnce :
    roomOnly.minimizeOnce settings runner watch =
      Penalty.minimizeOnce (n := n) settings runner watch := by
  funext progress
  simp only [minimizeOnce, Penalty.minimizeOnce, roomOnly_minimize, roomOnly_sum, ofExcept_ok,
    pure_bind]

theorem roomOnly_cycle :
    roomOnly.cycle settings runner watch = Penalty.Cycle.plain (n := n) settings runner watch := by
  simp only [cycle, roomOnly_minimizeOnce, Penalty.Cycle.plain]

theorem roomOnly_solve (x : Vector F n) (objective : Nonlinear ℕ m F n)
    (constraints : List (Constraint ℕ m F n)) (stepSizes : Array F) :
    roomOnly.solve settings runner watch x objective constraints stepSizes =
      Penalty.solve settings runner watch x objective constraints stepSizes := by
  rw [solve, Penalty.solve_eq_conclude, roomOnly_cycle]
  rfl

end RoomOnlySolve

end Checks

end Descent

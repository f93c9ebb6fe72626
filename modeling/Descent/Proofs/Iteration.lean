import Descent.Minimize
import Descent.Proofs.Execution
import Descent.Proofs.Position

/-!
What each part of an iteration can do, said once. Every statement takes a part that returned and
gives back the answers of the caller it used and the state it left, one alternative for each way
through. Nothing is assumed about the caller.
-/

namespace Descent

open Scalar Execution

theorem Bracket.eq_of_create {F : Type} [Unbounded F] {start : Sample F} {bracket : Bracket F}
    (opens : create start = .ok bracket) :
    start.slope < 0 ∧ bracket =
      { start
        left := none
        best := start
        right := none
        robust := false
        width := Unbounded.infinity
        probes := 0
        lostMinima := 0
        suspectBisections := 0
        bisectionsWithLost := 0
        stale := 0 } := by
  rw [create] at opens
  split at opens
  · next descends => exact ⟨descends, (Except.ok.inj opens).symm⟩
  · exact nomatch opens

section Search

variable {m : Type → Type} [Monad m] {F S : Type} [Scalar F] {tuning : Tuning F}
variable {probe : F → S → m (Sample F × S)} {firstStep : F} {bracket : Bracket F} {carried : S}

theorem search_stops {exit : Exit} (ends : bracket.exit? tuning = some exit) :
    search tuning probe firstStep bracket carried =
      pure ({ best := bracket.best, exit, probes := bracket.probes }, carried) := by
  rw [search]
  split
  · next same => rw [Option.some.inj (ends.symm.trans same)]
  · next goesOn => cases ends.symm.trans goesOn

theorem search_steps (goesOn : bracket.exit? tuning = none) :
    search tuning probe firstStep bracket carried =
      probe (bracket.next tuning firstStep).1 carried >>= fun probed =>
        search tuning probe firstStep
          (bracket.absorb tuning probed.1 (bracket.next tuning firstStep).2) probed.2 := by
  rw [search]
  split
  · next ends => cases goesOn.symm.trans ends
  · rfl

end Search

variable {m : Type → Type} [Monad m] [MonadExceptOf Fault m] {World : Type} [Execution m World]
variable {F : Type} {n : Nat}

/-- A property of bracket, carried state and world that every probe of a search keeps holds when
the search is over. -/
theorem search_invariant [Scalar F] {S : Type} {tuning : Tuning F}
    {probe : F → S → m (Sample F × S)} {firstStep : F}
    (Kept : Bracket F → S → World → Prop)
    (step : ∀ bracket carried before sample next after, Kept bracket carried before →
      bracket.exit? tuning = none →
      Returns (probe (bracket.next tuning firstStep).1 carried) before (sample, next) after →
      Kept (bracket.absorb tuning sample (bracket.next tuning firstStep).2) next after)
    {bracket : Bracket F} {carried left : S} {before after : World} {found : Found F}
    (kept : Kept bracket carried before)
    (ran : Returns (search tuning probe firstStep bracket carried) before (found, left) after) :
    ∃ last, Kept last left after ∧ last.exit? tuning = some found.exit ∧
      found.best = last.best ∧ found.probes = last.probes := by
  -- the recursion of the search
  induction bracket, carried using search.induct tuning firstStep generalizing before with
  | case1 bracket carried exit ends =>
    rw [search_stops ends] at ran
    obtain ⟨same, rfl⟩ := returns_pure.mp ran
    obtain ⟨rfl, rfl⟩ := Prod.mk.inj same
    exact ⟨bracket, kept, ends, rfl, rfl⟩
  | case2 bracket carried goesOn target bisected chosen ih =>
    rw [search_steps goesOn, chosen] at ran
    obtain ⟨⟨sample, next⟩, middle, probed, rest⟩ := returns_bind.mp ran
    have absorbed := step bracket carried before sample next middle kept goesOn
    rw [chosen] at absorbed
    exact ih sample next (absorbed probed) rest

namespace Minimization

variable [Unbounded F]
variable {kernels : Kernels F n} {settings : Settings F} {caller : Caller m F n}
variable {before after : World} {iteration : Nat} {state left : State F n}

theorem evaluateIterate_returns
    (ran : Returns (evaluateIterate caller state) before left after) :
    ∃ value gradient, Returns (caller.evaluate state.x) before (value, gradient) after ∧
      left = { state with
        value, gradient, real := true, tally := state.tally.add state.x value gradient } := by
  simp only [evaluateIterate, returns_bind, returns_pure] at ran
  obtain ⟨⟨value, gradient⟩, _, answered, rfl, rfl⟩ := ran
  exact ⟨value, gradient, answered, rfl⟩

theorem probe_returns {step : F} {trail next : Trail F n} {marked : Marked F n}
    (ran : Returns (probe kernels caller state step trail) before (marked, next) after) :
    ∃ value gradient,
      Returns (caller.evaluate (kernels.update (.addScaled state.direction step) state.x)) before
        (value, gradient) after ∧
      marked = ⟨.make step value (kernels.dot gradient state.direction), gradient⟩ ∧
      next.tally = trail.tally.add
        (kernels.update (.addScaled state.direction step) state.x) value gradient ∧
      next.line = trail.line.add marked.sample marked.gradient := by
  simp only [probe, returns_bind, returns_pure] at ran
  obtain ⟨⟨value, gradient⟩, _, answered, same, rfl⟩ := ran
  obtain ⟨rfl, rfl⟩ := Prod.mk.inj same
  exact ⟨value, gradient, answered, rfl, rfl, rfl⟩

theorem downhill_returns {slope? : Option F}
    (ran : Returns (downhill kernels caller iteration state) before (slope?, left) after) :
    (state.slope kernels < 0 ∧ slope? = some (state.slope kernels) ∧ left = state ∧
      after = before) ∨
    (¬ state.slope kernels < 0 ∧ Returns (caller.note (.notDownhill iteration)) before () after ∧
      left = state.restart kernels ∧ slope? = left.steepestSlope?) := by
  simp only [downhill] at ran
  split at ran
  · next descends =>
    obtain ⟨same, rfl⟩ := returns_pure.mp ran
    obtain ⟨rfl, rfl⟩ := Prod.mk.inj same
    exact Or.inl ⟨descends, rfl, rfl, rfl⟩
  · next flat =>
    simp only [returns_bind, returns_pure] at ran
    obtain ⟨_, _, noted, same, rfl⟩ := ran
    obtain ⟨rfl, rfl⟩ := Prod.mk.inj same
    exact Or.inr ⟨flat, noted, rfl, rfl⟩

theorem downhill_keeps {slope? : Option F}
    (ran : Returns (downhill kernels caller iteration state) before (slope?, left) after) :
    left.position = state.position := by
  rcases downhill_returns ran with ⟨_, _, rfl, _⟩ | ⟨_, _, rfl, _⟩
  · rfl
  · exact state.restart_position kernels

theorem move_returns {line : Record F n} {target : State.Move F n}
    (ran : Returns (move kernels settings caller iteration state line target) before left after) :
    left = (state.advance kernels settings line target).state ∧
      ((state.advance kernels settings line target).restarted = none ∧ after = before ∨
        ∃ scheduled,
          (state.advance kernels settings line target).restarted = some scheduled ∧
          Returns (caller.note (.restarting iteration scheduled)) before () after) := by
  simp only [move] at ran
  split at ran
  · next scheduled restarts =>
    simp only [returns_bind, returns_pure] at ran
    obtain ⟨_, _, noted, rfl, rfl⟩ := ran
    exact ⟨rfl, Or.inr ⟨scheduled, restarts, noted⟩⟩
  · next turns =>
    obtain ⟨rfl, rfl⟩ := returns_pure.mp ran
    exact ⟨rfl, Or.inl ⟨turns, rfl⟩⟩

theorem settle_returns {probe : Marked F n} {bestBefore : F} {keep : Bool}
    (ran : Returns (settle kernels caller iteration state probe bestBefore) before
      (keep, left) after) :
    (state.real = true ∧ keep = true ∧ left = state ∧
      Returns (caller.note (.fastRejected iteration probe.sample.value)) before () after) ∨
    (state.real = false ∧ ∃ evaluated middle,
      Returns (evaluateIterate caller state) before evaluated middle ∧
      ((evaluated.value ≤ bestBefore ∧ keep = true ∧ left = evaluated ∧
          Returns (caller.note (.redoing iteration)) middle () after) ∨
        (¬ evaluated.value ≤ bestBefore ∧ keep = false ∧ left = backOut kernels evaluated ∧
          Returns (caller.note (.backingOut iteration evaluated.value evaluated.tally.best.value))
            middle () after))) := by
  simp only [settle] at ran
  split at ran
  · next real =>
    simp only [returns_bind, returns_pure] at ran
    obtain ⟨_, _, noted, same, rfl⟩ := ran
    obtain ⟨rfl, rfl⟩ := Prod.mk.inj same
    exact Or.inl ⟨real, rfl, rfl, noted⟩
  · next fitted =>
    obtain ⟨evaluated, middle, answered, rest⟩ := returns_bind.mp ran
    refine Or.inr ⟨by simpa using fitted, evaluated, middle, answered, ?_⟩
    split at rest
    · next good =>
      simp only [returns_bind, returns_pure] at rest
      obtain ⟨_, _, noted, same, rfl⟩ := rest
      obtain ⟨rfl, rfl⟩ := Prod.mk.inj same
      exact Or.inl ⟨good, rfl, rfl, noted⟩
    · next bad =>
      simp only [returns_bind, returns_pure] at rest
      obtain ⟨_, _, noted, same, rfl⟩ := rest
      obtain ⟨rfl, rfl⟩ := Prod.mk.inj same
      exact Or.inr ⟨bad, rfl, rfl, noted⟩

theorem searchSlope_returns {keep kept : Bool} {slope? : Option F}
    (ran : Returns (searchSlope kernels caller iteration state keep) before
      (kept, slope?, left) after) :
    (keep = true ∧ state.slope kernels < 0 ∧ kept = true ∧
      slope? = some (state.slope kernels) ∧ left = state ∧ after = before) ∨
    (¬ (keep = true ∧ state.slope kernels < 0) ∧ kept = false ∧
      Returns (downhill kernels caller iteration state) before (slope?, left) after) := by
  simp only [searchSlope] at ran
  split at ran
  · next keeps =>
    obtain ⟨same, rfl⟩ := returns_pure.mp ran
    simp only [Prod.mk.injEq] at same
    obtain ⟨rfl, rfl, rfl⟩ := same
    exact Or.inl ⟨keeps.1, keeps.2, rfl, rfl, rfl, rfl⟩
  · next gives =>
    obtain ⟨⟨turned?, turned⟩, middle, turns, rest⟩ := returns_bind.mp ran
    obtain ⟨same, rfl⟩ := returns_pure.mp rest
    simp only [Prod.mk.injEq] at same
    obtain ⟨rfl, rfl, rfl⟩ := same
    exact Or.inr ⟨gives, rfl, turns⟩

def probing (kernels : Kernels F n) (caller : Caller m F n) (state : State F n) (step : F)
    (trail : Trail F n) : m (Sample F × Trail F n) := do
  let (marked, trail) ← probe kernels caller state step trail
  pure (marked.sample, trail)

theorem probing_returns {step : F} {trail next : Trail F n} {sample : Sample F}
    (ran : Returns (probing kernels caller state step trail) before (sample, next) after) :
    ∃ marked, sample = marked.sample ∧
      Returns (probe kernels caller state step trail) before (marked, next) after := by
  simp only [probing, returns_bind, returns_pure] at ran
  obtain ⟨⟨marked, trail⟩, _, probed, same, rfl⟩ := ran
  obtain ⟨rfl, rfl⟩ := Prod.mk.inj same
  exact ⟨marked, rfl, probed⟩

/-- Record and bracket at the start of a careful search, which may take over a probe. -/
def opening (tuning : Tuning F) (opened : Bracket F) (fresh : Record F n) :
    Option (Marked F n) → Record F n × Bracket F
  | some probe =>
      (fresh.add probe.sample probe.gradient, opened.merge tuning probe.sample false)
  | none => (fresh, opened)

theorem searchLine_returns {slope step : F} {kept : Option (Marked F n)}
    (ran : Returns (searchLine kernels settings caller iteration state slope kept step) before
      left after) :
    ∃ opened found trail middle,
      Bracket.create (.make 0 state.value slope) = .ok opened ∧
      Returns
        (search settings.tuning (probing kernels caller state) step
          (opening settings.tuning opened
            (.create (.make 0 state.value slope) state.gradient) kept).2
          { tally := state.tally
            line := (opening settings.tuning opened
              (.create (.make 0 state.value slope) state.gradient) kept).1 })
        before (found, trail) middle ∧
      ((trail.line.best.sample.isBetterThan (.make 0 state.value slope) = true ∧
          Returns
            (move kernels settings caller iteration { state with tally := trail.tally } trail.line
              { step := trail.line.best.sample.step
                value := trail.line.best.sample.value
                gradient := trail.line.best.gradient
                real := true })
            middle left after) ∨
        (trail.line.best.sample.isBetterThan (.make 0 state.value slope) = false ∧
          Returns (caller.note (.noProgress iteration found.exit found.probes)) middle () after ∧
          left = (State.restart kernels
            { state with
              tally := trail.tally
              step := step / settings.tuning.maxStepGrowth }).noteProgress settings)) := by
  simp only [searchLine] at ran
  obtain ⟨opened, _, first, rest⟩ := returns_bind.mp ran
  obtain ⟨opens, rfl⟩ := returns_ofExcept.mp first
  obtain ⟨⟨found, trail⟩, middle, searched, rest⟩ := returns_bind.mp rest
  refine ⟨opened, found, trail, middle, opens, ?_, ?_⟩
  · cases kept <;> exact searched
  · split at rest
    · next better => exact Or.inl ⟨better, rest⟩
    · next worse =>
      obtain ⟨_, _, noted, last⟩ := returns_bind.mp rest
      obtain ⟨rfl, rfl⟩ := returns_pure.mp last
      exact Or.inr ⟨by simpa using worse, noted, rfl⟩

theorem careful_returns {probe : Marked F n} {step bestBefore : F}
    (ran : Returns (careful kernels settings caller iteration state probe step bestBefore) before
      left after) :
    ∃ keep settled middle kept slope? turned next,
      Returns (settle kernels caller iteration state probe bestBefore) before
        (keep, settled) middle ∧
      Returns (searchSlope kernels caller iteration settled keep) middle
        (kept, slope?, turned) next ∧
      ((slope? = none ∧ left = turned.withoutDirection ∧ after = next) ∨
        ∃ slope, slope? = some slope ∧
          Returns
            (searchLine kernels settings caller iteration turned slope
              (if kept then some probe else none) step)
            next left after) := by
  simp only [careful] at ran
  obtain ⟨⟨keep, settled⟩, middle, first, rest⟩ := returns_bind.mp ran
  obtain ⟨⟨kept, slope?, turned⟩, next, second, last⟩ := returns_bind.mp rest
  refine ⟨keep, settled, middle, kept, slope?, turned, next, first, second, ?_⟩
  cases slope? with
  | none =>
    obtain ⟨rfl, rfl⟩ := returns_pure.mp last
    exact Or.inl ⟨rfl, rfl, rfl⟩
  | some slope => exact Or.inr ⟨slope, rfl, last⟩

/-- The fit through the start of the line and the probe, unless the probe is worse than both
newest best values. -/
def fit? (kernels : Kernels F n) (settings : Settings F) (state : State F n) (slope : F)
    (probed : Marked F n) : Option (State.Fit F) :=
  if probed.sample.value ≤ state.recentThreshold then
    state.trustedFit? kernels settings (.make 0 state.value slope) probed.sample probed.gradient
  else none

theorem fit?_trusted {slope : F} {probed : Marked F n} {fit : State.Fit F}
    (found : fit? kernels settings state slope probed = some fit) :
    probed.sample.value ≤ state.recentThreshold ∧
      state.trustedFit? kernels settings (.make 0 state.value slope) probed.sample
        probed.gradient = some fit := by
  unfold fit? at found
  split at found
  · next low => exact ⟨low, found⟩
  · exact nomatch found

theorem iterate_returns
    (ran : Returns (iterate kernels settings caller iteration state) before left after) :
    ∃ slope? turned middle,
      Returns (downhill kernels caller iteration state) before (slope?, turned) middle ∧
      ((slope? = none ∧ left = turned.withoutDirection ∧ after = middle) ∨
        ∃ slope step stepped probed trail next, slope? = some slope ∧
          turned.probeStep settings = (step, stepped) ∧
          Returns
            (probe kernels caller stepped step
              { tally := stepped.tally
                line := .create (.make 0 stepped.value slope) stepped.gradient })
            middle (probed, trail) next ∧
          ((∃ fit,
              fit? kernels settings { stepped with tally := trail.tally } slope probed =
                some fit ∧
              Returns
                (move kernels settings caller iteration { stepped with tally := trail.tally }
                  trail.line
                  { step := fit.step
                    value := fit.value
                    gradient := stepped.interpolatedGradient kernels probed.sample
                      probed.gradient fit.step
                    real := false })
                next left after) ∨
            (fit? kernels settings { stepped with tally := trail.tally } slope probed = none ∧
              Returns
                (careful kernels settings caller iteration { stepped with tally := trail.tally }
                  probed step stepped.tally.best.value)
                next left after))) := by
  simp only [iterate] at ran
  obtain ⟨⟨slope?, turned⟩, middle, first, rest⟩ := returns_bind.mp ran
  refine ⟨slope?, turned, middle, first, ?_⟩
  cases slope? with
  | none =>
    obtain ⟨rfl, rfl⟩ := returns_pure.mp rest
    exact Or.inl ⟨rfl, rfl, rfl⟩
  | some slope =>
    cases chosen : turned.probeStep settings with
    | mk step stepped =>
      simp only [chosen] at rest
      obtain ⟨⟨probed, trail⟩, next, second, last⟩ := returns_bind.mp rest
      refine Or.inr ⟨slope, step, stepped, probed, trail, next, rfl, rfl, second, ?_⟩
      split at last
      · next fit found => exact Or.inl ⟨fit, found, last⟩
      · next found => exact Or.inr ⟨found, last⟩

end Minimization

end Descent

import Descent.Proofs.Position
import Descent.Proofs.Run
import Descent.Proofs.Tally

/-!
What the evaluations of a run say about its state. A state is faithful to the evaluations so far
if its tally counts them and if an iterate marked as real, with a value below infinity, is one of
them: the same point, value and gradient. Fitted iterates promise nothing. Every part of a run
keeps this, the careful search included, where the evaluations of the line go into the trail
before they reach the state.
-/

namespace Descent

open Scalar Execution

variable {F : Type} {n : Nat}

-- Undefined values are recorded as infinity, so a value below that was recorded as it came.
theorem Sample.make_value [Unbounded F] [Lawful F] {step value slope : F}
    (found : (Sample.make step value slope).value < Unbounded.infinity) :
    (Sample.make step value slope).value = value := by
  unfold make at found ⊢
  dsimp only at found ⊢
  split at found
  · exact absurd found (Lawful.not_infinity_lt _)
  · next defined => rw [if_neg defined]

theorem Sample.not_isBetterThan_self [Unbounded F] [Lawful F] (sample : Sample F) :
    sample.isBetterThan sample = false := by
  simp [isBetterThan, Lawful.lt_irrefl]

theorem Tally.best_mem [Unbounded F] [Lawful F] {x : Vector F n}
    {evaluations : List (Evaluation F n)}
    (found : (after x evaluations).best.value < Unbounded.infinity) :
    ⟨(after x evaluations).best.point, (after x evaluations).best.value,
      (after x evaluations).best.gradient⟩ ∈ evaluations := by
  rcases after_best x evaluations with ⟨earlier, least, later, split, _, _, best⟩ | ⟨_, best⟩
  · rw [best, split]
    exact List.mem_append_right _ List.mem_cons_self
  · rw [best] at found
    exact absurd found (Lawful.not_infinity_lt _)

/-- The position is what the evaluations make of it, of which `first` is the one at the start.
Some of them, `begun`, were known before. -/
structure Faithful [Unbounded F] (kernels : Kernels F n) (first : Evaluation F n)
    (begun evaluations : List (Evaluation F n)) (position : Position F n) : Prop where
  kept : begun <+: evaluations
  tally : position.tally = .after first.point evaluations
  initialGradientNorm : position.initialGradientNorm =
    sqrt (kernels.normSquared (kernels.update (.scale (-1)) first.gradient))
  evaluated : position.real = true → position.value < Unbounded.infinity →
    ⟨position.x, position.value, position.gradient⟩ ∈ evaluations

theorem Faithful.anew [Unbounded F] {kernels : Kernels F n} {first : Evaluation F n}
    {begun evaluations : List (Evaluation F n)} {position : Position F n}
    (faithful : Faithful kernels first begun evaluations position) :
    Faithful kernels first evaluations evaluations position :=
  { faithful with kept := List.prefix_rfl }

namespace Minimization

variable {m : Type → Type} [Monad m] [MonadExceptOf Fault m] {World : Type} [Execution m World]
variable [Unbounded F] [Lawful F]
variable {kernels : Kernels F n} {settings : Settings F} {caller : Caller m F n}
variable {before after : Journal F n × World} {iteration : Nat} {state left : State F n}
variable {first : Evaluation F n} {begun : List (Evaluation F n)}

/-- A sample of the line from `state` that was evaluated, unless its value is not below
infinity. -/
def Known (kernels : Kernels F n) (state : State F n) (evaluations : List (Evaluation F n))
    (marked : Marked F n) : Prop :=
  marked.sample.value < Unbounded.infinity →
    ⟨state.pointAt kernels marked.sample.step, marked.sample.value, marked.gradient⟩ ∈ evaluations

/-- What holds of a trail along the line from `state`, which starts with the sample `start` after
the evaluations `known`. -/
structure Traced (kernels : Kernels F n) (first : Evaluation F n) (state : State F n)
    (start : Sample F) (known : List (Evaluation F n)) (trail : Trail F n)
    (evaluations : List (Evaluation F n)) : Prop where
  tally : trail.tally = .after first.point evaluations
  kept : known <+: evaluations
  best : trail.line.best.sample = start ∨ Known kernels state evaluations trail.line.best

omit [Lawful F] in
-- The iterate stays where it is while a line is searched. Only the tally moves on.
theorem faithful_searched {start : Sample F} {known evaluations : List (Evaluation F n)}
    {trail : Trail F n} {line : State F n}
    (faithful : Faithful kernels first begun known state.position)
    (traced : Traced kernels first line start known trail evaluations) :
    Faithful kernels first begun evaluations { state.position with tally := trail.tally } where
  kept := faithful.kept.trans traced.kept
  tally := traced.tally
  initialGradientNorm := faithful.initialGradientNorm
  evaluated := fun real found => traced.kept.subset (faithful.evaluated real found)

omit [Lawful F] in
theorem evaluateIterate_faithful
    (faithful : Faithful kernels first begun (Journal.evaluations before.1) state.position)
    (ran : Returns (evaluateIterate caller.recorded state) before left after) :
    Faithful kernels first begun (Journal.evaluations after.1) left.position := by
  obtain ⟨value, gradient, answered, rfl⟩ := evaluateIterate_returns ran
  have grown := Caller.evaluations_of_evaluate answered
  constructor
  · rw [grown]
    exact faithful.kept.trans (List.prefix_append _ _)
  · have counted := faithful.tally
    simp only [State.position] at counted ⊢
    rw [grown, Tally.after_append, counted]
  · exact faithful.initialGradientNorm
  · intro _ _
    rw [grown]
    exact List.mem_append_right _ (List.mem_singleton_self _)

theorem probe_traced {start : Sample F} {known : List (Evaluation F n)} {step : F}
    {trail next : Trail F n} {marked : Marked F n}
    (traced : Traced kernels first state start known trail (Journal.evaluations before.1))
    (ran : Returns (probe kernels caller.recorded state step trail) before (marked, next) after) :
    Traced kernels first state start known next (Journal.evaluations after.1) ∧
      Known kernels state (Journal.evaluations after.1) marked := by
  obtain ⟨value, gradient, answered, rfl, counted, added⟩ := probe_returns ran
  have grown := Caller.evaluations_of_evaluate answered
  have probed : Known kernels state (Journal.evaluations after.1)
      ⟨.make step value (kernels.dot gradient state.direction), gradient⟩ := by
    intro found
    rw [Sample.make_value found, grown]
    exact List.mem_append_right _ (List.mem_singleton_self _)
  refine ⟨⟨?_, ?_, ?_⟩, probed⟩
  -- the record keeps its best sample or takes the new one
  · rw [counted, traced.tally, grown, Tally.after_append]
  · rw [grown]
    exact traced.kept.trans (List.prefix_append _ _)
  · rw [added, Record.add]
    split
    · exact Or.inr probed
    · have best : trail.line.best.sample = start ∨
          Known kernels state (Journal.evaluations after.1) trail.line.best := by
        rcases traced.best with same | old
        · exact Or.inl same
        · refine Or.inr fun found => ?_
          rw [grown]
          exact List.mem_append_left _ (old found)
      split <;> exact best

omit [Lawful F] in
theorem Known.mono {known evaluations : List (Evaluation F n)} {marked : Marked F n}
    (old : Known kernels state known marked)
    (kept : known <+: evaluations) : Known kernels state evaluations marked :=
  fun found => kept.subset (old found)

omit [Lawful F] in
theorem downhill_position {slope? : Option F}
    (ran : Returns (downhill kernels caller.recorded iteration state) before (slope?, left)
      after) :
    left.position = state.position ∧
      Journal.evaluations after.1 = Journal.evaluations before.1 := by
  refine ⟨downhill_keeps ran, ?_⟩
  rcases downhill_returns ran with ⟨_, _, _, rfl⟩ | ⟨_, noted, _⟩
  · rfl
  · exact Caller.evaluations_of_note noted

omit [Lawful F] in
theorem move_faithful {line : Record F n} {target : State.Move F n}
    (faithful : Faithful kernels first begun (Journal.evaluations before.1) state.position)
    (evaluated : target.real = true → target.value < Unbounded.infinity →
      ⟨state.pointAt kernels target.step, target.value, target.gradient⟩ ∈
        Journal.evaluations before.1)
    (ran : Returns (move kernels settings caller.recorded iteration state line target) before
      left after) :
    Faithful kernels first begun (Journal.evaluations after.1) left.position := by
  obtain ⟨rfl, noted⟩ := move_returns ran
  have same : Journal.evaluations after.1 = Journal.evaluations before.1 := by
    rcases noted with ⟨_, rfl⟩ | ⟨_, _, noted⟩
    · rfl
    · exact Caller.evaluations_of_note noted
  rw [same, State.advance_position]
  exact ⟨faithful.kept, faithful.tally, faithful.initialGradientNorm, evaluated⟩

theorem search_traced {start : Sample F} {known : List (Evaluation F n)} {step : F}
    {bracket : Bracket F} {trail next : Trail F n} {found : Found F}
    (traced : Traced kernels first state start known trail (Journal.evaluations before.1))
    (ran : Returns
      (search settings.tuning (probing kernels caller.recorded state) step bracket trail) before
      (found, next) after) :
    Traced kernels first state start known next (Journal.evaluations after.1) := by
  obtain ⟨_, last, _⟩ := search_invariant
    (fun _ trail world =>
      Traced kernels first state start known trail (Journal.evaluations world.1))
    (fun _ _ _ _ _ _ traced _ probed => by
      obtain ⟨_, rfl, probes⟩ := probing_returns probed
      exact (probe_traced traced probes).1)
    traced ran
  exact last

omit [Lawful F] in
theorem opening_traced {start : Sample F} {known : List (Evaluation F n)} {opened : Bracket F}
    {kept : Option (Marked F n)} (counted : state.tally = .after first.point known)
    (probed : ∀ probe ∈ kept, Known kernels state known probe) :
    Traced kernels first state start known
      { tally := state.tally
        line := (opening settings.tuning opened (.create start state.gradient) kept).1 }
      known where
  tally := counted
  kept := List.prefix_rfl
  best := by
    cases kept with
    | none => exact Or.inl rfl
    | some probe =>
      have fresh : Record.create start state.gradient =
          { best := ⟨start, state.gradient⟩, second := none } := rfl
      simp only [opening, Record.add, fresh, Option.all_none, if_true]
      split
      · exact Or.inr (probed probe rfl)
      · exact Or.inl rfl

theorem searchLine_faithful {slope step : F} {kept : Option (Marked F n)}
    (faithful : Faithful kernels first begun (Journal.evaluations before.1) state.position)
    (probed : ∀ probe ∈ kept, Known kernels state (Journal.evaluations before.1) probe)
    (ran : Returns
      (searchLine kernels settings caller.recorded iteration state slope kept step) before left
      after) :
    Faithful kernels first begun (Journal.evaluations after.1) left.position := by
  obtain ⟨opened, found, trail, middle, _, searched, ends⟩ := searchLine_returns ran
  have traced := search_traced (opening_traced faithful.tally probed) searched
  have arrived : Faithful kernels first begun (Journal.evaluations middle.1)
      (State.position { state with tally := trail.tally }) :=
    faithful_searched faithful traced
  rcases ends with ⟨better, moved⟩ | ⟨_, noted, rfl⟩
  · refine move_faithful arrived ?_ moved
    intro _ below
    rcases traced.best with same | known
    · rw [same, Sample.not_isBetterThan_self] at better
      exact absurd better Bool.false_ne_true
    · exact known below
  · rw [Caller.evaluations_of_note noted, State.noteProgress_position, State.restart_position]
    exact arrived

theorem settle_faithful {probe : Marked F n} {bestBefore : F} {keep : Bool}
    (faithful : Faithful kernels first begun (Journal.evaluations before.1) state.position)
    (probed : Known kernels state (Journal.evaluations before.1) probe)
    (ran : Returns (settle kernels caller.recorded iteration state probe bestBefore) before
      (keep, left) after) :
    Faithful kernels first begun (Journal.evaluations after.1) left.position ∧
      (keep = true → Known kernels left (Journal.evaluations after.1) probe) := by
  rcases settle_returns ran with ⟨_, _, rfl, noted⟩ | ⟨_, evaluated, middle, answered, ends⟩
  · rw [Caller.evaluations_of_note noted]
    exact ⟨faithful, fun _ => probed⟩
  · have settled := evaluateIterate_faithful faithful answered
    rcases ends with ⟨_, _, rfl, noted⟩ | ⟨_, rfl, rfl, noted⟩
    · rw [Caller.evaluations_of_note noted]
      refine ⟨settled, fun _ => ?_⟩
      obtain ⟨value, gradient, asked, rfl⟩ := evaluateIterate_returns answered
      refine Known.mono probed ?_
      rw [Caller.evaluations_of_evaluate asked]
      exact List.prefix_append _ _
    · rw [Caller.evaluations_of_note noted]
      refine ⟨⟨settled.kept, settled.tally, settled.initialGradientNorm, fun _ found => ?_⟩,
        by simp⟩
      -- below infinity the best value belongs to an evaluation, so the iterate is one again
      have counted : evaluated.tally = .after first.point (Journal.evaluations middle.1) :=
        settled.tally
      have found' : evaluated.tally.best.value < Unbounded.infinity := found
      rw [counted] at found'
      have member := Tally.best_mem found'
      rw [← counted] at member
      exact member

theorem careful_faithful {probe : Marked F n} {step bestBefore : F}
    (faithful : Faithful kernels first begun (Journal.evaluations before.1) state.position)
    (probed : Known kernels state (Journal.evaluations before.1) probe)
    (ran : Returns (careful kernels settings caller.recorded iteration state probe step bestBefore)
      before left after) :
    Faithful kernels first begun (Journal.evaluations after.1) left.position := by
  obtain ⟨keep, settled, middle, kept, slope?, turned, next, settles, turns, ends⟩ :=
    careful_returns ran
  obtain ⟨faithful, probed⟩ := settle_faithful faithful probed settles
  -- the probe lies on the old line, so it is given up when the direction turns
  have still : Faithful kernels first begun (Journal.evaluations next.1) turned.position ∧
      (kept = true → Known kernels turned (Journal.evaluations next.1) probe) := by
    rcases searchSlope_returns turns with ⟨keeps, _, _, _, rfl, rfl⟩ | ⟨_, rfl, goesDown⟩
    · exact ⟨faithful, fun _ => probed keeps⟩
    · obtain ⟨same, asked⟩ := downhill_position goesDown
      rw [same, asked]
      exact ⟨faithful, by simp⟩
  rcases ends with ⟨_, rfl, rfl⟩ | ⟨slope, _, searched⟩
  · rw [State.withoutDirection_position]
    exact still.1
  · refine searchLine_faithful still.1 ?_ searched
    intro taken member
    cases kept with
    | false => exact absurd member (by simp)
    | true =>
      obtain rfl : probe = taken := by simpa using member
      exact still.2 rfl

theorem iterate_faithful
    (faithful : Faithful kernels first begun (Journal.evaluations before.1) state.position)
    (ran : Returns (iterate kernels settings caller.recorded iteration state) before left after) :
    Faithful kernels first begun (Journal.evaluations after.1) left.position := by
  obtain ⟨slope?, turned, middle, turns, ends⟩ := iterate_returns ran
  obtain ⟨same, asked⟩ := downhill_position turns
  rw [← same, ← asked] at faithful
  rcases ends with ⟨_, rfl, rfl⟩ | ⟨slope, step, stepped, probed, trail, next, _, chosen, probes,
    ends⟩
  · rw [State.withoutDirection_position]
    exact faithful
  · obtain ⟨jitter, stepping⟩ := turned.probeStep_eq settings
    rw [chosen] at stepping
    obtain rfl : stepped = { turned with jitter } := stepping
    have fresh : Traced kernels first { turned with jitter } (.make 0 turned.value slope)
        (Journal.evaluations middle.1)
        { tally := turned.tally, line := .create (.make 0 turned.value slope) turned.gradient }
        (Journal.evaluations middle.1) :=
      ⟨faithful.tally, List.prefix_rfl, Or.inl rfl⟩
    obtain ⟨traced, known⟩ := probe_traced fresh probes
    have arrived : Faithful kernels first begun (Journal.evaluations next.1)
        (State.position { turned with jitter, tally := trail.tally }) :=
      faithful_searched faithful traced
    rcases ends with ⟨fit, _, moved⟩ | ⟨_, searched⟩
    -- a fitted iterate is not real and promises nothing
    · refine move_faithful arrived ?_ moved
      intro real
      exact absurd real (by simp)
    · exact careful_faithful arrived known searched

omit [Lawful F] in
theorem confirm_faithful
    (faithful : Faithful kernels first begun (Journal.evaluations before.1) state.position)
    (ran : Returns (confirm kernels settings caller.recorded state) before left after) :
    Faithful kernels first begun (Journal.evaluations after.1) left.position := by
  rcases confirm_returns ran with ⟨_, _, answered⟩ | ⟨_, rfl, rfl⟩
  · exact evaluateIterate_faithful faithful answered
  · exact faithful

omit [Lawful F] in
theorem check_faithful {done : Nat} {termination? : Option Termination}
    (faithful : Faithful kernels first begun (Journal.evaluations before.1) state.position)
    (ran : Returns (check kernels settings caller.recorded done state) before
      (termination?, left) after) :
    Faithful kernels first begun (Journal.evaluations after.1) left.position := by
  rcases check_returns ran with ⟨polled, _, rfl⟩ | ⟨polled, asked, stop, polls, asks, ends⟩
  · rw [Caller.evaluations_of_isCancelled polled]
    exact faithful
  · rw [← Caller.evaluations_of_isCancelled polls,
      ← Caller.evaluations_of_shouldStop asks] at faithful
    rcases ends with ⟨_, cancelled, _, rfl⟩ | ⟨_, _, _, rfl, rfl⟩ | ⟨_, _, confirms, _⟩
    · rw [Caller.evaluations_of_cancel cancelled]
      exact faithful
    · exact faithful
    · exact confirm_faithful faithful confirms

theorem advances_faithful {done : Nat}
    (faithful : Faithful kernels first begun (Journal.evaluations before.1) state.position)
    (advances : Advances kernels settings caller.recorded done state before left after) :
    Faithful kernels first begun (Journal.evaluations after.1) left.position := by
  obtain ⟨iterated, _, iterates, notes⟩ := advances
  rw [Caller.evaluations_of_note notes]
  exact iterate_faithful faithful iterates

theorem passes_faithful {done last : Nat}
    (faithful : Faithful kernels first begun (Journal.evaluations before.1) state.position)
    (passes : Passes kernels settings caller.recorded done state before last left after) :
    Faithful kernels first begun (Journal.evaluations after.1) left.position := by
  refine passes_invariant (fun _ state world =>
    Faithful kernels first begun (Journal.evaluations world.1) state.position) ?_ passes faithful
  rintro done state before next after faithful ⟨checked, middle, checks, advances⟩
  exact advances_faithful (check_faithful faithful checks) advances

/-- The state that a run ends with is faithful to everything evaluated until then. -/
theorem runs_faithful {done : Nat} {ended : Ended F n}
    (faithful : Faithful kernels first begun (Journal.evaluations before.1) state.position)
    (runs : Runs kernels settings caller.recorded done state before ended after) :
    Faithful kernels first begun (Journal.evaluations after.1) ended.state.position := by
  obtain ⟨last, middle, passes, ends⟩ := runs
  have reached := passes_faithful faithful passes
  rcases ends with checks | ⟨final, checks, _, cancelled, _⟩
  · exact check_faithful reached checks
  · rw [Caller.evaluations_of_cancel cancelled]
    exact check_faithful reached checks

end Minimization

end Descent

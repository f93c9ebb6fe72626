import Descent.Proofs.Binary
import Descent.Proofs.Journal
import Descent.Proofs.Search
import Descent.Proofs.Stages

/-!
Where a careful search starts. A fitted iterate that turns out worse than the best point known is
given up for that point, but only if it is the search that evaluates it. The check before the
iteration may evaluate it as well; it is real from then on, and the search starts there.
-/

namespace Descent

open Scalar Execution

/-! Values against the best one. -/

section Values

variable {F : Type} [Unbounded F] {n : Nat}

/-- What a sample keeps of a value. -/
def Sample.stored (value : F) : F := (Sample.make 0 value 0).value

/-- The iterate was evaluated, and it is above the best value known. -/
def Position.Stranded (position : Position F n) : Prop :=
  position.real = true ∧ ¬ Sample.stored position.value ≤ position.tally.best.value

def Trail.Covers (trail : Trail F n) : Prop :=
  trail.line.best.sample.value ≤ trail.tally.best.value

def Trail.add (trail : Trail F n) (point : Vector F n) (step value slope : F)
    (gradient : Vector F n) : Trail F n where
  tally := trail.tally.add point value gradient
  line := trail.line.add (.make step value slope) gradient

theorem Tally.add_value (tally : Tally F n) (point : Vector F n) (value : F)
    (gradient : Vector F n) :
    (tally.add point value gradient).best.value =
      if value < tally.best.value then value else tally.best.value := by
  unfold add
  split <;> rfl

variable [Lawful F]

theorem Sample.stored_eq {value : F} (defined : value ≤ value) : stored value = value := by
  rw [stored, make, if_neg]
  rw [Lawful.isNaN_eq_false_iff.mpr defined]
  exact Bool.false_ne_true

theorem Tally.add_le {tally : Tally F n} (defined : tally.best.value ≤ tally.best.value)
    (point : Vector F n) (value : F) (gradient : Vector F n) :
    (tally.add point value gradient).best.value ≤ tally.best.value := by
  rw [add_value]
  split
  · next lower => exact Lawful.le_of_lt lower
  · exact defined

theorem Tally.le_add {tally : Tally F n} {other : F} (lowest : other ≤ tally.best.value)
    (point : Vector F n) (value : F) (gradient : Vector F n) :
    other ≤ (tally.add point value gradient).best.value ∨
      Sample.stored value ≤ (tally.add point value gradient).best.value := by
  rw [add_value]
  split
  · next lower =>
    have defined := (Lawful.defined_of_le (Lawful.le_of_lt lower)).1
    rw [Sample.stored_eq defined]
    exact .inr defined
  · exact .inl lowest

theorem Sample.not_lt_of_worse {a b : Sample F} (worse : a.isBetterThan b = false) :
    ¬ a.value < b.value := by
  intro lower
  rw [isBetterThan_iff.mpr (.inl lower)] at worse
  exact nomatch worse

namespace Record

variable {line : Record F n} {sample : Sample F} {gradient : Vector F n}

theorem add_le_best (defined : line.best.sample.value ≤ line.best.sample.value) :
    (line.add sample gradient).best.sample.value ≤ line.best.sample.value := by
  unfold add
  split
  · next better => exact Sample.value_le_of_isBetterThan better
  · split <;> exact defined

theorem add_le_sample (defined : line.best.sample.value ≤ line.best.sample.value)
    (known : sample.value ≤ sample.value) :
    (line.add sample gradient).best.sample.value ≤ sample.value := by
  unfold add
  split
  · exact known
  · next worse =>
    have atMost : line.best.sample.value ≤ sample.value :=
      Lawful.le_of_not_lt known defined (Sample.not_lt_of_worse (Bool.eq_false_iff.mpr worse))
    split <;> exact atMost

end Record

theorem Trail.Covers.add {trail : Trail F n} (covers : trail.Covers) (point : Vector F n)
    (step value slope : F) (gradient : Vector F n) :
    (trail.add point step value slope gradient).Covers := by
  have defined := (Lawful.defined_of_le covers).1
  rw [Covers, Trail.add, Tally.add_value]
  split
  · next lower =>
    have known : (Sample.make step value slope).value = value :=
      Sample.stored_eq (Lawful.defined_of_le (Lawful.le_of_lt lower)).1
    have atMost : (trail.line.add (.make step value slope) gradient).best.sample.value ≤
        (Sample.make step value slope).value :=
      Record.add_le_sample defined (Sample.make_value_defined step value slope)
    rw [known] at atMost
    exact atMost
  · exact Lawful.le_trans (Record.add_le_best defined) covers

end Values

namespace Minimization

def Plan.start? {F : Type} [Unbounded F] {n : Nat} : Plan F n → Option (Sample F)
  | .rest _ | .leap _ _ => none
  | .explore state slope _ _ => some (.make 0 state.value slope)

/-! What a careful search keeps. -/

section Search

variable {m : Type → Type} [Monad m] [MonadExceptOf Fault m] {World : Type} [Execution m World]
variable {F : Type} [Unbounded F] {n : Nat}
variable {kernels : Kernels F n} {settings : Settings F} {caller : Caller m F n}
variable {before after : World} {iteration : Nat} {state left : State F n}

theorem probe_adds {step : F} {trail next : Trail F n} {marked : Marked F n}
    (ran : Returns (probe kernels caller state step trail) before (marked, next) after) :
    ∃ value gradient, next =
      trail.add (state.pointAt kernels step) step value (kernels.dot gradient state.direction)
        gradient := by
  obtain ⟨value, gradient, _, rfl, counted, added⟩ := probe_returns ran
  refine ⟨value, gradient, ?_⟩
  cases next
  exact congrArg₂ Trail.mk counted added

theorem search_adds {tuning : Tuning F} {firstStep : F} {bracket : Bracket F}
    {trail next : Trail F n} {found : Found F} (Kept : Trail F n → Prop)
    (adds : ∀ trail point step value slope gradient, Kept trail →
      Kept (trail.add point step value slope gradient))
    (kept : Kept trail)
    (ran : Returns (search tuning (probing kernels caller state) firstStep bracket trail) before
      (found, next) after) : Kept next := by
  obtain ⟨_, last, _⟩ := search_invariant (fun _ trail _ => Kept trail)
    (fun _ trail _ _ next _ kept _ probed => by
      obtain ⟨marked, _, probes⟩ := probing_returns probed
      obtain ⟨value, gradient, rfl⟩ := probe_adds probes
      exact adds _ _ _ _ _ _ kept)
    kept ran
  exact last

theorem move_position {line : Record F n} {target : State.Move F n}
    (ran : Returns (move kernels settings caller iteration state line target) before left after) :
    left.tally = state.tally ∧ left.value = target.value ∧ left.real = target.real := by
  obtain ⟨rfl, _⟩ := move_returns ran
  have moved := state.advance_position kernels settings line target
  exact ⟨congrArg Position.tally moved, congrArg Position.value moved,
    congrArg Position.real moved⟩

variable [Lawful F]

theorem searchLine_lowers {slope step : F} {kept : Option (Marked F n)}
    (defined : state.tally.best.value ≤ state.tally.best.value)
    (ran : Returns (searchLine kernels settings caller iteration state slope kept step) before
      left after) : left.tally.best.value ≤ state.tally.best.value := by
  obtain ⟨opened, found, trail, middle, _, searched, ends⟩ := searchLine_returns ran
  have lower : trail.tally.best.value ≤ state.tally.best.value := by
    refine search_adds (fun trail => trail.tally.best.value ≤ state.tally.best.value) ?_ defined
      searched
    intro trail point step value slope gradient lower
    have known := (Lawful.defined_of_le lower).1
    exact Lawful.le_trans (Tally.add_le known point value gradient) lower
  rcases ends with ⟨_, moved⟩ | ⟨_, _, rfl⟩
  · rw [(move_position moved).1]
    exact lower
  · exact lower

/-- The start of a line or the probe that is taken over is not above the best value. -/
def Abreast (position : Position F n) (kept : Option (Marked F n)) : Prop :=
  Sample.stored position.value ≤ position.tally.best.value ∨
    ∃ probe ∈ kept, probe.sample.value ≤ position.tally.best.value

theorem opening_covers {kept : Option (Marked F n)} (abreast : Abreast state.position kept)
    (tuning : Tuning F) (opened : Bracket F) (slope : F) :
    Trail.Covers
      { tally := state.tally
        line := (opening tuning opened
          (.create (.make 0 state.value slope) state.gradient) kept).1 } := by
  have start := Sample.make_value_defined 0 state.value slope
  cases kept with
  | none =>
    rcases abreast with atMost | ⟨_, impossible, _⟩
    · exact atMost
    · exact nomatch impossible
  | some probe =>
    rcases abreast with atMost | ⟨_, ⟨⟩, atMost⟩
    · exact Lawful.le_trans (Record.add_le_best start) atMost
    · exact Lawful.le_trans (Record.add_le_sample start (Lawful.defined_of_le atMost).1) atMost

/-- A search that starts abreast of the best value, or takes over a probe that is, does not end
above it. -/
theorem searchLine_abreast {slope step : F} {kept : Option (Marked F n)}
    (abreast : Abreast state.position kept)
    (ran : Returns (searchLine kernels settings caller iteration state slope kept step) before
      left after) : ¬ left.position.Stranded := by
  obtain ⟨opened, found, trail, middle, _, searched, ends⟩ := searchLine_returns ran
  have covers : trail.Covers :=
    search_adds Trail.Covers (fun _ _ _ _ _ _ covers => covers.add _ _ _ _ _)
      (opening_covers abreast settings.tuning opened slope) searched
  rintro ⟨_, above⟩
  refine above ?_
  rcases ends with ⟨_, moved⟩ | ⟨worse, _, rfl⟩
  · obtain ⟨tally, value, _⟩ := move_position moved
    change Sample.stored left.value ≤ left.tally.best.value
    rw [tally, value, Sample.stored_eq (Lawful.defined_of_le covers).1]
    exact covers
  · have start : (Sample.make 0 state.value slope).value ≤ trail.line.best.sample.value :=
      Lawful.le_of_not_lt (Lawful.defined_of_le covers).1
        (Sample.make_value_defined 0 state.value slope) (Sample.not_lt_of_worse worse)
    exact Lawful.le_trans start covers

end Search

/-! Where a plan leads. -/

section Leads

variable {m : Type → Type} [Monad m] [MonadExceptOf Fault m] {World : Type} [Execution m World]
variable {F : Type} [Unbounded F] {n : Nat}
variable {kernels : Kernels F n} {settings : Settings F} {caller : Caller m F n}
variable {before after : World} {iteration : Nat} {state left chosen : State F n}
variable {kept : Option (Marked F n)} {slope step : F}

/-- A careful search starts at a real iterate. One that was real before keeps its value, and one
that was fitted does not end up above the best value known before. -/
structure Chosen (bestBefore : F) (position chosen : Position F n) (kept : Option (Marked F n)) :
    Prop where
  real : chosen.real = true
  notAbove : chosen.tally.best.value ≤ bestBefore
  same : position.real = true → chosen.value = position.value
  lowest : position.real = false → Sample.stored chosen.value ≤ bestBefore
  abreast : Sample.stored chosen.value ≤ bestBefore → kept = none ∨ Abreast chosen kept

theorem searchSlope_keep {keep taken : Bool} {slope? : Option F}
    (ran : Returns (searchSlope kernels caller iteration state keep) before (taken, slope?, left)
      after) (takes : taken = true) : keep = true := by
  rcases searchSlope_returns ran with ⟨keeps, _⟩ | ⟨_, gives, _⟩
  · exact keeps
  · exact nomatch takes.symm.trans gives

theorem look_adds {view : Probed F n}
    (looks : Returns (look kernels settings caller iteration state) before (.probed view) after) :
    ∃ point value gradient,
      view.state.position =
        { state.position with tally := state.tally.add point value gradient } ∧
      view.probe.sample.value = Sample.stored value ∧
      view.bestBefore = state.tally.best.value := by
  obtain ⟨turned, _, jitter, trail, turns, _, probes, viewed, _, known⟩ := look_probed looks
  obtain ⟨value, gradient, _, marked, counted, _⟩ := probe_returns probes
  have same := downhill_keeps turns
  have tally : turned.tally = state.tally := congrArg Position.tally same
  rw [viewed, known, marked, ← tally]
  refine ⟨turned.pointAt kernels view.step, value, gradient, ?_, rfl, rfl⟩
  change { turned.position with tally := trail.tally } = _
  rw [same, counted]
  rfl

variable [Lawful F]

omit [Lawful F] in
theorem Chosen.of_fitted {bestBefore : F} {position chosen : Position F n}
    (fitted : position.real = false) (real : chosen.real = true)
    (notAbove : chosen.tally.best.value ≤ bestBefore)
    (lowest : Sample.stored chosen.value ≤ bestBefore)
    (abreast : Sample.stored chosen.value ≤ bestBefore → kept = none ∨ Abreast chosen kept) :
    Chosen bestBefore position chosen kept where
  real
  notAbove
  same wasReal := nomatch wasReal.symm.trans fitted
  lowest _ := lowest
  abreast

theorem settle_chosen {probe : Marked F n} {bestBefore : F} {keep : Bool}
    (notAbove : state.tally.best.value ≤ bestBefore)
    (probed : ∀ value ≤ bestBefore, value ≤ state.tally.best.value ∨
      probe.sample.value ≤ state.tally.best.value)
    (ran : Returns (settle kernels caller iteration state probe bestBefore) before
      (keep, left) after) :
    Chosen bestBefore state.position left.position (if keep then some probe else none) := by
  rcases settle_returns ran with ⟨real, rfl, rfl, _⟩ | ⟨fitted, evaluated, middle, answered, ends⟩
  · constructor
    · exact real
    · exact notAbove
    · exact fun _ => rfl
    · exact fun fitted => nomatch real.symm.trans fitted
    · exact fun lowest => .inr ((probed _ lowest).imp_right fun atMost => ⟨probe, rfl, atMost⟩)
  · obtain ⟨value, gradient, _, rfl⟩ := evaluateIterate_returns answered
    have lower := Tally.add_le (Lawful.defined_of_le notAbove).1 state.x value gradient
    have stillNotAbove := Lawful.le_trans lower notAbove
    rcases ends with ⟨good, rfl, rfl, _⟩ | ⟨_, rfl, rfl, _⟩
    · have stored := Sample.stored_eq (Lawful.defined_of_le good).1
      refine .of_fitted fitted rfl stillNotAbove (stored.symm ▸ good) fun lowest => .inr ?_
      -- what was known to be low enough still is, or the new value is
      rcases probed _ lowest with near | near
      · exact .inl ((Tally.le_add near state.x value gradient).elim id id)
      · rcases Tally.le_add near state.x value gradient with atMost | atMost
        · exact .inr ⟨probe, rfl, atMost⟩
        · exact .inl atMost
    · have stored := Sample.stored_eq (Lawful.defined_of_le lower).1
      exact .of_fitted fitted rfl stillNotAbove (stored.symm ▸ stillNotAbove) fun _ => .inl rfl

/-- The line that is taken starts with what was settled, and the probe may still be given up. -/
theorem reconsider_chosen {view : Probed F n} {planned : Plan F n}
    (notAbove : view.state.tally.best.value ≤ view.bestBefore)
    (probed : ∀ value ≤ view.bestBefore, value ≤ view.state.tally.best.value ∨
      view.probe.sample.value ≤ view.state.tally.best.value)
    (ran : Returns ((Engine.plain kernels settings caller).reconsider iteration view) before planned
      after) :
    ∃ (slope? : Option F) (turned : State F n) (kept : Option (Marked F n)),
      Chosen view.bestBefore view.state.position turned.position kept ∧
      planned = slope?.elim (.rest turned) fun slope => .explore turned slope kept view.step := by
  obtain ⟨keep, settled, _, taken, slope?, turned, settles, turns, same⟩ := reconsider_returns ran
  have first := settle_chosen notAbove probed settles
  rw [← searchSlope_keeps turns] at first
  refine ⟨slope?, turned, if taken then some view.probe else none, ?_, same⟩
  cases taken with
  | false => exact { first with abreast := fun _ => .inl rfl }
  | true =>
    rw [searchSlope_keep turns rfl] at first
    exact first

theorem plan_leads {planned : Plan F n}
    (defined : state.tally.best.value ≤ state.tally.best.value)
    (plans : Returns (plan kernels settings caller iteration state) before planned after) :
    (∃ resting, planned = .rest resting ∧
      resting.tally.best.value ≤ state.tally.best.value) ∨
    (∃ view fit, planned = .leap view fit ∧
      view.state.tally.best.value ≤ state.tally.best.value) ∨
    ∃ chosen slope kept step, planned = .explore chosen slope kept step ∧
      Chosen state.tally.best.value state.position chosen.position kept := by
  rcases plan_returns plans with ⟨turned, rfl, looks⟩ | ⟨view, _, looks, ends⟩
  · have tally : turned.tally = state.tally :=
      congrArg Position.tally (downhill_keeps (look_level looks))
    rw [← tally] at defined ⊢
    exact .inl ⟨turned, rfl, defined⟩
  · obtain ⟨point, value, gradient, moved, stored, known⟩ := look_adds looks
    have tally : view.state.tally = state.tally.add point value gradient :=
      congrArg Position.tally moved
    have lower : view.state.tally.best.value ≤ state.tally.best.value := by
      rw [tally]
      exact Tally.add_le defined point value gradient
    rcases ends with ⟨fit, rfl, _⟩ | reconsiders
    · exact .inr (.inl ⟨view, fit, rfl, lower⟩)
    · have near (other : F) (atMost : other ≤ view.bestBefore) :
          other ≤ view.state.tally.best.value ∨
            view.probe.sample.value ≤ view.state.tally.best.value := by
        rw [known] at atMost
        rw [tally, stored]
        exact Tally.le_add atMost point value gradient
      rw [← known] at lower
      obtain ⟨slope?, turned, kept, chosen, rfl⟩ := reconsider_chosen lower near reconsiders
      rw [moved, known] at chosen
      cases slope? with
      | none => exact .inl ⟨turned, rfl, chosen.notAbove⟩
      | some slope =>
        exact .inr (.inr ⟨turned, slope, kept, view.step, rfl, chosen.real, chosen.notAbove,
          chosen.same, chosen.lowest, chosen.abreast⟩)

/-- An iteration from an iterate that is not stranded leaves one that is not, unless it has no
direction or has given up its probe and searched from a stranded one. -/
theorem iterate_abreast [LawfulMonad m]
    (defined : state.tally.best.value ≤ state.tally.best.value)
    (ran : Returns (iterate kernels settings caller iteration state) before left after) :
    left.tally.best.value ≤ state.tally.best.value ∧
    (left.position.Stranded → ¬ state.position.Stranded → left.directionNormSquared = 0 ∨
      ∃ chosen slope step middle,
        Returns (plan kernels settings caller iteration state) before
          (.explore chosen slope none step) middle ∧
        chosen.position.Stranded) := by
  obtain ⟨planned, middle, plans⟩ := iterate_plans ran
  rcases plan_leads defined plans with ⟨resting, rfl, lower⟩ | ⟨view, fit, rfl, lower⟩ |
    ⟨chosen, slope, kept, step, rfl, leads⟩
  · obtain rfl := iterate_rest plans ran
    exact ⟨lower, fun _ _ => .inl rfl⟩
  · obtain rfl := iterate_leaps plans ran
    have arrived := view.state.advance_position kernels settings view.line (view.leap kernels fit)
    have tally :
        (view.state.advance kernels settings view.line (view.leap kernels fit)).state.tally =
          view.state.tally := congrArg Position.tally arrived
    rw [tally]
    exact ⟨lower, fun fitted _ => nomatch fitted.1.symm.trans (congrArg Position.real arrived)⟩
  · have searches := iterate_explores plans ran
    have known := (Lawful.defined_of_le leads.notAbove).1
    refine ⟨Lawful.le_trans (searchLine_lowers known searches) leads.notAbove, ?_⟩
    intro stranded near
    right
    have lowest : Sample.stored chosen.position.value ≤ state.tally.best.value := by
      cases real : state.real with
      | true =>
        rw [leads.same real]
        exact Classical.not_not.mp fun above => near ⟨real, above⟩
      | false => exact leads.lowest real
    rcases leads.abreast lowest with rfl | abreast
    · refine ⟨chosen, slope, step, middle, plans, leads.real, fun atMost => ?_⟩
      exact searchLine_abreast (.inl atMost) searches stranded
    · exact absurd stranded (searchLine_abreast abreast searches)

theorem check_leads {done : Nat} {checked : State F n}
    (defined : state.tally.best.value ≤ state.tally.best.value)
    (checks : Returns (check kernels settings caller done state) before (none, checked) after) :
    checked.tally.best.value ≤ state.tally.best.value ∧
      ¬ isZero state.directionNormSquared = true ∧ (checked = state ∨ state.real = false) := by
  have directed := directed_of_verdict? (check_none checks)
  rcases check_left checks with rfl | ⟨fitted, _, answered⟩
  · exact ⟨defined, directed, .inl rfl⟩
  · obtain ⟨value, gradient, _, rfl⟩ := evaluateIterate_returns answered
    exact ⟨Tally.add_le defined _ _ _, directed, .inr fitted⟩

end Leads

/-! Whole runs. -/

section Runs

variable {m : Type → Type} [Monad m] [MonadExceptOf Fault m] {World : Type} [Execution m World]
variable {F : Type} [Unbounded F] {n : Nat}
variable {settings : Settings F} {runner : Runner} {caller : Caller m F n} {x : Vector F n}
variable {before after : World} {done : Nat} {state left : State F n}

variable (settings runner caller x before) in
/-- The two ways in which a run leaves its best point behind: a check finds out that a fitted
iterate is above it, or a careful search starts above it and has given up the probe. -/
inductive Strays : Nat → Prop where
  | checked {done state reached checked asked} :
      Visits settings runner caller x before done state reached →
      Returns (check (Kernels.shared F n settings.threads runner) settings caller done state)
        reached (none, checked) asked →
      state.real = false → checked.position.Stranded → Strays done
  | searched {done state reached checked asked chosen slope step entered} :
      Visits settings runner caller x before done state reached →
      Returns (check (Kernels.shared F n settings.threads runner) settings caller done state)
        reached (none, checked) asked →
      Returns
        (plan (Kernels.shared F n settings.threads runner) settings caller (done + 1) checked)
        asked (.explore chosen slope none step) entered →
      chosen.position.Stranded → Strays (done + 1)

variable (settings runner caller x before) in
/-- The best value is defined, and the iterate is stranded only if the run strayed before or has no
direction. -/
structure Straight (done : Nat) (state : State F n) : Prop where
  defined : state.tally.best.value ≤ state.tally.best.value
  strays : state.position.Stranded → state.directionNormSquared = 0 ∨
    ∃ k ≤ done, Strays settings runner caller x before k

variable [Lawful F]

theorem Straight.check {checked : State F n} {asked : World}
    (straight : Straight settings runner caller x before done state)
    (visits : Visits settings runner caller x before done state after)
    (checks : Returns
      (check (Kernels.shared F n settings.threads runner) settings caller done state) after
      (none, checked) asked)
    (stranded : checked.position.Stranded) :
    ∃ k ≤ done, Strays settings runner caller x before k := by
  obtain ⟨_, directed, rfl | fitted⟩ := check_leads straight.defined checks
  · refine (straight.strays stranded).resolve_left fun vanished => directed ?_
    rw [vanished]
    exact Lawful.beq_iff.mpr ⟨Lawful.zero_defined, Lawful.zero_defined⟩
  · exact ⟨done, le_rfl, .checked visits checks fitted stranded⟩

theorem start_straight {kernels : Kernels F n} {x : Vector F n} {value : F}
    {gradient : Vector F n} :
    Straight settings runner caller x before 0
      (.create kernels settings x value gradient ((Tally.create x).add x value gradient)) := by
  have first : (Tally.create x).best.value ≤ (Tally.create x).best.value :=
    Lawful.infinity_defined
  have below : Sample.stored value ≤ (Tally.create x).best.value :=
    Lawful.le_infinity (Sample.make_value_defined 0 value 0)
  constructor
  · exact (Lawful.defined_of_le (Tally.add_le first x value gradient)).1
  · rintro ⟨_, above⟩
    refine absurd ?_ above
    rcases Tally.le_add below x value gradient with atMost | atMost
    · exact atMost
    · exact atMost

variable [LawfulMonad m]

theorem visits_straight (visits : Visits settings runner caller x before done state after) :
    Straight settings runner caller x before done state := by
  refine visits_invariant (fun done state _ => Straight settings runner caller x before done state)
    ?_ ?_ visits
  · intro started begun starts _
    obtain ⟨value, gradient, _, rfl⟩ := start_returns starts
    exact start_straight
  · intro done state reached next world visits straight pass
    obtain ⟨checked, asked, checks, iterated, _, iterates, _⟩ := pass
    have known := (Lawful.defined_of_le (check_leads straight.defined checks).1).1
    obtain ⟨lower, strands⟩ := iterate_abreast known iterates
    constructor
    · exact (Lawful.defined_of_le lower).1
    · intro stranded
      by_cases earlier : checked.position.Stranded
      · obtain ⟨k, before, strays⟩ := straight.check visits checks earlier
        exact .inr ⟨k, Nat.le_succ_of_le before, strays⟩
      · rcases strands stranded earlier with undirected | ⟨_, _, _, _, plans, above⟩
        · exact .inl undirected
        · exact .inr ⟨done + 1, le_rfl, .searched visits checks plans above⟩

/-- A careful search starts at most at the best value that was known when its iteration began,
unless the iterate was real by then and above it. That is so only if the run strayed before: a
check found out that a fitted iterate is above the best value, or a careful search gave up its
probe and started above it. A fitted iterate that the search itself evaluates is backed out. -/
theorem search_outset (settings : Settings F) (runner : Runner) (caller : Caller m F n)
    (x : Vector F n) (before : World) (done : Nat) (state checked chosen : State F n)
    (reached asked entered : World) (slope step : F) (kept : Option (Marked F n))
    (visits : Visits settings runner caller x before done state reached)
    (checks : Returns
      (check (Kernels.shared F n settings.threads runner) settings caller done state) reached
      (none, checked) asked)
    (plans : Returns
      (plan (Kernels.shared F n settings.threads runner) settings caller (done + 1) checked)
      asked (.explore chosen slope kept step) entered) :
    ((Sample.make 0 chosen.value slope).value ≤ checked.tally.best.value ↔
      ¬ checked.position.Stranded) ∧
    (checked.position.Stranded → ∃ k ≤ done, Strays settings runner caller x before k) := by
  have straight := visits_straight visits
  have known := (Lawful.defined_of_le (check_leads straight.defined checks).1).1
  refine ⟨?_, straight.check visits checks⟩
  rcases plan_leads known plans with ⟨_, impossible, _⟩ | ⟨_, _, impossible, _⟩ |
    ⟨_, _, _, _, same, leads⟩
  · exact nomatch impossible
  · exact nomatch impossible
  · obtain ⟨rfl, rfl, rfl, rfl⟩ := Plan.explore.inj same
    change Sample.stored chosen.position.value ≤ checked.tally.best.value ↔ _
    constructor
    · rintro atMost ⟨real, above⟩
      rw [leads.same real] at atMost
      exact above atMost
    · intro near
      cases real : checked.real with
      | true =>
        rw [leads.same real]
        exact Classical.not_not.mp fun above => near ⟨real, above⟩
      | false => exact leads.lowest real

end Runs

/-! A valley with a wall across it. -/

section Wall

/-- Behind the wall everything is eight higher, with the same gradient. -/
def walled (x : Vector Float 2) : Float × Vector Float 2 :=
  let u := x.get ⟨0, Nat.zero_lt_two⟩
  let v := x.get ⟨1, Nat.one_lt_two⟩
  (u * u + 2 * v * v + if u < 0.5 then 8 else 0,
    Vector.ofFn fun i => if i.val = 0 then 2 * u else 4 * v)

def wallSettings : Settings Float :=
  { Settings.standard with firstStep := 0.125, gradientTolerance := 0.5 }

def wallCaller : Caller (Except Fault) Float 2 := .ofFunction walled

def wallKernels : Kernels Float 2 := .shared Float 2 1 .inOrder

def wallRun : Except Fault
    (Option Termination × Option Termination × State Float 2 × Plan Float 2) := do
  let started ← start wallKernels wallSettings wallCaller #v[1, 0.5]
  let (first?, checked) ← check wallKernels wallSettings wallCaller 0 started
  let next ← iterate wallKernels wallSettings wallCaller 1 checked
  let (second?, confirmed) ← check wallKernels wallSettings wallCaller 1 next
  let planned ← plan wallKernels wallSettings wallCaller 2 confirmed
  pure (first?, second?, confirmed, planned)

theorem wallRun_yields : Yields wallRun fun (first?, second?, confirmed, planned) =>
    first? = none ∧ second? = none ∧
      ∃ start ∈ planned.start?, confirmed.tally.best.value < start.value := by
  decide +kernel

theorem wall_searches : ∃ state checked chosen slope kept step,
    Visits wallSettings .inOrder wallCaller #v[1, 0.5] () 1 state () ∧
    Returns (check wallKernels wallSettings wallCaller 1 state) () (none, checked) () ∧
    Returns (plan wallKernels wallSettings wallCaller 2 checked) ()
      (.explore chosen slope kept step) () ∧
    checked.tally.best.value < (Sample.make 0 chosen.value slope).value := by
  obtain ⟨⟨first?, second?, confirmed, planned⟩, same, rfl, rfl, start, member, above⟩ :=
    wallRun_yields
  have ran : Returns wallRun () (none, none, confirmed, planned) () := same
  obtain ⟨started, _, starts, rest⟩ := returns_bind.mp ran
  obtain ⟨⟨first?, checked⟩, _, checks, rest⟩ := returns_bind.mp rest
  obtain ⟨next, _, iterates, rest⟩ := returns_bind.mp rest
  obtain ⟨⟨second?, confirmed'⟩, _, confirms, rest⟩ := returns_bind.mp rest
  obtain ⟨planned', _, plans, last⟩ := returns_bind.mp rest
  obtain ⟨answer, _⟩ := returns_pure.mp last
  obtain ⟨rfl, rfl, rfl, rfl⟩ : none = first? ∧ none = second? ∧ confirmed = confirmed' ∧
      planned = planned' := by
    simpa only [Prod.mk.injEq] using answer
  cases planned with
  | rest left => exact nomatch member
  | leap view fit => exact nomatch member
  | explore chosen slope kept step =>
    obtain rfl := Option.some.inj member
    have pass : Pass wallKernels wallSettings wallCaller 0 started () next () :=
      ⟨checked, (), checks, (), by decide, iterates, rfl⟩
    exact ⟨next, confirmed, chosen, slope, kept, step,
      ⟨by decide, started, (), starts, .next pass (.refl _ _ _)⟩, confirms, plans, above⟩

/-- Here the search starts above the best value: the check has evaluated the fit behind the wall. -/
theorem search_outset_wall : ∃ state checked chosen slope kept step,
    Visits wallSettings .inOrder wallCaller #v[1, 0.5] () 1 state () ∧
    Returns (check wallKernels wallSettings wallCaller 1 state) () (none, checked) () ∧
    Returns (plan wallKernels wallSettings wallCaller 2 checked) ()
      (.explore chosen slope kept step) () ∧
    checked.position.Stranded ∧
    ∃ k ≤ 1, Strays wallSettings .inOrder wallCaller #v[1, 0.5] () k := by
  obtain ⟨state, checked, chosen, slope, kept, step, visits, checks, plans, above⟩ :=
    wall_searches
  obtain ⟨notAbove, strays⟩ := search_outset wallSettings .inOrder wallCaller #v[1, 0.5] () 1 state
    checked chosen () () () slope step kept visits checks plans
  have stranded : checked.position.Stranded := by
    by_contra near
    exact Lawful.not_le_of_lt above (notAbove.mpr near)
  exact ⟨state, checked, chosen, slope, kept, step, visits, checks, plans, stranded,
    strays stranded⟩

/-- Not every search starts at most at the best value that was known when its iteration began. -/
theorem search_outset_above :
    ¬ ∀ (settings : Settings Float) (caller : Caller (Except Fault) Float 2)
      (x : Vector Float 2) (done : Nat) (state checked chosen : State Float 2) (slope step : Float)
      (kept : Option (Marked Float 2)),
      Visits settings .inOrder caller x () done state () →
      Returns (check (Kernels.shared Float 2 settings.threads .inOrder) settings caller done state)
        () (none, checked) () →
      Returns
        (plan (Kernels.shared Float 2 settings.threads .inOrder) settings caller (done + 1)
          checked) () (.explore chosen slope kept step) () →
      (Sample.make 0 chosen.value slope).value ≤ checked.tally.best.value := by
  intro claimed
  obtain ⟨state, checked, chosen, slope, kept, step, visits, checks, plans, above⟩ :=
    wall_searches
  exact Lawful.not_le_of_lt above
    (claimed wallSettings wallCaller #v[1, 0.5] 1 state checked chosen slope step kept visits
      checks plans)

end Wall

end Minimization

end Descent

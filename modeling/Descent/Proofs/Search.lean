import Descent.Line.Bracket
import Descent.Proofs.Budget
import Descent.Proofs.Faithful

/-!
The careful line search, whatever its prober answers. A search runs through stages: each is left
by one probe, and the first one that meets an exit condition is the last. Being better is
transitive, also among samples whose slopes are undefined and compare with nothing, so a best
sample is never beaten by one that was seen before it.
-/

namespace Descent

open Minimization (shortSearch)
open Scalar

namespace Sample

variable {F : Type} [Unbounded F] [Lawful F] {a b c : Sample F}

theorem isBetterThan_iff : a.isBetterThan b = true ↔
    a.value < b.value ∨
      (a.value ≤ b.value ∧ b.value ≤ a.value) ∧ Scalar.abs a.slope < Scalar.abs b.slope := by
  rw [isBetterThan, Bool.or_eq_true, Bool.and_eq_true, decide_eq_true_iff, decide_eq_true_iff,
    Lawful.beq_iff]

theorem isBetterThan_trans (first : a.isBetterThan b = true) (second : b.isBetterThan c = true) :
    a.isBetterThan c = true := by
  rw [isBetterThan_iff] at first second ⊢
  obtain lower | ⟨⟨down, up⟩, flatter⟩ := first
  · obtain lower' | ⟨⟨down', -⟩, -⟩ := second
    · exact .inl (Lawful.lt_of_lt_of_le lower (Lawful.le_of_lt lower'))
    · exact .inl (Lawful.lt_of_lt_of_le lower down')
  · obtain lower' | ⟨⟨down', up'⟩, flatter'⟩ := second
    · exact .inl (Lawful.lt_of_le_of_lt down lower')
    · exact .inr ⟨⟨Lawful.le_trans down down', Lawful.le_trans up' up⟩,
        Lawful.lt_of_lt_of_le flatter (Lawful.le_of_lt flatter')⟩

theorem value_le_of_isBetterThan (better : a.isBetterThan b = true) : a.value ≤ b.value := by
  obtain lower | ⟨⟨down, -⟩, -⟩ := isBetterThan_iff.mp better
  · exact Lawful.le_of_lt lower
  · exact down

theorem make_value_defined (step value slope : F) :
    (make step value slope).value ≤ (make step value slope).value := by
  rw [make]
  split
  · exact Lawful.infinity_defined
  · next defined => exact Lawful.isNaN_eq_false_iff.mp (by simpa using defined)

end Sample

namespace Bracket

section Merge

variable {F : Type} [Scalar F] (tuning : Tuning F) (bracket : Bracket F) (sample : Sample F)
  (bisected : Bool)

theorem place_best : (bracket.place sample).best =
    if sample.isBetterThan bracket.best then sample else bracket.best := by
  unfold place
  split <;> split <;> rfl

theorem place_start : (bracket.place sample).start = bracket.start := by
  unfold place
  split <;> split <;> rfl

theorem place_bisectionsWithLost :
    (bracket.place sample).bisectionsWithLost = bracket.bisectionsWithLost := by
  unfold place
  split <;> split <;> rfl

theorem place_suspectBisections :
    (bracket.place sample).suspectBisections = bracket.suspectBisections := by
  unfold place
  split <;> split <;> rfl

theorem measureWidth_best : (bracket.measureWidth tuning).best = bracket.best := by
  unfold measureWidth
  split <;> rfl

theorem measureWidth_start : (bracket.measureWidth tuning).start = bracket.start := by
  unfold measureWidth
  split <;> rfl

theorem merge_best : (bracket.merge tuning sample bisected).best =
    if sample.isBetterThan bracket.best then sample else bracket.best := by
  cases bisected <;> exact (measureWidth_best tuning _).trans (place_best _ sample)

theorem merge_start : (bracket.merge tuning sample bisected).start = bracket.start := by
  cases bisected <;> exact (measureWidth_start tuning _).trans (place_start _ sample)

end Merge

/-! The best sample seen. -/

section Best

variable {F : Type} [Unbounded F] {start : Sample F} {seen : List (Sample F)} {bracket : Bracket F}

/-- The bracket keeps the start of the line and the best of the samples seen on it. -/
structure Tops (start : Sample F) (seen : List (Sample F)) (bracket : Bracket F) : Prop where
  same : bracket.start = start
  member : bracket.best ∈ seen
  unbeaten : ∀ sample ∈ seen, sample.isBetterThan bracket.best = false
  notAbove : bracket.best.value ≤ start.value

variable [Lawful F]

theorem Tops.merge (tops : Tops start seen bracket) (tuning : Tuning F) (sample : Sample F)
    (bisected : Bool) : Tops start (seen ++ [sample]) (bracket.merge tuning sample bisected) where
  same := (merge_start tuning bracket sample bisected).trans tops.same
  member := by
    rw [merge_best]
    split
    · exact List.mem_append_right seen (List.mem_singleton_self sample)
    · exact List.mem_append_left [sample] tops.member
  unbeaten := by
    intro other member
    rw [merge_best]
    obtain earlier | latest := List.mem_append.mp member
    · have unbeaten := tops.unbeaten other earlier
      split
      · next better =>
        -- what beats the new best would have beaten the old one
        refine Bool.eq_false_iff.mpr fun beaten => ?_
        rw [Sample.isBetterThan_trans beaten better] at unbeaten
        exact nomatch unbeaten
      · exact unbeaten
    · obtain rfl := List.mem_singleton.mp latest
      split
      · exact other.not_isBetterThan_self
      · next worse => exact Bool.eq_false_iff.mpr worse
  notAbove := by
    rw [merge_best]
    split
    · next better => exact Lawful.le_trans (Sample.value_le_of_isBetterThan better) tops.notAbove
    · exact tops.notAbove

theorem Tops.absorb (tops : Tops start seen bracket) (tuning : Tuning F) (sample : Sample F)
    (bisected : Bool) :
    Tops start (seen ++ [sample]) (bracket.absorb tuning sample bisected) := by
  have counted : Tops start seen { bracket with probes := bracket.probes + 1 } :=
    ⟨tops.same, tops.member, tops.unbeaten, tops.notAbove⟩
  exact counted.merge tuning sample bisected

/-- The bracket that a search starts with, which may have taken in a sample seen before. -/
def opening (tuning : Tuning F) (start : Sample F) (seed : Option (Sample F)) :
    Except Fault (Bracket F) := do
  let opened ← create start
  pure (seed.elim opened fun sample => opened.merge tuning sample false)

theorem opening_tops (tuning : Tuning F) (step value : F) {slope : F} (descends : slope < 0)
    (seed : Option (Sample F)) :
    ∃ opened, opening tuning (.make step value slope) seed = .ok opened ∧ opened.probes = 0 ∧
      Tops (.make step value slope) (.make step value slope :: seed.toList) opened := by
  obtain ⟨created, accepted, none, begun⟩ : ∃ created : Bracket F,
      create (.make step value slope) = .ok created ∧ created.probes = 0 ∧
        Tops (.make step value slope) [.make step value slope] created :=
    ⟨_, if_pos descends, rfl, rfl, List.mem_singleton_self _,
      List.forall_mem_singleton.mpr (Sample.not_isBetterThan_self _),
      Sample.make_value_defined step value slope⟩
  rw [opening, accepted]
  cases seed with
  | none => exact ⟨created, rfl, none, begun⟩
  | some sample =>
    exact ⟨_, rfl, (merge_probes tuning created sample false).trans none,
      begun.merge tuning sample false⟩

end Best

/-! The reasons to end. -/

section Reasons

variable {F : Type} [Scalar F] {tuning : Tuning F} {bracket : Bracket F}

def Meets (tuning : Tuning F) (bracket : Bracket F) : Exit → Prop
  | .sufficientDecrease =>
      isZero bracket.best.step = false ∧
        bracket.best.value ≤ bracket.start.value +
          tuning.sufficientDecrease * bracket.best.step * bracket.start.slope ∧
        Scalar.abs bracket.best.slope ≤ tuning.slopeShrink * Scalar.abs bracket.start.slope
  | .lostMinimum => tuning.bisectionsWithLostLimit ≤ bracket.bisectionsWithLost
  | .suspect =>
      tuning.lostMinimumLimit < bracket.lostMinima ∧
        tuning.suspectBisectionLimit < bracket.suspectBisections
  | .stale => tuning.staleProbeLimit ≤ bracket.stale
  | .probeLimit => tuning.maxProbes ≤ bracket.probes

theorem decreasedEnough_iff :
    bracket.decreasedEnough tuning = true ↔ bracket.Meets tuning .sufficientDecrease := by
  rw [decreasedEnough, Bool.and_eq_true, Bool.and_eq_true, Bool.not_eq_true', decide_eq_true_iff,
    decide_eq_true_iff, and_assoc, Meets]

theorem exit?_eq_none_iff :
    bracket.exit? tuning = none ↔ ∀ exit, ¬ bracket.Meets tuning exit := by
  rw [exit?]
  constructor
  · intro goesOn exit met
    split_ifs at goesOn with decreased lost suspect stale spent
    cases exit with
    | sufficientDecrease => exact decreased (decreasedEnough_iff.mpr met)
    | lostMinimum => exact lost met
    | suspect => exact suspect met
    | stale => exact stale met
    | probeLimit => exact spent met
  · intro unmet
    split_ifs with decreased lost suspect stale spent
    · exact absurd (decreasedEnough_iff.mp decreased) (unmet .sufficientDecrease)
    · exact absurd lost (unmet .lostMinimum)
    · exact absurd suspect (unmet .suspect)
    · exact absurd stale (unmet .stale)
    · exact absurd spent (unmet .probeLimit)
    · rfl

theorem meets_of_exit? {exit : Exit} (ends : bracket.exit? tuning = some exit) :
    bracket.Meets tuning exit := by
  rw [exit?] at ends
  split_ifs at ends with decreased lost suspect stale spent <;> obtain rfl := Option.some.inj ends
  · exact decreasedEnough_iff.mp decreased
  · exact lost
  · exact suspect
  · exact stale
  · exact spent

theorem exit_eq_sufficientDecrease_iff {exit : Exit} (ends : bracket.exit? tuning = some exit) :
    exit = .sufficientDecrease ↔ bracket.Meets tuning .sufficientDecrease := by
  constructor
  · rintro rfl
    exact meets_of_exit? ends
  · intro met
    rw [exit?, if_pos (decreasedEnough_iff.mpr met)] at ends
    exact (Option.some.inj ends).symm

end Reasons

end Bracket

/-! Stages. -/

section Stages

variable {F S : Type} [Scalar F] (tuning : Tuning F) (probe : F → S → Id (Sample F × S))
  (firstStep : F)

def reply (stage : Bracket F × S) : Sample F × S :=
  probe (stage.1.next tuning firstStep).1 stage.2

def advance (stage : Bracket F × S) : Bracket F × S :=
  let (sample, carried) := reply tuning probe firstStep stage
  (stage.1.absorb tuning sample (stage.1.next tuning firstStep).2, carried)

def stageAt (first : Bracket F × S) : ℕ → Bracket F × S
  | 0 => first
  | k + 1 => advance tuning probe firstStep (stageAt first k)

def replies (first : Bracket F × S) (count : ℕ) : List (Sample F) :=
  (List.range count).map fun k =>
    (reply tuning probe firstStep (stageAt tuning probe firstStep first k)).1

variable {tuning probe firstStep} {first : Bracket F × S} {k : ℕ}

theorem search_ends {exit : Exit} (ends : first.1.exit? tuning = some exit) :
    search tuning probe firstStep first.1 first.2 =
      ({ best := first.1.best, exit, probes := first.1.probes }, first.2) :=
  search_stops ends

theorem search_goesOn (goesOn : first.1.exit? tuning = none) :
    search tuning probe firstStep first.1 first.2 =
      search tuning probe firstStep (advance tuning probe firstStep first).1
        (advance tuning probe firstStep first).2 :=
  search_steps goesOn

/-- As long as no exit condition is met, the search goes through its stages. -/
theorem search_stageAt
    (goesOn : ∀ j < k, (stageAt tuning probe firstStep first j).1.exit? tuning = none) :
    search tuning probe firstStep first.1 first.2 =
      search tuning probe firstStep (stageAt tuning probe firstStep first k).1
        (stageAt tuning probe firstStep first k).2 := by
  induction k with
  | zero => rfl
  | succ k ih =>
    rw [ih fun j below => goesOn j (below.trans (Nat.lt_succ_self k)),
      search_goesOn (goesOn k (Nat.lt_succ_self k))]
    rfl

theorem stageAt_probes (fresh : first.1.probes = 0) (k : ℕ) :
    (stageAt tuning probe firstStep first k).1.probes = k := by
  induction k with
  | zero => exact fresh
  | succ k ih => exact (Bracket.absorb_probes tuning _ _ _).trans (congrArg Nat.succ ih)

variable (tuning probe firstStep) in
theorem exists_last (fresh : first.1.probes = 0) :
    ∃ count ≤ tuning.maxProbes, ∃ exit,
      (stageAt tuning probe firstStep first count).1.exit? tuning = some exit ∧
        ∀ j < count, (stageAt tuning probe firstStep first j).1.exit? tuning = none := by
  -- A stage has the number of its probes, so their limit is a condition that is met in time.
  have ends (k : ℕ) (spent : tuning.maxProbes ≤ k) :
      (stageAt tuning probe firstStep first k).1.exit? tuning ≠ none := by
    intro goesOn
    have below := Bracket.probes_lt_of_exit?_none tuning _ goesOn
    rw [stageAt_probes fresh] at below
    exact absurd spent (Nat.not_le.mpr below)
  have some := Nat.find_spec (⟨tuning.maxProbes, ends _ le_rfl⟩ :
    ∃ k, (stageAt tuning probe firstStep first k).1.exit? tuning ≠ none)
  obtain ⟨exit, last⟩ := Option.ne_none_iff_exists'.mp some
  exact ⟨_, Nat.find_min' _ (ends _ le_rfl), exit, last,
    fun j below => Classical.not_not.mp (Nat.find_min _ below)⟩

variable (tuning probe firstStep first) in
/-- A search ends for a reason that holds at one of its stages. -/
theorem exists_exit (fresh : first.1.probes = 0) :
    ∃ k, (stageAt tuning probe firstStep first k).1.exit? tuning =
      some (search tuning probe firstStep first.1 first.2).1.exit := by
  obtain ⟨count, -, exit, ends, earlier⟩ := exists_last tuning probe firstStep fresh
  refine ⟨count, ?_⟩
  rw [search_stageAt earlier, search_ends ends, ends]

end Stages

section Every

variable {F S : Type} [Unbounded F] [Lawful F]

/-- Every sample seen is accounted for at every stage. -/
theorem stageAt_tops (tuning : Tuning F) (probe : F → S → Id (Sample F × S)) (firstStep : F)
    {start : Sample F} {seen : List (Sample F)} {first : Bracket F × S}
    (tops : first.1.Tops start seen) (k : ℕ) :
    (stageAt tuning probe firstStep first k).1.Tops start
      (seen ++ replies tuning probe firstStep first k) := by
  induction k with
  | zero =>
    rw [replies, List.range_zero, List.map_nil, List.append_nil]
    exact tops
  | succ k ih =>
    rw [replies, List.range_succ, List.map_append, ← List.append_assoc]
    exact ih.absorb tuning _ _

/-- A search that starts downhill ends within the limit, whatever is probed, at the first stage
that meets an exit condition. It finds a sample that it has seen and that no other one beats. -/
theorem search_settles (tuning : Tuning F) (probe : F → S → Id (Sample F × S))
    (firstStep step value slope : F) (descends : slope < 0) (seed : Option (Sample F))
    (carried : S) :
    let start := Sample.make step value slope
    ∃ opened, Bracket.opening tuning start seed = .ok opened ∧
    let stage := stageAt tuning probe firstStep (opened, carried)
    ∃ count ≤ tuning.maxProbes, ∃ found,
    let seen := start :: seed.toList ++ replies tuning probe firstStep (opened, carried) count
    search tuning probe firstStep opened carried = (found, (stage count).2) ∧
    found.probes = count ∧ found.best = (stage count).1.best ∧
    found.best ∈ seen ∧ (∀ sample ∈ seen, sample.isBetterThan found.best = false) ∧
    found.best.value ≤ start.value ∧
    (found.exit = .sufficientDecrease ↔
      isZero found.best.step = false ∧
        found.best.value ≤
          start.value + tuning.sufficientDecrease * found.best.step * start.slope ∧
        Scalar.abs found.best.slope ≤ tuning.slopeShrink * Scalar.abs start.slope) ∧
    (stage count).1.Meets tuning found.exit ∧
    ∀ j < count, ∀ exit, ¬ (stage j).1.Meets tuning exit := by
  intro start
  obtain ⟨opened, accepted, fresh, tops⟩ :=
    Bracket.opening_tops tuning step value descends seed
  refine ⟨opened, accepted, ?_⟩
  intro stage
  obtain ⟨count, limited, exit, ends, earlier⟩ :
      ∃ count ≤ tuning.maxProbes, ∃ exit, (stage count).1.exit? tuning = some exit ∧
        ∀ j < count, (stage j).1.exit? tuning = none :=
    exists_last tuning probe firstStep fresh
  have last : (stage count).1.Tops start
      (start :: seed.toList ++ replies tuning probe firstStep (opened, carried) count) :=
    stageAt_tops tuning probe firstStep tops count
  have decrease := Bracket.exit_eq_sufficientDecrease_iff ends
  rw [Bracket.Meets, last.same] at decrease
  refine ⟨count, limited, { best := (stage count).1.best, exit, probes := count }, ?_, rfl, rfl,
    last.member, last.unbeaten, last.notAbove, decrease, Bracket.meets_of_exit? ends,
    fun j below => Bracket.exit?_eq_none_iff.mp (earlier j below)⟩
  have ran := (search_stageAt earlier).trans (search_ends ends)
  rw [stageAt_probes fresh] at ran
  exact ran

end Every

/-- A line that falls, with slopes that are never defined. The probes are counted. -/
def slopeless (step : Float) (count : Nat) : Id (Sample Float × Nat) :=
  pure (.make step (-step) (0 / 0), count + 1)

def cliff : Sample Float := .make 8 (0 / 0) 1

/-- Without slopes no decrease is sufficient, and the probes are used up. -/
theorem search_settles_slopeless :
    (-1 : Float) < 0 ∧
    ∃ opened, Bracket.opening shortSearch (.make 0 1 (-1)) (some cliff) = .ok opened ∧
    ∃ found, search shortSearch slopeless 1 opened 0 = (found, 2) ∧
    found.exit = .probeLimit ∧ found.probes = 2 ∧ found.best.value ≤ 1 ∧
    (stageAt shortSearch slopeless 1 (opened, 0) 2).1.Meets shortSearch .probeLimit ∧
    ∀ j < 2, ∀ exit,
      ¬ (stageAt shortSearch slopeless 1 (opened, 0) j).1.Meets shortSearch exit := by
  have descends : (-1 : Float) < 0 := by decide +kernel
  obtain ⟨opened, accepted, count, -, found, ran, probes, -, -, -, notAbove, -, met, earlier⟩ :=
    search_settles shortSearch slopeless 1 0 1 (-1) descends (some cliff) 0
  have computed : (Bracket.opening shortSearch (.make 0 1 (-1)) (some cliff)).map
      (fun opened =>
        let (found, probed) := search shortSearch slopeless 1 opened 0
        (found.exit, found.probes, probed)) = .ok (.probeLimit, 2, 2) := by decide +kernel
  rw [accepted, Except.map, ran] at computed
  obtain ⟨exit, rest⟩ := Prod.mk.inj (Except.ok.inj computed)
  obtain ⟨number, probed⟩ := Prod.mk.inj rest
  obtain rfl : count = 2 := probes.symm.trans number
  rw [probed] at ran
  rw [exit] at met
  exact ⟨descends, opened, accepted, found, ran, exit, number, notAbove, met, earlier⟩

end Descent

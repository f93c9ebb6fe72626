import Mathlib.Data.Prod.Lex
import Descent.Proofs.Numbers
import Descent.Proofs.Search

/-!
The order of the samples in a bracket. Over exact numbers the three samples of a careful search
keep their order, every step that is probed lies strictly inside the bracket, and a bracket with
both ends gets narrower with every probe. Nothing is needed from the fit for that: what it answers
is only taken where it is safely inside, and cut to a range where it leads further out.
-/

namespace Descent

open Scalar

/-! Being better, over exact numbers. -/

namespace Sample

variable {F : Type} [Field F] [LinearOrder F] [Exact F] {a b c : Sample F}

/-- Samples are compared by their values first and by the size of their slopes then. -/
def rank (sample : Sample F) : F ×ₗ F := toLex (sample.value, |sample.slope|)

theorem isBetterThan_iff_rank : a.isBetterThan b = true ↔ a.rank < b.rank := by
  rw [rank, rank, Prod.Lex.toLex_lt_toLex, isBetterThan, Bool.or_eq_true, Bool.and_eq_true,
    decide_eq_true_iff, decide_eq_true_iff, beq_iff_eq]
  rfl

theorem not_isBetterThan_iff_rank : a.isBetterThan b = false ↔ b.rank ≤ a.rank := by
  rw [← Bool.not_eq_true, isBetterThan_iff_rank, not_lt]

theorem not_isBetterThan_of_isBetterThan (better : a.isBetterThan b = true) :
    b.isBetterThan a = false :=
  not_isBetterThan_iff_rank.mpr (isBetterThan_iff_rank.mp better).le

theorem not_isBetterThan_trans (worse : c.isBetterThan b = false)
    (better : a.isBetterThan b = true) : c.isBetterThan a = false :=
  not_isBetterThan_iff_rank.mpr
    ((isBetterThan_iff_rank.mp better).le.trans (not_isBetterThan_iff_rank.mp worse))

end Sample

namespace Bracket

/-! What taking in a sample does. -/

section Placement

variable {F : Type} [Scalar F]

structure Ends (F : Type) where
  left : Option (Sample F)
  best : Sample F
  right : Option (Sample F)
  lostMinima : Nat

def ends (bracket : Bracket F) : Ends F where
  left := bracket.left
  best := bracket.best
  right := bracket.right
  lostMinima := bracket.lostMinima

/-- The four ways to take in a sample: as the new best, further out or not, or as an end, unless
the end that is known there is closer. -/
inductive Places (ends : Ends F) (sample : Sample F) : Ends F → Prop where
  | ahead :
      sample.isBetterThan ends.best = true → ends.best.step < sample.step →
      Places ends sample { ends with left := some ends.best, best := sample }
  | back :
      sample.isBetterThan ends.best = true → ¬ ends.best.step < sample.step →
      Places ends sample { ends with right := some ends.best, best := sample }
  | beyond :
      sample.isBetterThan ends.best = false → ends.best.step < sample.step →
      Places ends sample
        { ends with
          right :=
            if ends.right.all fun right => sample.step < right.step then some sample
            else ends.right
          lostMinima := if sample.slope < 0 then ends.lostMinima + 1 else ends.lostMinima }
  | before :
      sample.isBetterThan ends.best = false → ¬ ends.best.step < sample.step →
      Places ends sample
        { ends with
          left :=
            if ends.left.all fun left => left.step < sample.step then some sample
            else ends.left
          lostMinima := if 0 < sample.slope then ends.lostMinima + 1 else ends.lostMinima }

variable (tuning : Tuning F) (bracket : Bracket F) (sample : Sample F) (bisected : Bool)

theorem place_places : Places bracket.ends sample (bracket.place sample).ends := by
  unfold place
  split
  · next better =>
    split
    · next further => exact .ahead better further
    · next near => exact .back better near
  · next worse =>
    split
    · next further => exact .beyond (Bool.eq_false_iff.mpr worse) further
    · next near => exact .before (Bool.eq_false_iff.mpr worse) near

theorem measureWidth_ends : (bracket.measureWidth tuning).ends = bracket.ends := by
  unfold measureWidth
  split <;> rfl

theorem merge_places : Places bracket.ends sample (bracket.merge tuning sample bisected).ends := by
  have placed := place_places
    { bracket with stale := if bracket.repeats sample then bracket.stale + 1 else 0 } sample
  rw [merge, measureWidth_ends]
  cases bisected <;> exact placed

theorem absorb_places :
    Places bracket.ends sample (bracket.absorb tuning sample bisected).ends :=
  merge_places tuning { bracket with probes := bracket.probes + 1 } sample bisected

end Placement

/-! Any way to fit two samples. -/

section Guided

variable {F : Type} [Scalar F] (fit : Sample F → Sample F → Option F) (tuning : Tuning F)
  (bracket : Bracket F)

/-- The step further out, with `fit` for the fit. -/
def expansionBy : F :=
  let best := bracket.best
  let lower := best.step + best.step
  let upper := tuning.maxStepGrowth * best.step
  let fitted := (bracket.left.bind fun left => fit left best).getD upper
  minNum (maxNum fitted lower) upper

def insideBy (a b : Sample F) : F × Bool :=
  let midpoint := half * (a.step + b.step)
  if bracket.robust then (midpoint, true)
  else
    let margin := half * (1 - tuning.fitInterior) * (b.step - a.step)
    match fit a b with
    | some step =>
        if a.step + margin ≤ step ∧ step ≤ b.step - margin then (step, false)
        else (midpoint, true)
    | none => (midpoint, true)

def nextBy (firstStep : F) : F × Bool :=
  if bracket.left.isNone && bracket.right.isNone then (firstStep, false)
  else
    match bracket.subInterval with
    | none => (bracket.expansionBy fit tuning, false)
    | some (a, b) => bracket.insideBy fit tuning a b

theorem nextBy_fitMinimizer (firstStep : F) :
    bracket.nextBy Sample.fitMinimizer tuning firstStep = bracket.next tuning firstStep := rfl

end Guided

/-! The order of the samples. -/

section Order

variable {F : Type} [Field F] [LinearOrder F] [Exact F]

/-- The samples follow one another from the start on, and no end is better than the best. As long
as there is no left end, the best is the start. -/
structure Ordered (start : Sample F) (ends : Ends F) : Prop where
  alone : ends.left = none → ends.best = start
  nonneg : 0 ≤ ends.best.step
  left : ∀ left ∈ ends.left, 0 ≤ left.step ∧ left.step < ends.best.step ∧
    left.isBetterThan ends.best = false
  right : ∀ right ∈ ends.right, ends.best.step < right.step ∧
    right.isBetterThan ends.best = false

/-- A step behind the start and inside the bracket, where no sample is kept. -/
structure Inside (ends : Ends F) (step : F) : Prop where
  pos : 0 < step
  apart : step ≠ ends.best.step
  after : ∀ left ∈ ends.left, left.step < step
  before : ∀ right ∈ ends.right, step < right.step

variable {start sample left right : Sample F} {ends next : Ends F}

theorem Inside.behind (inside : Inside ends sample.step)
    (near : ¬ ends.best.step < sample.step) : sample.step < ends.best.step :=
  lt_of_le_of_ne (not_lt.mp near) inside.apart

theorem Inside.closer_right (inside : Inside ends sample.step) :
    (ends.right.all fun right => sample.step < right.step) = true := by
  rw [Option.all_eq_true]
  intro right member
  exact decide_eq_true (inside.before right member)

theorem Inside.closer_left (inside : Inside ends sample.step) :
    (ends.left.all fun left => left.step < sample.step) = true := by
  rw [Option.all_eq_true]
  intro left member
  exact decide_eq_true (inside.after left member)

/-- A sample inside the bracket finds its place in the order. -/
theorem Ordered.places (ordered : Ordered start ends) (origin : start.step = 0)
    (inside : Inside ends sample.step) (placed : Places ends sample next) :
    Ordered start next := by
  cases placed with
  | ahead better further =>
    constructor
    · exact nofun
    · exact inside.pos.le
    · rintro left ⟨⟩
      exact ⟨ordered.nonneg, further, Sample.not_isBetterThan_of_isBetterThan better⟩
    · intro right member
      exact ⟨inside.before right member,
        Sample.not_isBetterThan_trans (ordered.right right member).2 better⟩
  | back better near =>
    have behind := inside.behind near
    constructor
    · -- without a left end the best is the start, and no sample lies behind that
      intro none
      rw [ordered.alone none, origin] at behind
      exact absurd behind inside.pos.not_gt
    · exact inside.pos.le
    · intro left member
      obtain ⟨nonneg, -, worse⟩ := ordered.left left member
      exact ⟨nonneg, inside.after left member, Sample.not_isBetterThan_trans worse better⟩
    · rintro right ⟨⟩
      exact ⟨behind, Sample.not_isBetterThan_of_isBetterThan better⟩
  | beyond worse further =>
    rw [if_pos inside.closer_right]
    constructor
    · exact ordered.alone
    · exact ordered.nonneg
    · exact ordered.left
    · rintro right ⟨⟩
      exact ⟨further, worse⟩
  | before worse near =>
    rw [if_pos inside.closer_left]
    constructor
    · exact nofun
    · exact ordered.nonneg
    · rintro left ⟨⟩
      exact ⟨inside.pos.le, inside.behind near, worse⟩
    · exact ordered.right

/-- With both ends known, a sample inside replaces one of them. -/
theorem Ordered.narrower [IsStrictOrderedRing F] (ordered : Ordered start ends)
    (inside : Inside ends sample.step) (placed : Places ends sample next)
    (first : left ∈ ends.left) (last : right ∈ ends.right) :
    ∃ left' ∈ next.left, ∃ right' ∈ next.right,
      right'.step - left'.step < right.step - left.step := by
  cases placed with
  | ahead better further =>
    exact ⟨_, rfl, right, last, sub_lt_sub_left (ordered.left left first).2.1 _⟩
  | back better near =>
    exact ⟨left, first, _, rfl, sub_lt_sub_right (ordered.right right last).1 _⟩
  | beyond worse further =>
    rw [if_pos inside.closer_right]
    exact ⟨left, first, _, rfl, sub_lt_sub_right (inside.before right last) _⟩
  | before worse near =>
    rw [if_pos inside.closer_left]
    exact ⟨_, rfl, right, last, sub_lt_sub_left (inside.after left first) _⟩

end Order

/-! The steps that are probed. -/

section Steps

variable {F : Type} [Field F] [LinearOrder F] [IsStrictOrderedRing F] [Exact F]
variable {start a b : Sample F} {bracket : Bracket F} {tuning : Tuning F} {firstStep : F}
variable {fit : Sample F → Sample F → Option F}

theorem half_eq : (half : F) = 1 / 2 := by
  norm_num [half]

variable (bracket fit) in
theorem insideBy_between (interior : tuning.fitInterior < 1) (ordered : a.step < b.step) :
    a.step < (bracket.insideBy fit tuning a b).1 ∧
      (bracket.insideBy fit tuning a b).1 < b.step := by
  have middle : a.step < half * (a.step + b.step) ∧ half * (a.step + b.step) < b.step := by
    rw [half_eq]
    constructor <;> linarith
  have margin : 0 < half * (1 - tuning.fitInterior) * (b.step - a.step) := by
    rw [half_eq]
    exact mul_pos (mul_pos one_half_pos (sub_pos.mpr interior)) (sub_pos.mpr ordered)
  unfold insideBy
  dsimp only
  split
  · exact middle
  · split
    · split
      · next safe =>
        obtain ⟨after, before⟩ := safe
        constructor <;> dsimp only <;> linarith
      · exact middle
    · exact middle

variable (bracket fit) in
theorem expansionBy_between (grows : 1 < tuning.maxStepGrowth) (further : 0 < bracket.best.step) :
    bracket.best.step < bracket.expansionBy fit tuning ∧
      bracket.expansionBy fit tuning ≤ tuning.maxStepGrowth * bracket.best.step := by
  rw [expansionBy, Exact.minNum_eq, Exact.maxNum_eq]
  constructor
  · refine lt_min (lt_max_of_lt_right ?_) ?_
    · exact lt_add_of_pos_right _ further
    · exact lt_mul_of_one_lt_left further grows
  · exact min_le_right _ _

omit [IsStrictOrderedRing F] in
theorem subInterval_some (found : bracket.subInterval = some (a, b)) :
    (a = bracket.best ∧ b ∈ bracket.right) ∨ (a ∈ bracket.left ∧ b = bracket.best) := by
  have outward (taken : bracket.right.map (fun right => (bracket.best, right)) = some (a, b)) :
      a = bracket.best ∧ b ∈ bracket.right := by
    obtain ⟨right, known, same⟩ := Option.map_eq_some_iff.mp taken
    obtain ⟨rfl, rfl⟩ := Prod.mk.inj same
    exact ⟨rfl, known⟩
  unfold subInterval at found
  dsimp only at found
  split at found
  · exact .inl (outward found)
  · split at found
    · obtain ⟨left, known, same⟩ := Option.map_eq_some_iff.mp found
      obtain ⟨rfl, rfl⟩ := Prod.mk.inj same
      exact .inr ⟨known, rfl⟩
    · split at found
      · next left known =>
        obtain ⟨rfl, rfl⟩ := Prod.mk.inj (Option.some.inj found)
        exact .inr ⟨known, rfl⟩
      · exact .inl (outward found)

variable (descends : start.slope < 0)

include descends

omit [IsStrictOrderedRing F] in
theorem subInterval_none (alone : bracket.left = none → bracket.best = start)
    (outward : bracket.subInterval = none) : bracket.best.slope < 0 ∧ bracket.right = none := by
  have known : ¬ bracket.best.slope < 0 → ∃ left, bracket.left = some left := by
    intro notFalling
    refine Option.ne_none_iff_exists'.mp fun missing => ?_
    rw [alone missing] at notFalling
    exact notFalling descends
  unfold subInterval at outward
  dsimp only at outward
  split at outward
  · next falls => exact ⟨falls, Option.map_eq_none_iff.mp outward⟩
  · next notFalling =>
    obtain ⟨left, found⟩ := known notFalling
    rw [found] at outward
    split at outward <;> exact nomatch outward

/-- What the search probes next lies inside the bracket. -/
theorem Ordered.nextBy_inside (ordered : Ordered start bracket.ends) (origin : start.step = 0)
    (interior : tuning.fitInterior < 1) (grows : 1 < tuning.maxStepGrowth)
    (forward : 0 < firstStep) :
    Inside bracket.ends (bracket.nextBy fit tuning firstStep).1 := by
  unfold nextBy
  split
  · next fresh =>
    obtain ⟨noLeft, noRight⟩ := Bool.and_eq_true_iff.mp fresh
    rw [Option.isNone_iff_eq_none] at noLeft noRight
    have same : bracket.best = start := ordered.alone noLeft
    constructor
    · exact forward
    · change firstStep ≠ bracket.best.step
      rw [same, origin]
      exact forward.ne'
    · intro left member
      exact nomatch noLeft.symm.trans member
    · intro right member
      exact nomatch noRight.symm.trans member
  · next known =>
    split
    · next outward =>
      obtain ⟨falls, noRight⟩ := subInterval_none descends ordered.alone outward
      obtain ⟨left, found⟩ : ∃ left, bracket.left = some left := by
        refine Option.ne_none_iff_exists'.mp fun noLeft => known ?_
        rw [noLeft, noRight]
        rfl
      have further : 0 < bracket.best.step := by
        obtain ⟨nonneg, below, -⟩ := ordered.left left found
        exact nonneg.trans_lt below
      have reaches := (expansionBy_between bracket fit grows further).1
      constructor
      · exact further.trans reaches
      · exact reaches.ne'
      · intro left member
        exact (ordered.left left member).2.1.trans reaches
      · intro right member
        exact nomatch noRight.symm.trans member
    · next a b found =>
      rcases subInterval_some found with ⟨rfl, last⟩ | ⟨first, rfl⟩
      · have between := insideBy_between bracket fit interior (ordered.right b last).1
        constructor
        · exact ordered.nonneg.trans_lt between.1
        · exact between.1.ne'
        · intro left member
          exact (ordered.left left member).2.1.trans between.1
        · intro right member
          rw [Option.mem_unique member last]
          exact between.2
      · have between := insideBy_between bracket fit interior (ordered.left a first).2.1
        constructor
        · exact (ordered.left a first).1.trans_lt between.1
        · exact between.2.ne
        · intro left member
          rw [Option.mem_unique member first]
          exact between.1
        · intro right member
          exact between.2.trans (ordered.right right member).1

omit descends in
theorem Ordered.nextBy_expands (ordered : Ordered start bracket.ends)
    (grows : 1 < tuning.maxStepGrowth) (noRight : bracket.right = none)
    (moved : bracket.best ≠ start) (falls : bracket.best.slope < 0) :
    bracket.best.step < (bracket.nextBy fit tuning firstStep).1 ∧
      (bracket.nextBy fit tuning firstStep).1 ≤ tuning.maxStepGrowth * bracket.best.step := by
  obtain ⟨left, found⟩ : ∃ left, bracket.left = some left :=
    Option.ne_none_iff_exists'.mp fun noLeft => moved (ordered.alone noLeft)
  have further : 0 < bracket.best.step := by
    obtain ⟨nonneg, below, -⟩ := ordered.left left found
    exact nonneg.trans_lt below
  have outward : bracket.subInterval = none := by
    rw [subInterval, if_pos falls, noRight]
    rfl
  have expands : bracket.nextBy fit tuning firstStep = (bracket.expansionBy fit tuning, false) := by
    rw [nextBy, found, outward]
    rfl
  rw [expands]
  exact expansionBy_between bracket fit grows further

end Steps

/-! The states of a search. -/

section Reached

variable {F : Type} [Field F] [LinearOrder F] [Exact F] [Limited F]

/-- The brackets that a search can come to, whatever its prober answers and whatever the fit says
each time. -/
inductive Reached (tuning : Tuning F) (firstStep : F) (start : Sample F)
    (seed : Option (Sample F)) : Bracket F → Prop where
  | opened {bracket : Bracket F} :
      opening tuning start seed = .ok bracket → Reached tuning firstStep start seed bracket
  | probed {bracket : Bracket F} (fit : Sample F → Sample F → Option F) (sample : Sample F) :
      Reached tuning firstStep start seed bracket →
      sample.step = (bracket.nextBy fit tuning firstStep).1 →
      Reached tuning firstStep start seed
        (bracket.absorb tuning sample (bracket.nextBy fit tuning firstStep).2)

variable {tuning : Tuning F} {firstStep : F} {start : Sample F} {seed : Option (Sample F)}
variable {bracket : Bracket F}

theorem Reached.stageAt {S : Type} {probe : F → S → Id (Sample F × S)} {carried : S}
    (opens : opening tuning start seed = .ok bracket)
    (answers : ∀ step carried, (probe step carried).1.step = step) (k : ℕ) :
    Reached tuning firstStep start seed
      (Descent.stageAt tuning probe firstStep (bracket, carried) k).1 := by
  induction k with
  | zero => exact .opened opens
  | succ k ih =>
    refine .probed Sample.fitMinimizer _ ih ?_
    rw [nextBy_fitMinimizer]
    exact answers _ _

theorem create_ends (opens : create start = .ok bracket) :
    bracket.ends = { left := none, best := start, right := none, lostMinima := 0 } :=
  congrArg ends (eq_of_create opens).2

theorem opening_ordered (origin : start.step = 0) (ahead : ∀ sample ∈ seed, 0 < sample.step)
    (opens : opening tuning start seed = .ok bracket) : Ordered start bracket.ends := by
  obtain ⟨created, creates, same⟩ : ∃ created, create start = .ok created ∧
      seed.elim created (fun sample => created.merge tuning sample false) = bracket := by
    rw [opening] at opens
    cases creates : create start with
    | error fault =>
      rw [creates] at opens
      cases opens
    | ok created =>
      rw [creates] at opens
      exact ⟨created, rfl, Except.ok.inj opens⟩
  have fresh := create_ends creates
  have alone : Ordered start created.ends := by
    rw [fresh]
    constructor
    · exact fun _ => rfl
    · exact origin.ge
    · rintro left ⟨⟩
    · rintro right ⟨⟩
  cases seed with
  | none =>
    obtain rfl : created = bracket := same
    exact alone
  | some sample =>
    obtain rfl : created.merge tuning sample false = bracket := same
    refine alone.places origin ?_ (merge_places tuning created sample false)
    rw [fresh]
    constructor
    · exact ahead sample rfl
    · change sample.step ≠ start.step
      rw [origin]
      exact (ahead sample rfl).ne'
    · rintro left ⟨⟩
    · rintro right ⟨⟩

variable [IsStrictOrderedRing F]

theorem Reached.ordered (reached : Reached tuning firstStep start seed bracket)
    (interior : tuning.fitInterior < 1) (grows : 1 < tuning.maxStepGrowth)
    (origin : start.step = 0) (descends : start.slope < 0)
    (ahead : ∀ sample ∈ seed, 0 < sample.step) (forward : 0 < firstStep) :
    Ordered start bracket.ends := by
  induction reached with
  | opened opens => exact opening_ordered origin ahead opens
  | probed fit sample _ asked ih =>
    refine ih.places origin ?_ (absorb_places tuning _ sample _)
    rw [asked]
    exact ih.nextBy_inside descends origin interior grows forward

end Reached

end Bracket

/-- A careful search that starts downhill goes through brackets whose samples are in order, no end
being better than the best, and probes behind the start only. Once both ends are known it probes
strictly between them, and every sample makes the bracket narrower. From a sample that falls,
other than the start, it goes further out as long as there is no end behind it, but by no more
than its growth allows. All this holds whatever the prober answers and whatever the fit says. -/
theorem search_brackets {F : Type} [Field F] [LinearOrder F] [IsStrictOrderedRing F] [Exact F]
    [Limited F] (tuning : Tuning F) (interior : tuning.fitInterior < 1)
    (grows : 1 < tuning.maxStepGrowth) (start : Sample F) (origin : start.step = 0)
    (descends : start.slope < 0) (seed : Option (Sample F))
    (ahead : ∀ sample ∈ seed, 0 < sample.step) (firstStep : F) (forward : 0 < firstStep) :
    (∃ opened, Bracket.opening tuning start seed = .ok opened ∧
      ∀ (S : Type) (probe : F → S → Id (Sample F × S)) (carried : S),
        (∀ step carried, (probe step carried).1.step = step) →
        ∀ k, Bracket.Reached tuning firstStep start seed
          (stageAt tuning probe firstStep (opened, carried) k).1) ∧
    ∀ bracket, Bracket.Reached tuning firstStep start seed bracket →
      0 ≤ bracket.best.step ∧
      (∀ left ∈ bracket.left, 0 ≤ left.step ∧ left.step < bracket.best.step ∧
        left.isBetterThan bracket.best = false) ∧
      (∀ right ∈ bracket.right, bracket.best.step < right.step ∧
        right.isBetterThan bracket.best = false) ∧
      ∀ fit,
        let step := (bracket.nextBy fit tuning firstStep).1
        0 < step ∧
        (∀ left ∈ bracket.left, ∀ right ∈ bracket.right,
          left.step < step ∧ step < right.step ∧
          ∀ sample bisected, sample.step = step →
            ∃ left' ∈ (bracket.absorb tuning sample bisected).left,
            ∃ right' ∈ (bracket.absorb tuning sample bisected).right,
              right'.step - left'.step < right.step - left.step) ∧
        (bracket.right = none → bracket.best ≠ start → bracket.best.slope < 0 →
          bracket.best.step < step ∧ step ≤ tuning.maxStepGrowth * bracket.best.step) := by
  constructor
  · have opens : ∃ opened, Bracket.opening tuning start seed = .ok opened := by
      rw [Bracket.opening, Bracket.create, if_pos descends]
      exact ⟨_, rfl⟩
    obtain ⟨opened, opens⟩ := opens
    exact ⟨opened, opens, fun S probe carried answers k => .stageAt opens answers k⟩
  · intro bracket reached
    have ordered := reached.ordered interior grows origin descends ahead forward
    refine ⟨ordered.nonneg, ordered.left, ordered.right, ?_⟩
    intro fit step
    have inside : Bracket.Inside bracket.ends step :=
      ordered.nextBy_inside descends origin interior grows forward
    refine ⟨inside.pos, ?_, ordered.nextBy_expands grows⟩
    intro left first right last
    refine ⟨inside.after left first, inside.before right last, ?_⟩
    intro sample bisected asked
    rw [← asked] at inside
    exact ordered.narrower inside (bracket.absorb_places tuning sample bisected) first last

def parabola (step : Fraction) (carried : Unit) : Id (Sample Fraction × Unit) :=
  pure (⟨step, (step - 1) * (step - 1), (step - 1) + (step - 1)⟩, carried)

/-- Started at zero and told about five, the search has the minimum between both after one probe,
and goes on inside. -/
theorem search_brackets_parabola :
    (Tuning.standard : Tuning Fraction).fitInterior < 1 ∧
    1 < (Tuning.standard : Tuning Fraction).maxStepGrowth ∧ (-2 : Fraction) < 0 ∧
    (0 : Fraction) < 5 ∧
    ∃ opened, Bracket.opening .standard ⟨0, 1, -2⟩ (some ⟨5, 16, 8⟩) = .ok opened ∧
    let bracket := (stageAt .standard parabola 5 (opened, ()) 1).1
    ∃ left ∈ bracket.left, ∃ right ∈ bracket.right,
      left.step = 0 ∧ bracket.best.step = 1 ∧ right.step = 5 ∧
      ∀ fit, 0 < (bracket.nextBy fit .standard 5).1 ∧ (bracket.nextBy fit .standard 5).1 < 5 := by
  have interior : (Tuning.standard : Tuning Fraction).fitInterior < 1 := by decide +kernel
  have grows : 1 < (Tuning.standard : Tuning Fraction).maxStepGrowth := by decide +kernel
  have descends : (-2 : Fraction) < 0 := by decide +kernel
  have forward : (0 : Fraction) < 5 := by decide +kernel
  obtain ⟨⟨opened, opens, reached⟩, keeps⟩ := search_brackets .standard interior grows
    ⟨0, 1, -2⟩ rfl descends (some ⟨5, 16, 8⟩) (by rintro sample ⟨⟩; exact forward) 5 forward
  have computed : (Bracket.opening .standard (⟨0, 1, -2⟩ : Sample Fraction)
      (some ⟨5, 16, 8⟩)).map (fun opened =>
        let bracket := (stageAt .standard parabola 5 (opened, ()) 1).1
        (bracket.left.map Sample.step, bracket.best.step, bracket.right.map Sample.step)) =
      .ok (some 0, 1, some 5) := by decide +kernel
  rw [opens] at computed
  obtain ⟨first, rest⟩ := Prod.mk.inj (Except.ok.inj computed)
  obtain ⟨best, last⟩ := Prod.mk.inj rest
  obtain ⟨left, known, zero⟩ := Option.map_eq_some_iff.mp first
  obtain ⟨right, known', five⟩ := Option.map_eq_some_iff.mp last
  obtain ⟨_, _, _, probes⟩ := keeps _ (reached Unit parabola () (fun _ _ => rfl) 1)
  refine ⟨interior, grows, descends, forward, opened, opens, left, known, right, known', zero,
    best, five, fun fit => ?_⟩
  obtain ⟨_, between, _⟩ := probes fit
  obtain ⟨after, before, _⟩ := between left known right known'
  rw [zero] at after
  rw [five] at before
  exact ⟨after, before⟩

end Descent

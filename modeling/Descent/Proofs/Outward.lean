import Descent.Proofs.Bracketing
import Descent.Proofs.Heading
import Descent.Proofs.Stages

/-!
A careful search looks behind its start only, also if it trusts a fit up to the ends of its
bracket. A sample may fall on an end then, so the order of the samples is not strict; but a fit
never falls on a sample that descends, which the start does. So whatever is recorded is the start
or lies behind it.
-/

namespace Descent

open Scalar Execution

/-! A fit is elsewhere than a sample that is not level. -/

theorem back_ne_width {F : Type} [Field F] {a b d1 d2 width : F} (wide : width ≠ 0)
    (sloped : a ≠ 0) (root : d2 * d2 = d1 * d1 - a * b) (denominator : b - a + d2 + d2 ≠ 0) :
    width * (b + d2 - d1) / (b - a + d2 + d2) ≠ width := by
  intro same
  have whole : b + d2 - d1 = b - a + d2 + d2 :=
    mul_left_cancel₀ wide ((div_eq_iff denominator).mp same)
  refine denominator (mul_left_cancel₀ sloped ?_)
  linear_combination root - (d1 + a - d2) * whole

section Fits

variable {F : Type} [Field F] [LinearOrder F] [Exact F]

theorem Sample.cubicMinimizer_ne [Euclidean F] (a b : Sample F) (sloped : a.slope ≠ 0) :
    a.cubicMinimizer b ≠ some a.step := by
  intro found
  unfold cubicMinimizer at found
  simp only [Exact.isZero_iff] at found
  split at found
  · exact nomatch found
  · next wide =>
    split at found
    · next real =>
      have square := Euclidean.mul_self_sqrt real
      have reaches {x y : F} (met : x - y = a.step) : y = x - a.step := by
        rw [← met, sub_sub_cancel]
      split at found
      · split at found
        · exact nomatch found
        · next denominator =>
          exact back_ne_width wide sloped ((neg_mul_neg _ _).trans square) denominator
            (reaches (Option.some.inj found))
      · split at found
        · exact nomatch found
        · next denominator =>
          exact back_ne_width wide sloped square denominator (reaches (Option.some.inj found))
    · exact nomatch found

theorem Sample.secantMinimizer_ne (a b : Sample F) (sloped : a.slope ≠ 0) :
    a.secantMinimizer b ≠ some a.step := by
  intro found
  unfold secantMinimizer at found
  dsimp only at found
  split at found
  · next rises =>
    obtain ⟨change, width⟩ := mul_ne_zero_iff.mp rises.ne'
    have reached : a.step - a.slope * (b.step - a.step) / (b.slope - a.slope) = a.step :=
      Option.some.inj found
    exact div_ne_zero (mul_ne_zero sloped width) change (sub_eq_self.mp reached)
  · exact nomatch found

theorem Sample.fitMinimizer_ne [Euclidean F] (a b : Sample F) (sloped : a.slope ≠ 0) :
    a.fitMinimizer b ≠ some a.step := by
  intro found
  rcases Option.or_eq_some_iff.mp found with cubic | ⟨_, secant⟩
  · exact cubicMinimizer_ne a b sloped cubic
  · exact secantMinimizer_ne a b sloped secant

end Fits

namespace Bracket

/-! The samples of a bracket. -/

section Trailing

variable {F : Type} [Field F] [LinearOrder F] [Exact F]

/-- The samples follow one another, perhaps at the same step. Those that are not the start lie
behind it. -/
structure Trailing (start : Sample F) (ends : Ends F) : Prop where
  alone : ends.left = none → ends.best = start
  left : ∀ left ∈ ends.left,
    (left = start ∨ 0 < left.step) ∧ left.step ≤ ends.best.step ∧ 0 < ends.best.step
  right : ∀ right ∈ ends.right, ends.best.step ≤ right.step ∧ 0 < right.step

structure Within (ends : Ends F) (step : F) : Prop where
  pos : 0 < step
  after : ∀ left ∈ ends.left, left.step ≤ step
  before : ∀ right ∈ ends.right, step ≤ right.step

variable {start sample : Sample F} {ends next : Ends F}

theorem Trailing.best (trailing : Trailing start ends) :
    ends.best = start ∨ 0 < ends.best.step := by
  cases known : ends.left with
  | none => exact .inl (trailing.alone known)
  | some left => exact .inr (trailing.left left known).2.2

theorem Trailing.places (trailing : Trailing start ends) (origin : start.step = 0)
    (within : Within ends sample.step) (placed : Places ends sample next) :
    Trailing start next := by
  cases placed with
  | ahead _ further =>
    constructor
    · exact nofun
    · rintro left ⟨⟩
      exact ⟨trailing.best, further.le, within.pos⟩
    · intro right member
      exact ⟨within.before right member, (trailing.right right member).2⟩
  | back _ near =>
    have behind := not_lt.mp near
    constructor
    · -- without a left end the best is the start, and no sample lies behind that
      intro none
      rw [trailing.alone none, origin] at behind
      exact absurd behind within.pos.not_ge
    · intro left member
      exact ⟨(trailing.left left member).1, within.after left member, within.pos⟩
    · rintro right ⟨⟩
      exact ⟨behind, within.pos.trans_le behind⟩
  | beyond _ further =>
    constructor
    · exact trailing.alone
    · exact trailing.left
    · dsimp only
      split
      · rintro right ⟨⟩
        exact ⟨further.le, within.pos⟩
      · exact trailing.right
  | before _ near =>
    have behind := not_lt.mp near
    constructor
    · dsimp only
      split
      · exact nofun
      · exact trailing.alone
    · dsimp only
      split
      · rintro left ⟨⟩
        exact ⟨.inr within.pos, behind, within.pos.trans_le behind⟩
      · exact trailing.left
    · exact trailing.right

end Trailing

/-! The steps that are probed. -/

section Steps

variable {F : Type} [Field F] [LinearOrder F] [IsStrictOrderedRing F] [Exact F]
variable {start a b : Sample F} {bracket : Bracket F} {tuning : Tuning F} {firstStep : F}
variable {fit : Sample F → Sample F → Option F}

variable (bracket fit tuning a b) in
theorem insideBy_cases :
    (bracket.insideBy fit tuning a b).1 = (a.step + b.step) / 2 ∨
      ∃ step, fit a b = some step ∧ (bracket.insideBy fit tuning a b).1 = step ∧
        a.step + (1 - tuning.fitInterior) * (b.step - a.step) / 2 ≤ step ∧
        step ≤ b.step - (1 - tuning.fitInterior) * (b.step - a.step) / 2 := by
  have middle : half * (a.step + b.step) = (a.step + b.step) / 2 := by
    rw [half_eq]
    ring
  have margin : half * (1 - tuning.fitInterior) * (b.step - a.step) =
      (1 - tuning.fitInterior) * (b.step - a.step) / 2 := by
    rw [half_eq]
    ring
  unfold insideBy
  rw [middle, margin]
  dsimp only
  split
  · exact .inl rfl
  · split
    · next step found =>
      split
      · next safe => exact .inr ⟨step, found, rfl, safe.1, safe.2⟩
      · exact .inl rfl
    · exact .inl rfl

variable (bracket fit) in
theorem insideBy_within (interior : tuning.fitInterior ≤ 1) (ordered : a.step ≤ b.step) :
    a.step ≤ (bracket.insideBy fit tuning a b).1 ∧
      (bracket.insideBy fit tuning a b).1 ≤ b.step := by
  have margin : 0 ≤ (1 - tuning.fitInterior) * (b.step - a.step) :=
    mul_nonneg (sub_nonneg.mpr interior) (sub_nonneg.mpr ordered)
  rcases insideBy_cases a b bracket tuning fit with middle | ⟨step, _, same, after, before⟩
  · rw [middle]
    constructor <;> linarith
  · rw [same]
    constructor <;> linarith

theorem insideBy_pos (leaves : ∀ a b : Sample F, a.slope < 0 → fit a b ≠ some a.step)
    (interior : tuning.fitInterior ≤ 1) (ordered : a.step ≤ b.step)
    (first : (a.step = 0 ∧ a.slope < 0) ∨ 0 < a.step) (last : 0 < b.step) :
    0 < (bracket.insideBy fit tuning a b).1 := by
  obtain ⟨after, _⟩ := insideBy_within bracket fit interior ordered
  rcases first with ⟨origin, descends⟩ | further
  · rcases insideBy_cases a b bracket tuning fit with middle | ⟨step, found, same, _⟩
    · rw [middle, origin]
      linarith
    · refine lt_of_le_of_ne (origin.symm.le.trans after) fun zero => leaves a b descends ?_
      rw [found, origin, zero, same]
  · exact further.trans_le after

variable (descends : start.slope < 0)

include descends

theorem Trailing.nextBy_within (trailing : Trailing start bracket.ends) (origin : start.step = 0)
    (leaves : ∀ a b : Sample F, a.slope < 0 → fit a b ≠ some a.step)
    (interior : tuning.fitInterior ≤ 1) (grows : 1 < tuning.maxStepGrowth)
    (forward : 0 < firstStep) :
    Within bracket.ends (bracket.nextBy fit tuning firstStep).1 := by
  unfold nextBy
  split
  · next fresh =>
    obtain ⟨noLeft, noRight⟩ := Bool.and_eq_true_iff.mp fresh
    rw [Option.isNone_iff_eq_none] at noLeft noRight
    constructor
    · exact forward
    · intro left member
      exact nomatch noLeft.symm.trans member
    · intro right member
      exact nomatch noRight.symm.trans member
  · next known =>
    split
    · next outward =>
      obtain ⟨_, noRight⟩ := subInterval_none descends trailing.alone outward
      obtain ⟨left, found⟩ : ∃ left, bracket.left = some left := by
        refine Option.ne_none_iff_exists'.mp fun noLeft => known ?_
        rw [noLeft, noRight]
        rfl
      have further : 0 < bracket.best.step := (trailing.left left found).2.2
      have reaches := (expansionBy_between bracket fit grows further).1
      constructor
      · exact further.trans reaches
      · intro left member
        exact (trailing.left left member).2.1.trans reaches.le
      · intro right member
        exact nomatch noRight.symm.trans member
    · next a b found =>
      have apart {sample : Sample F} (known : sample = start ∨ 0 < sample.step) :
          (sample.step = 0 ∧ sample.slope < 0) ∨ 0 < sample.step := by
        rcases known with rfl | behind
        · exact .inl ⟨origin, descends⟩
        · exact .inr behind
      rcases subInterval_some found with ⟨rfl, last⟩ | ⟨first, rfl⟩
      · obtain ⟨ordered, behind⟩ := trailing.right b last
        obtain ⟨after, before⟩ := insideBy_within bracket fit interior ordered
        constructor
        · exact insideBy_pos leaves interior ordered (apart trailing.best) behind
        · intro left member
          exact (trailing.left left member).2.1.trans after
        · intro right member
          rw [Option.mem_unique member last]
          exact before
      · obtain ⟨known, ordered, behind⟩ := trailing.left a first
        obtain ⟨after, before⟩ := insideBy_within bracket fit interior ordered
        constructor
        · exact insideBy_pos leaves interior ordered (apart known) behind
        · intro left member
          rw [Option.mem_unique member first]
          exact after
        · intro right member
          exact before.trans (trailing.right right member).1

end Steps

theorem create_trailing {F : Type} [Field F] [LinearOrder F] [Exact F] [Limited F]
    {start : Sample F} {bracket : Bracket F} (opens : create start = .ok bracket) :
    Trailing start bracket.ends := by
  rw [create_ends opens]
  constructor
  · exact fun _ => rfl
  · exact nofun
  · exact nofun

end Bracket

/-! The record of a line. -/

section Record

variable {F : Type} [Field F] [LinearOrder F] [Exact F] {n : Nat}

/-- What is recorded is the start or lies behind it, and the second sample does not beat the
best. -/
structure Record.Follows (origin : Marked F n) (line : Record F n) : Prop where
  entries : ∀ entry ∈ line.entries, entry = origin ∨ 0 < entry.sample.step
  sorted : ∀ second ∈ line.second, second.sample.isBetterThan line.best.sample = false

variable {origin : Marked F n} {line : Record F n}

theorem Record.create_follows (start : Sample F) (gradient : Vector F n) :
    (Record.create start gradient).Follows ⟨start, gradient⟩ := by
  constructor
  · exact fun _ member => .inl (List.mem_singleton.mp member)
  · exact nofun

theorem Record.Follows.add (follows : line.Follows origin) {sample : Sample F}
    (behind : 0 < sample.step) (gradient : Vector F n) :
    (line.add sample gradient).Follows origin := by
  constructor
  · intro entry member
    rcases entries_add entry member with rfl | older
    · exact .inr behind
    · exact follows.entries entry older
  · unfold Record.add
    split
    · next better =>
      rintro second ⟨⟩
      exact Sample.not_isBetterThan_of_isBetterThan better
    · next worse =>
      split
      · rintro second ⟨⟩
        exact Bool.eq_false_iff.mpr worse
      · exact follows.sorted

theorem Record.Follows.best_pos (follows : line.Follows origin)
    (better : line.best.sample.isBetterThan origin.sample = true) : 0 < line.best.sample.step := by
  rcases follows.entries line.best List.mem_cons_self with same | behind
  · rw [same, Sample.isBetterThan_iff_rank] at better
    exact absurd better (lt_irrefl _)
  · exact behind

theorem Record.Follows.reference_best (follows : line.Follows origin) {step : F}
    {marked : Marked F n} (found : line.reference step = some marked) :
    ∀ entry ∈ line.entries, entry.sample.sameStep step = false →
      entry.sample.isBetterThan marked.sample = false := by
  have same (sample : Sample F) : sample.isBetterThan sample = false :=
    Sample.not_isBetterThan_iff_rank.mpr le_rfl
  intro entry member apart
  unfold Record.reference at found
  split at found
  · next occupied =>
    obtain ⟨second, _⟩ := Option.filter_eq_some_iff.mp found
    rcases List.mem_cons.mp member with rfl | later
    · exact nomatch occupied.symm.trans apart
    · rw [Option.mem_unique (Option.mem_toList.mp later) second]
      exact same _
  · obtain rfl := Option.some.inj found
    rcases List.mem_cons.mp member with rfl | later
    · exact same _
    · exact follows.sorted entry (Option.mem_toList.mp later)

end Record

/-! A search of a line. -/

namespace Minimization

variable {m : Type → Type} [Monad m] [MonadExceptOf Fault m] {World : Type} [Execution m World]
variable {F : Type} [Field F] [LinearOrder F] [Exact F] [Limited F] {n : Nat}
variable {kernels : Kernels F n} {settings : Settings F} {caller : Caller m F n}
variable {before after : World} {iteration : Nat} {state left : State F n}

theorem opening_follows {tuning : Tuning F} {start : Sample F} {gradient : Vector F n}
    {opened : Bracket F} {kept : Option (Marked F n)} (zero : start.step = 0)
    (opens : Bracket.create start = .ok opened) (ahead : ∀ probe ∈ kept, 0 < probe.sample.step) :
    Bracket.Trailing start (opening tuning opened (.create start gradient) kept).2.ends ∧
      (opening tuning opened (.create start gradient) kept).1.Follows ⟨start, gradient⟩ := by
  have trailing := Bracket.create_trailing opens
  have follows := Record.create_follows start gradient
  cases kept with
  | none => exact ⟨trailing, follows⟩
  | some probe =>
    have within : Bracket.Within opened.ends probe.sample.step := by
      rw [Bracket.create_ends opens]
      exact ⟨ahead probe rfl, nofun, nofun⟩
    exact ⟨trailing.places zero within (Bracket.merge_places tuning opened _ false),
      follows.add within.pos _⟩

variable [IsStrictOrderedRing F] [Euclidean F]

theorem search_follows {tuning : Tuning F} {firstStep : F} {start : Sample F}
    {origin : Marked F n} {bracket : Bracket F} {trail next : Trail F n} {found : Found F}
    (interior : tuning.fitInterior ≤ 1) (grows : 1 < tuning.maxStepGrowth)
    (forward : 0 < firstStep) (zero : start.step = 0) (descends : start.slope < 0)
    (trailing : Bracket.Trailing start bracket.ends) (follows : trail.line.Follows origin)
    (ran : Returns (search tuning (probing kernels caller state) firstStep bracket trail) before
      (found, next) after) : next.line.Follows origin := by
  have probed (bracket : Bracket F) (trail : Trail F n) (world : World) (sample : Sample F)
      (next : Trail F n) (after : World)
      (kept : Bracket.Trailing start bracket.ends ∧ trail.line.Follows origin)
      (_ : bracket.exit? tuning = none)
      (ran : Returns (probing kernels caller state (bracket.next tuning firstStep).1 trail) world
        (sample, next) after) :
      Bracket.Trailing start
          (bracket.absorb tuning sample (bracket.next tuning firstStep).2).ends ∧
        next.line.Follows origin := by
    obtain ⟨marked, rfl, probes⟩ := probing_returns ran
    obtain ⟨value, gradient, _, answer, _, line⟩ := probe_returns probes
    have place : marked.sample.step = (bracket.next tuning firstStep).1 :=
      congrArg (fun marked => marked.sample.step) answer
    have within : Bracket.Within bracket.ends marked.sample.step := by
      rw [place, ← Bracket.nextBy_fitMinimizer]
      exact kept.1.nextBy_within descends zero (fun a b falls => a.fitMinimizer_ne b falls.ne)
        interior grows forward
    refine ⟨kept.1.places zero within (Bracket.absorb_places tuning bracket _ _), ?_⟩
    rw [line]
    exact kept.2.add within.pos _
  obtain ⟨_, kept, _⟩ := search_invariant _ probed ⟨trailing, follows⟩ ran
  exact kept.2

/-- A search that moves has gone forwards, and its record follows the start. -/
theorem land_follows {slope step : F} {kept : Option (Marked F n)} {line : Record F n}
    {target : State.Move F n} (interior : settings.tuning.fitInterior ≤ 1)
    (grows : 1 < settings.tuning.maxStepGrowth) (forward : 0 < step) (descends : slope < 0)
    (ahead : ∀ probe ∈ kept, 0 < probe.sample.step)
    (lands : Returns
      (Plan.land kernels settings caller iteration (.explore state slope kept step)) before
      (.moves left line target) after) :
    ∃ tally, left = { state with tally } ∧
      line.Follows ⟨.make 0 state.value slope, state.gradient⟩ ∧ 0 < target.step := by
  obtain ⟨opened, _, trail, _, opens, searched, ⟨better, same, _⟩ | ⟨_, impossible⟩⟩ :=
    land_explore lands
  · obtain ⟨rfl, rfl, rfl⟩ := Landing.moves.inj same
    obtain ⟨trailing, follows⟩ := opening_follows rfl opens ahead
    have followed := search_follows interior grows forward rfl descends trailing follows searched
    exact ⟨trail.tally, rfl, followed, followed.best_pos better⟩
  · exact nomatch impossible

end Minimization

end Descent

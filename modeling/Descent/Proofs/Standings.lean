import Descent.Proofs.Search
import Descent.Proofs.Spread

/-!
The two leading samples of a line. A sample that is recorded takes the lead, comes second or is
passed over. Being better is transitive, so the lead is beaten by nothing recorded before it, and
the second place by nothing but the lead. The record keeps its gradients in place: they change
places with the lead, and the one in front is overwritten. A search keeps a best sample of its own,
by the same rule and from the same samples, so both agree at every probe.
-/

namespace Descent

open Scalar Execution

/-! The record in place. -/

/-- A record as it is stored. The gradient beside a missing second sample is left over from
another line. -/
structure Slots (F : Type) (n : ℕ) where
  best : Sample F
  bestGradient : Vector F n
  second : Option (Sample F)
  secondGradient : Vector F n

namespace Slots

variable {F : Type} {n : ℕ}

def record (slots : Slots F n) : Record F n where
  best := ⟨slots.best, slots.bestGradient⟩
  second := slots.second.map fun second => ⟨second, slots.secondGradient⟩

def reset (kernels : Kernels F n) (slots : Slots F n) (start : Sample F) (gradient : Vector F n) :
    Slots F n :=
  { slots with
    best := start
    bestGradient := kernels.update (.copy gradient) slots.bestGradient
    second := none }

variable [Scalar F]

def add (kernels : Kernels F n) (slots : Slots F n) (marked : Marked F n) : Slots F n :=
  if marked.sample.isBetterThan slots.best then
    -- the gradients were exchanged, so that of the old second sample is overwritten
    { best := marked.sample
      bestGradient := kernels.update (.copy marked.gradient) slots.secondGradient
      second := some slots.best
      secondGradient := slots.bestGradient }
  else if slots.second.all fun second => marked.sample.isBetterThan second then
    { slots with
      second := some marked.sample
      secondGradient := kernels.update (.copy marked.gradient) slots.secondGradient }
  else slots

def refill (kernels : Kernels F n) (slots : Slots F n) (origin : Marked F n)
    (later : List (Marked F n)) : Slots F n :=
  later.foldl (add kernels) (slots.reset kernels origin.sample origin.gradient)

end Slots

namespace Record

variable {F : Type} [Scalar F] {n : ℕ}

def addAll (line : Record F n) (later : List (Marked F n)) : Record F n :=
  later.foldl (fun line marked => line.add marked.sample marked.gradient) line

theorem addAll_append (line : Record F n) (earlier later : List (Marked F n)) :
    line.addAll (earlier ++ later) = (line.addAll earlier).addAll later :=
  List.foldl_append

theorem add_best (line : Record F n) (sample : Sample F) (gradient : Vector F n) :
    (line.add sample gradient).best.sample =
      if sample.isBetterThan line.best.sample then sample else line.best.sample := by
  unfold add
  split
  · rfl
  · split <;> rfl

end Record

namespace Slots

variable {F : Type} [Scalar F] {n : ℕ}

theorem copy_eq {threads : ℕ} (positive : 0 < threads) (runner : Runner)
    (source target : Vector F n) :
    (Kernels.shared F n threads runner).update (.copy source) target = source := by
  rw [Kernels.shared_update threads runner positive]
  apply Vector.ext
  intro i inside
  exact Vector.getElem_ofFn inside

variable {kernels : Kernels F n}
  (copies : ∀ source target, kernels.update (.copy source) target = source)

include copies

omit [Scalar F] in
theorem reset_record (slots : Slots F n) (start : Sample F) (gradient : Vector F n) :
    (slots.reset kernels start gradient).record = .create start gradient := by
  rw [record, reset, copies]
  rfl

theorem add_record (slots : Slots F n) (marked : Marked F n) :
    (slots.add kernels marked).record = slots.record.add marked.sample marked.gradient := by
  have seconds : (slots.record.second.all fun second => marked.sample.isBetterThan second.sample) =
      slots.second.all fun second => marked.sample.isBetterThan second := by
    rw [record]
    cases slots.second <;> rfl
  unfold add Record.add
  rw [seconds]
  change _ = if marked.sample.isBetterThan slots.best = true then _ else _
  split
  · rw [record, copies]
    rfl
  · split
    · rw [record, copies]
      rfl
    · rfl

theorem refill_record (slots : Slots F n) (origin : Marked F n) (later : List (Marked F n)) :
    (slots.refill kernels origin later).record =
      (Record.create origin.sample origin.gradient).addAll later := by
  rw [refill, Record.addAll, ← reset_record copies slots]
  exact (List.foldl_hom record fun slots marked => (add_record copies slots marked).symm).symm

end Slots

/-! Places. -/

namespace Record

section Places

variable {F : Type} {n : ℕ} {entries : List (Marked F n)} {first : ℕ} {line : Record F n}

/-- Among the entries of a line, the one in this place has the lead and nothing beats it. There is
a second one as soon as there are two entries; it has another place, and only the lead may beat
it. -/
structure Leads [Scalar F] (entries : List (Marked F n)) (first : ℕ) (line : Record F n) :
    Prop where
  best : entries[first]? = some line.best
  unbeaten : ∀ entry ∈ entries, entry.sample.isBetterThan line.best.sample = false
  present : line.second.isSome = true ↔ 1 < entries.length
  second : ∀ second ∈ line.second, ∃ k ≠ first, entries[k]? = some second ∧
    ∀ i ≠ first, ∀ entry ∈ entries[i]?, entry.sample.isBetterThan second.sample = false

theorem getElem?_concat {A : Type} {items : List A} {last item : A} {i : ℕ}
    (found : item ∈ (items ++ [last])[i]?) :
    item ∈ items[i]? ∨ i = items.length ∧ item = last := by
  rw [List.getElem?_append] at found
  split at found
  · exact .inl found
  · next beyond =>
    rw [Option.mem_def, List.getElem?_singleton] at found
    split at found
    · next zero => exact .inr ⟨by omega, (Option.some.inj found).symm⟩
    · exact nomatch found

section Concat

variable [Scalar F] (leads : Leads entries first line) (marked : Marked F n)

include leads

theorem Leads.inside : first < entries.length :=
  (List.getElem?_eq_some_iff.mp leads.best).1

theorem Leads.best_concat : (entries ++ [marked])[first]? = some line.best :=
  (List.getElem?_append_left leads.inside).trans leads.best

theorem Leads.several : 1 < (entries ++ [marked]).length := by
  have inside := leads.inside
  rw [List.length_append, List.length_singleton]
  omega

variable {marked}

theorem Leads.unbeaten_concat (worse : marked.sample.isBetterThan line.best.sample = false) :
    ∀ entry ∈ entries ++ [marked], entry.sample.isBetterThan line.best.sample = false := by
  intro entry member
  obtain earlier | latest := List.mem_append.mp member
  · exact leads.unbeaten entry earlier
  · obtain rfl := List.mem_singleton.mp latest
    exact worse

theorem Leads.pass {old : Marked F n} (seconds : line.second = some old)
    (worse : marked.sample.isBetterThan line.best.sample = false)
    (farther : marked.sample.isBetterThan old.sample = false) :
    Leads (entries ++ [marked]) first line where
  best := leads.best_concat marked
  unbeaten := leads.unbeaten_concat worse
  present := ⟨fun _ => leads.several marked, fun _ => Option.isSome_of_eq_some seconds⟩
  second := by
    intro second same
    obtain rfl := Option.some.inj (seconds.symm.trans same)
    obtain ⟨k, apart, placed, unbeaten⟩ := leads.second old seconds
    obtain ⟨inside, _⟩ := List.getElem?_eq_some_iff.mp placed
    refine ⟨k, apart, (List.getElem?_append_left inside).trans placed, ?_⟩
    intro i other entry found
    obtain earlier | ⟨_, rfl⟩ := getElem?_concat found
    · exact unbeaten i other entry earlier
    · exact farther

end Concat

variable [Unbounded F] [Lawful F]

theorem create_leads (start : Sample F) (gradient : Vector F n) :
    Leads [⟨start, gradient⟩] 0 (create start gradient) where
  best := rfl
  unbeaten := List.forall_mem_singleton.mpr start.not_isBetterThan_self
  present := ⟨nofun, fun more => absurd more (Nat.lt_irrefl 1)⟩
  second := nofun

theorem Leads.overtake (leads : Leads entries first line) {marked : Marked F n}
    (better : marked.sample.isBetterThan line.best.sample = true) :
    Leads (entries ++ [marked]) entries.length { best := marked, second := some line.best } where
  best := List.getElem?_concat_length
  unbeaten := by
    intro entry member
    obtain earlier | latest := List.mem_append.mp member
    · -- what beats the new lead would have beaten the old one
      refine Bool.eq_false_iff.mpr fun beaten => ?_
      have unbeaten := leads.unbeaten entry earlier
      rw [Sample.isBetterThan_trans beaten better] at unbeaten
      exact nomatch unbeaten
    · obtain rfl := List.mem_singleton.mp latest
      exact entry.sample.not_isBetterThan_self
  present := ⟨fun _ => leads.several marked, fun _ => rfl⟩
  second := by
    intro second same
    obtain rfl := Option.some.inj same
    refine ⟨first, leads.inside.ne, leads.best_concat marked, ?_⟩
    intro i other entry found
    obtain earlier | ⟨last, _⟩ := getElem?_concat found
    · exact leads.unbeaten entry (List.mem_of_getElem? earlier)
    · exact absurd last other

theorem Leads.follow (leads : Leads entries first line) {marked : Marked F n}
    (worse : marked.sample.isBetterThan line.best.sample = false)
    (closer : ∀ second ∈ line.second, marked.sample.isBetterThan second.sample = true) :
    Leads (entries ++ [marked]) first { line with second := some marked } where
  best := leads.best_concat marked
  unbeaten := leads.unbeaten_concat worse
  present := ⟨fun _ => leads.several marked, fun _ => rfl⟩
  second := by
    intro second same
    obtain rfl := Option.some.inj same
    refine ⟨entries.length, leads.inside.ne', List.getElem?_concat_length, ?_⟩
    intro i other entry found
    obtain earlier | ⟨_, rfl⟩ := getElem?_concat found
    · cases seconds : line.second with
      | none =>
        -- without a second one there is no place but the lead
        have alone := mt leads.present.mpr (by rw [seconds]; exact Bool.false_ne_true)
        obtain ⟨inside, _⟩ := List.getElem?_eq_some_iff.mp earlier
        have lead := leads.inside
        omega
      | some old =>
        refine Bool.eq_false_iff.mpr fun beaten => ?_
        obtain ⟨_, _, _, unbeaten⟩ := leads.second old seconds
        have unbeaten := unbeaten i other entry earlier
        rw [Sample.isBetterThan_trans beaten (closer old seconds)] at unbeaten
        exact nomatch unbeaten
    · exact entry.sample.not_isBetterThan_self

theorem Leads.add (leads : Leads entries first line) (marked : Marked F n) :
    ∃ place, Leads (entries ++ [marked]) place (line.add marked.sample marked.gradient) := by
  unfold Record.add
  split
  · next better => exact ⟨_, leads.overtake better⟩
  · next worse =>
    have worse := Bool.eq_false_iff.mpr worse
    split
    · next closer => exact ⟨_, leads.follow worse ((Option.all_eq_true _ _).mp closer)⟩
    · next farther =>
      cases seconds : line.second with
      | none => rw [seconds] at farther; exact absurd rfl farther
      | some old =>
        rw [seconds] at farther
        exact ⟨_, leads.pass seconds worse (Bool.eq_false_iff.mpr farther)⟩

/-- After any samples, in any order. -/
theorem addAll_leads (start : Sample F) (gradient : Vector F n) (later : List (Marked F n)) :
    ∃ first, Leads (⟨start, gradient⟩ :: later) first ((create start gradient).addAll later) := by
  induction later using List.reverseRecOn with
  | nil => exact ⟨0, create_leads start gradient⟩
  | append_singleton earlier marked ih =>
    obtain ⟨first, leads⟩ := ih
    rw [addAll_append]
    exact leads.add marked

end Places

end Record

/-! Beside a search. -/

theorem Bracket.absorb_best {F : Type} [Scalar F] (tuning : Tuning F) (bracket : Bracket F)
    (sample : Sample F) (bisected : Bool) :
    (bracket.absorb tuning sample bisected).best =
      if sample.isBetterThan bracket.best then sample else bracket.best :=
  merge_best tuning { bracket with probes := bracket.probes + 1 } sample bisected

namespace Minimization

variable {m : Type → Type} [Monad m] [MonadExceptOf Fault m] {World : Type} [Execution m World]
variable {F : Type} [Unbounded F] {n : ℕ}

def Searches (kernels : Kernels F n) (settings : Settings F) (caller : Caller m F n)
    (state : State F n) (slope : F) (kept : Option (Marked F n)) (step : F) (before : World)
    (found : Found F) (trail : Trail F n) (after : World) : Prop :=
  ∃ opened, Bracket.create (.make 0 state.value slope) = .ok opened ∧
    let (line, bracket) := opening settings.tuning opened
      (.create (.make 0 state.value slope) state.gradient) kept
    Returns
      (search settings.tuning (probing kernels caller state) step bracket
        { tally := state.tally, line })
      before (found, trail) after

variable {kernels : Kernels F n} {settings : Settings F} {caller : Caller m F n}
variable {state left : State F n} {slope step : F} {kept : Option (Marked F n)}
variable {before after : World} {found : Found F} {trail : Trail F n}

theorem opening_best {tuning : Tuning F} {opened : Bracket F}
    (opens : Bracket.create (.make 0 state.value slope) = .ok opened) :
    (opening tuning opened (.create (.make 0 state.value slope) state.gradient) kept).2.best =
      (opening tuning opened (.create (.make 0 state.value slope) state.gradient)
        kept).1.best.sample := by
  have begun : opened.best = .make 0 state.value slope :=
    congrArg Bracket.best (Bracket.eq_of_create opens).2
  cases kept with
  | none => exact begun
  | some probe =>
    refine (Bracket.merge_best tuning opened probe.sample false).trans ?_
    rw [opening, Record.add_best, begun]
    rfl

/-- Bracket and record are given the same samples by the same rule. -/
theorem Searches.agree
    (searches : Searches kernels settings caller state slope kept step before found trail after) :
    found.best = trail.line.best.sample ∧
    ∃ probed, probed.length = found.probes ∧
      trail.line = (Record.create (.make 0 state.value slope) state.gradient).addAll
        (kept.toList ++ probed) := by
  obtain ⟨opened, opens, ran⟩ := searches
  obtain ⟨last, ⟨agree, probed, count, line⟩, _, best, probes⟩ := search_invariant
    (fun bracket trail _ => bracket.best = trail.line.best.sample ∧
      ∃ probed : List (Marked F n), probed.length = bracket.probes ∧
        trail.line = (Record.create (.make 0 state.value slope) state.gradient).addAll
          (kept.toList ++ probed))
    (by
      rintro bracket trail before sample next after ⟨agree, probed, count, line⟩ _ ran
      obtain ⟨marked, rfl, probes⟩ := probing_returns ran
      obtain ⟨_, _, _, _, _, recorded⟩ := probe_returns probes
      refine ⟨?_, probed ++ [marked], ?_, ?_⟩
      · rw [Bracket.absorb_best, recorded, Record.add_best, agree]
      · rw [List.length_append, Bracket.absorb_probes, count]
        rfl
      · rw [recorded, ← List.append_assoc, Record.addAll_append, ← line]
        rfl)
    ⟨opening_best opens, [], (opening_probes opens _ kept).symm, by cases kept <;> rfl⟩ ran
  exact ⟨best.trans agree, probed, count.trans probes.symm, line⟩

/-- A careful iteration makes such a search, and moves to its best sample when that is better than
where it started. -/
theorem searchLine_lands {iteration : ℕ}
    (ran : Returns (searchLine kernels settings caller iteration state slope kept step) before left
      after) :
    ∃ found trail middle,
      Searches kernels settings caller state slope kept step before found trail middle ∧
      (found.best.isBetterThan (.make 0 state.value slope) = true →
        Returns
          (move kernels settings caller iteration { state with tally := trail.tally } trail.line
            { step := found.best.step
              value := found.best.value
              gradient := trail.line.best.gradient
              real := true })
          middle left after) := by
  obtain ⟨opened, found, trail, middle, opens, searched, ends⟩ := searchLine_returns ran
  have searches : Searches kernels settings caller state slope kept step before found trail
      middle := ⟨opened, opens, searched⟩
  refine ⟨found, trail, middle, searches, fun better => ?_⟩
  rw [searches.agree.1] at better ⊢
  obtain ⟨_, moves⟩ | ⟨worse, _⟩ := ends
  · exact moves
  · exact nomatch worse.symm.trans better

/-- Lead, second place and gradients after any samples on a line, although the gradients change
places. Along a search the record presents the samples that the bracket has seen, and both have
the same best one. -/
theorem line_standings [Lawful F] {threads : ℕ} (positive : 0 < threads) (runner : Runner) :
    (∀ (slots : Slots F n) (origin : Marked F n) (later : List (Marked F n)),
      ∃ first, Record.Leads (origin :: later) first
        (slots.refill (.shared F n threads runner) origin later).record) ∧
    ∀ (settings : Settings F) (caller : Caller m F n) (state : State F n) (slope : F)
      (kept : Option (Marked F n)) (step : F) (before : World) (found : Found F)
      (trail : Trail F n) (after : World),
      Searches (.shared F n threads runner) settings caller state slope kept step before found trail
        after →
      ∃ probed, probed.length = found.probes ∧ ∀ slots : Slots F n,
        let line := slots.refill (.shared F n threads runner)
          ⟨.make 0 state.value slope, state.gradient⟩ (kept.toList ++ probed)
        line.record = trail.line ∧ line.best = found.best := by
  have copies := Slots.copy_eq (F := F) (n := n) positive runner
  constructor
  · intro slots origin later
    rw [Slots.refill_record copies]
    exact Record.addAll_leads origin.sample origin.gradient later
  · intro settings caller state slope kept step before found trail after searches
    obtain ⟨agree, probed, count, line⟩ := searches.agree
    refine ⟨probed, count, fun slots => ?_⟩
    have same := (Slots.refill_record copies slots
      ⟨.make 0 state.value slope, state.gradient⟩ _).trans line.symm
    refine ⟨same, ?_⟩
    rw [agree, ← same]
    rfl

/-! A line that falls, with slopes that are never defined. -/

def dull (x : Vector Float 1) : Float × Vector Float 1 :=
  (-x.get ⟨0, Nat.one_pos⟩, .replicate 1 (0 / 0))

def dullKernels : Kernels Float 1 := .shared Float 1 2 .reversed

def dullState : State Float 1 :=
  .create dullKernels brief (.replicate 1 0) 0 (.replicate 1 (-1)) (.create (.replicate 1 0))

def dullProbe : Marked Float 1 := ⟨.make 8 (0 / 0) 1, .replicate 1 1⟩

def dullSearch : Except Fault (Found Float × Trail Float 1) := do
  let opened ← Bracket.create (.make 0 dullState.value (-1))
  let (line, bracket) := opening brief.tuning opened
    (.create (.make 0 dullState.value (-1)) dullState.gradient) (some dullProbe)
  search brief.tuning (probing dullKernels (.ofFunction dull) dullState) 1 bracket
    { tally := dullState.tally, line }

theorem dullSearch_yields : Yields dullSearch fun (found, _) => found.probes = 2 := by
  decide +kernel

def dullStart : Marked Float 1 := ⟨.make 0 1 (-1), .replicate 1 (-1)⟩

def dullLine : List (Marked Float 1) :=
  [⟨.make 2 1 0.5, .replicate 1 2⟩, dullProbe, ⟨.make 2 1 0.5, .replicate 1 3⟩,
    ⟨.make 4 1 (0 / 0), .replicate 1 4⟩]

def blank : Slots Float 1 := ⟨.make 0 0 0, .replicate 1 0, none, .replicate 1 0⟩

theorem line_standings_dull :
    0 < 2 ∧
    (∃ first, Record.Leads (dullStart :: dullLine) first
      (blank.refill dullKernels dullStart dullLine).record) ∧
    ∃ found trail probed,
      Searches dullKernels brief (.ofFunction dull : Caller (Except Fault) Float 1) dullState (-1)
        (some dullProbe) 1 () found trail () ∧
      found.probes = 2 ∧ probed.length = 2 ∧
      (blank.refill dullKernels ⟨.make 0 dullState.value (-1), dullState.gradient⟩
        (dullProbe :: probed)).best = found.best := by
  obtain ⟨⟨found, trail⟩, same, two⟩ := dullSearch_yields
  have ran : Returns dullSearch () (found, trail) () := same
  obtain ⟨opened, _, opens, searched⟩ := returns_bind.mp ran
  have searches : Searches dullKernels brief (.ofFunction dull : Caller (Except Fault) Float 1)
      dullState (-1) (some dullProbe) 1 () found trail () := ⟨opened, opens, searched⟩
  have positive : 0 < 2 := by decide
  obtain ⟨leads, agree⟩ := line_standings (m := Except Fault) (F := Float) (n := 1) positive
    .reversed
  obtain ⟨probed, count, both⟩ := agree _ _ _ _ _ _ _ _ _ _ searches
  exact ⟨positive, leads _ _ _, found, trail, probed, searches, two, count.trans two,
    (both _).2⟩

end Minimization

end Descent

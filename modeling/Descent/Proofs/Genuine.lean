import Descent.Proofs.Answer
import Descent.Proofs.Remarks

/-!
What a real iterate is. A careful search moves to a point that it computes from the direction and
the best step, with a gradient that it kept on record; a probe may have been made before the
iterate was evaluated or the direction given up. None of this pairs a point with data of another
one: an iterate that is marked as real was evaluated, and with just this value and gradient. Where
a search is no progress the iterate stays where the search began.
-/

namespace Descent

open Scalar Execution

variable {F : Type} {n : Nat}

/-- An iterate that is marked as real, with a value below infinity, is one of the evaluations. -/
def State.Genuine [Unbounded F] (state : State F n) (evaluations : List (Evaluation F n)) : Prop :=
  state.real = true → state.value < Unbounded.infinity →
    ⟨state.x, state.value, state.gradient⟩ ∈ evaluations

namespace Minimization

variable {m : Type → Type} [Monad m] [MonadExceptOf Fault m] {World : Type} [Execution m World]
variable [Unbounded F] {kernels : Kernels F n} {settings : Settings F} {caller : Caller m F n}
variable {before after : Journal F n × World} {iteration : Nat} {state next : State F n}

/-- Only an iteration that stays at the start of its search remarks that there was no progress. -/
theorem lands_of_noProgress {written : Journal F n} {index probes : Nat} {exit : Exit}
    (lands : Lands kernels settings caller iteration state before next after)
    (grown : after.1 = before.1 ++ written)
    (remarked : .noted (.noProgress index exit probes) ∈ written) :
    index = iteration ∧ ∃ start slope kept step entered,
      Returns (plan kernels settings caller.recorded iteration state) before
        (.explore start slope kept step) entered ∧
      next.x = start.x ∧ next.value = start.value ∧ next.gradient = start.gradient ∧
      next.real = start.real := by
  -- the remark belongs to a landing, so it is not among those on the way to it
  have grounded {journal : Journal F n} (aloft : journal.Aloft) :
      Entry.noted (.noProgress index exit probes) ∉ journal :=
    fun member => Bool.noConfusion (aloft _ member)
  cases lands with
  | rests plans =>
    obtain ⟨work, same, aloft, _⟩ := plan_underway plans
    obtain rfl := List.append_cancel_left (same.symm.trans grown)
    exact absurd remarked (grounded aloft)
  | @stays start slope step kept _ entered _ _ exit' probes' plans underway last =>
    obtain ⟨work, same, aloft, _⟩ := underway
    rw [last, same, List.append_assoc] at grown
    obtain rfl := List.append_cancel_left grown
    refine ⟨?_, start, slope, kept, step, entered, plans, rfl, rfl, rfl, rfl⟩
    rcases List.mem_append.mp remarked with earlier | latest
    · exact absurd earlier (grounded aloft)
    · cases List.mem_singleton.mp latest
      rfl
  | @moves moved line target _ _ _ underway last =>
    obtain ⟨work, same, aloft, _⟩ := underway
    rw [last, same, List.append_assoc] at grown
    obtain rfl := List.append_cancel_left grown
    rcases List.mem_append.mp remarked with earlier | latest
    · exact absurd earlier (grounded aloft)
    · obtain ⟨_, _, impossible⟩ := List.mem_map.mp latest
      cases impossible

/-- Before and after every check of a run, an iterate that is marked as real and lies below
infinity was evaluated in this run, with this value and gradient. An iteration whose search was
no progress leaves the iterate where the search began. -/
theorem real_evaluated [LawfulMonad m] [Lawful F] (settings : Settings F) (runner : Runner)
    (caller : Caller m F n) (x : Vector F n) (before : World) (done : Nat) (state : State F n)
    (reached : World) (visits : Visits settings runner caller x before done state reached) :
    ∃ journal,
      Visits settings runner caller.recorded x ([], before) done state (journal, reached) ∧
      state.Genuine (Journal.evaluations journal) ∧
      (∀ termination? checked asked,
        Returns
          (check (Kernels.shared F n settings.threads runner) settings caller.recorded done state)
          (journal, reached) (termination?, checked) asked →
        checked.Genuine (Journal.evaluations asked.1)) ∧
      ∀ checked next asked after written index exit probes,
        Returns
          (check (Kernels.shared F n settings.threads runner) settings caller.recorded done state)
          (journal, reached) (none, checked) asked →
        Returns
          (iterate (Kernels.shared F n settings.threads runner) settings caller.recorded
            (done + 1) checked)
          asked next after →
        after.1 = asked.1 ++ written → .noted (.noProgress index exit probes) ∈ written →
        index = done + 1 ∧ ∃ start slope kept step entered,
          Returns
            (plan (Kernels.shared F n settings.threads runner) settings caller.recorded
              (done + 1) checked)
            asked (.explore start slope kept step) entered ∧
          next.x = start.x ∧ next.value = start.value ∧ next.gradient = start.gradient ∧
          next.real = start.real := by
  obtain ⟨journal, recorded⟩ := visits_recorded_iff.mp visits
  have ⟨_, started, begun, starts, passes⟩ := recorded
  obtain ⟨first, _, faithful⟩ := start_faithful rfl starts
  have arrived := passes_faithful faithful passes
  refine ⟨journal, recorded, arrived.evaluated, ?_, ?_⟩
  · intro termination? checked asked checks
    exact (check_faithful arrived checks).evaluated
  · intro checked next asked after written index exit probes _ iterates grown remarked
    exact lands_of_noProgress (iterate_lands iterates) grown remarked

/-! A plain whose gradient promises a slope. -/

def plainCaller : Caller (Except Fault) Float 1 := .ofFunction fun _ => (0, Vector.replicate 1 1)

def Entry.isNoProgress {F : Type} {n : Nat} : Entry F n → Bool
  | .noted (.noProgress ..) => true
  | _ => false

def plainRun (x : Vector Float 1) : StateT (Journal Float 1) (Except Fault)
    (Option (State Float 1) × Option Termination × Journal Float 1) := do
  let kernels := Kernels.shared Float 1 1 .inOrder
  let state? ← visit .standard .inOrder plainCaller.recorded x 1
  match state? with
  | none => pure (none, none, [])
  | some state =>
      let (termination?, checked) ← check kernels .standard plainCaller.recorded 1 state
      let asked ← get
      let _ ← iterate kernels .standard plainCaller.recorded 2 checked
      let after ← get
      pure (some state, termination?, after.drop asked.length)

theorem plainRun_yields :
    Yields ((plainRun #v[3]).run []) fun ((state?, termination?, written), _) =>
      termination? = none ∧
        (∃ state ∈ state?, state.real = true ∧ state.value < Unbounded.infinity) ∧
        ∃ entry ∈ written, Entry.isNoProgress entry = true := by
  decide +kernel

/-- The second search on the plain begins where the first one did, and ends there. -/
theorem real_evaluated_plain :
    ∃ (state checked next : State Float 1) (journal : Journal Float 1)
      (asked after : Journal Float 1 × Unit),
      Visits .standard .inOrder plainCaller #v[3] () 1 state () ∧
      ⟨state.x, state.value, state.gradient⟩ ∈ Journal.evaluations journal ∧
      Returns (check (.shared Float 1 1 .inOrder) .standard plainCaller.recorded 1 state)
        (journal, ()) (none, checked) asked ∧
      checked.Genuine (Journal.evaluations asked.1) ∧
      Returns (iterate (.shared Float 1 1 .inOrder) .standard plainCaller.recorded 2 checked)
        asked next after ∧
      ∃ start slope kept step entered,
        Returns (plan (.shared Float 1 1 .inOrder) .standard plainCaller.recorded 2 checked)
          asked (.explore start slope kept step) entered ∧
        next.x = start.x ∧ next.value = start.value ∧ next.gradient = start.gradient ∧
        next.real = start.real := by
  obtain ⟨⟨⟨_, _, written⟩, final⟩, same, rfl, ⟨state, rfl, real, low⟩, entry, member, stalls⟩ :=
    plainRun_yields
  -- the run is taken apart, so that the theorem can be applied to its stages
  have ran : Returns (plainRun #v[3]) ([], ()) (some state, none, written) (final, ()) := same
  obtain ⟨state?, ⟨journal, _⟩, visited, rest⟩ := returns_bind.mp ran
  cases state? with
  | none => cases (Prod.mk.inj (returns_pure.mp rest).1).1
  | some state' =>
    obtain ⟨⟨termination?, checked⟩, _, checks, rest⟩ := returns_bind.mp rest
    obtain ⟨_, asked, got, rest⟩ := returns_bind.mp rest
    obtain ⟨rfl, rfl⟩ := returns_get.mp got
    obtain ⟨next, _, iterates, rest⟩ := returns_bind.mp rest
    obtain ⟨_, after, got, last⟩ := returns_bind.mp rest
    obtain ⟨rfl, rfl⟩ := returns_get.mp got
    obtain ⟨rfl, rfl, rfl⟩ : state = state' ∧ none = termination? ∧
        written = after.1.drop asked.1.length := by
      simpa only [Prod.mk.injEq, Option.some.injEq] using (returns_pure.mp last).1
    have recorded : Visits .standard .inOrder plainCaller.recorded #v[3] ([], ()) 1 state
        (journal, ()) := visits_of_visit Nat.zero_lt_one visited
    have visits := visits_recorded_iff.mpr ⟨journal, recorded⟩
    obtain ⟨journal', recorded', genuine, keeps, stays⟩ := real_evaluated .standard .inOrder
      plainCaller #v[3] () 1 state () visits
    obtain ⟨rfl, _⟩ := Prod.mk.inj (visits_unique recorded recorded').2
    obtain ⟨work, grown, _⟩ := iterate_adds _ _ _ iterates
    rw [grown, List.drop_left] at member
    cases entry with
    | evaluated | asked | polled | cancelled => cases stalls
    | noted event =>
      cases event with
      | noProgress index exit probes =>
        obtain ⟨_, start, slope, kept, step, entered, searched⟩ :=
          stays checked next asked after work index exit probes checks iterates grown member
        exact ⟨state, checked, next, _, asked, after, visits, genuine real low, checks,
          keeps _ _ _ checks, iterates, start, slope, kept, step, entered, searched⟩
      | _ => cases stalls

end Minimization

end Descent

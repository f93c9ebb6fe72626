import Mathlib.Data.List.Basic
import Descent.Proofs.Protocol
import Descent.Proofs.Sharing
import Descent.Scalar.Binary

/-!
The token of a minimization. The run polls it before every iteration and sets it in two places
only, when the predicate fires and when the cap on iterations is reached; the objective, the
predicate, the log and everybody else may set it at any time. The journal tells the run's own doing
from that of others.
-/

namespace Descent

open Scalar Execution

variable {σ F : Type} {n : Nat}

/-- Everybody who shares the token with a minimization. -/
structure Company (σ F : Type) (n : Nat) where
  evaluate : Vector F n → Shared σ (F × Vector F n)
  shouldStop : Vector F n → F → Nat → Shared σ Bool
  note : Event F → Shared σ Unit
  meanwhile : Shared σ Unit

namespace Company

def caller (company : Company σ F n) : Caller (Shared σ) F n where
  evaluate := company.evaluate
  shouldStop := company.shouldStop
  isCancelled := Shared.poll company.meanwhile
  cancel := Shared.cancel
  note := company.note

/-- Whatever the others do, the token stands afterwards in this relation to what it was. -/
structure Leaves (company : Company σ F n) (Kept : Token → Token → Prop) : Prop where
  evaluate (x : Vector F n) : Shared.Leaves Kept (company.evaluate x)
  shouldStop (x : Vector F n) (best : F) (iterations : Nat) :
    Shared.Leaves Kept (company.shouldStop x best iterations)
  note (event : Event F) : Shared.Leaves Kept (company.note event)
  meanwhile : Shared.Leaves Kept company.meanwhile

end Company

abbrev Scene (σ F : Type) (n : Nat) := Journal F n × (Token × σ) × Unit

namespace Scene

def IsSet (scene : Scene σ F n) : Prop := scene.2.1.1.isCancelled = true

def Stays (before after : Scene σ F n) : Prop := before.IsSet → after.IsSet

/-- The journal accounts for the token: it is set if it was before, or if the journal says that
the run set it; and where the journal says that it was found set, it is. -/
def Tracks (before after : Scene σ F n) : Prop :=
  ∃ written, after.1 = before.1 ++ written ∧
    (after.IsSet ↔ before.IsSet ∨ Entry.cancelled ∈ written) ∧
    (Entry.polled true ∈ written → after.IsSet)

theorem stays_lasting : Lasting (Stays : Scene σ F n → Scene σ F n → Prop) where
  refl _ := id
  trans first second := second ∘ first

theorem tracks_lasting : Lasting (Tracks : Scene σ F n → Scene σ F n → Prop) where
  refl scene := ⟨[], (List.append_nil _).symm, by simp, by simp⟩
  trans := by
    rintro before middle after ⟨written, first, set, found⟩ ⟨more, second, further, again⟩
    refine ⟨written ++ more, by rw [second, first, List.append_assoc], ?_, ?_⟩
    · rw [further, set, List.mem_append, or_assoc]
    · intro member
      rcases List.mem_append.mp member with early | late
      · exact further.mpr (.inl (found early))
      · exact again late

variable {A : Type} {program : Shared σ A} {entry : A → Entry F n}

theorem record_stays (others : Shared.Leaves Token.Stays program) :
    Keeps Stays (Caller.record program entry) := by
  intro before answer after ran
  exact others _ _ _ (Caller.returns_record.mp ran).1

theorem record_tracks (others : Shared.Leaves Eq program)
    (own : ∀ answer, entry answer ≠ .cancelled)
    (honest : ∀ before answer after, Returns program before answer after →
      entry answer = .polled true → after.1.1.isCancelled = true) :
    Keeps Tracks (Caller.record program entry) := by
  intro before answer after ran
  obtain ⟨returned, written⟩ := Caller.returns_record.mp ran
  have same : before.2.1.1 = after.2.1.1 := others _ _ _ returned
  refine ⟨[entry answer], written, ?_, ?_⟩
  · rw [List.mem_singleton, IsSet, IsSet, same]
    exact ⟨Or.inl, fun set => set.resolve_right fun named => own answer named.symm⟩
  · intro member
    exact honest _ _ _ returned (List.mem_singleton.mp member).symm

theorem cancel_sets {before after : Scene σ F n} {done : Unit}
    (ran : Returns (Caller.record Shared.cancel fun _ => (.cancelled : Entry F n)) before done
      after) :
    after.1 = before.1 ++ [.cancelled] ∧ after.IsSet := by
  obtain ⟨returned, written⟩ := Caller.returns_record.mp ran
  refine ⟨written, ?_⟩
  rw [IsSet, Shared.returns_cancel.mp returned]
  rfl

theorem caller_stays {company : Company σ F n} (others : company.Leaves Token.Stays) :
    company.caller.recorded.Corresponds (fun _ program _ => Keeps Stays program)
      company.caller.recorded where
  evaluate x := record_stays (others.evaluate x)
  shouldStop x best iterations := record_stays (others.shouldStop x best iterations)
  isCancelled := record_stays (Shared.poll_keeps others.meanwhile)
  cancel := fun _ _ _ ran _ => (cancel_sets ran).2
  note event := record_stays (others.note event)

theorem caller_tracks {company : Company σ F n} (others : company.Leaves Eq) :
    company.caller.recorded.Corresponds (fun _ program _ => Keeps Tracks program)
      company.caller.recorded where
  evaluate x := record_tracks (others.evaluate x) (fun _ => nofun) fun _ _ _ _ => nofun
  shouldStop x best iterations :=
    record_tracks (others.shouldStop x best iterations) (fun _ => nofun) fun _ _ _ _ => nofun
  isCancelled := by
    refine record_tracks (Shared.poll_keeps others.meanwhile) (fun _ => nofun) ?_
    intro before answer after ran named
    rw [← (Shared.returns_poll.mp ran).2]
    exact (Entry.polled.inj named)
  cancel := by
    intro before done after ran
    obtain ⟨written, set⟩ := cancel_sets ran
    exact ⟨_, written, ⟨fun _ => .inr (List.mem_singleton_self _), fun _ => set⟩, fun _ => set⟩
  note event := record_tracks (others.note event) (fun _ => nofun) fun _ _ _ _ => nofun

end Scene

namespace Minimization

variable [Unbounded F] {settings : Settings F} {runner : Runner} {company : Company σ F n}
variable {x : Vector F n} {before after : Scene σ F n} {done : Nat} {state : State F n}

section Kernels

variable {kernels : Kernels F n}

/-- A check that finds the token set says so and asks nothing else. -/
theorem check_of_set (others : company.Leaves Token.Stays) (set : before.IsSet)
    {termination? : Option Termination} {left : State F n}
    (ran : Returns (check kernels settings company.caller.recorded done state) before
      (termination?, left) after) :
    termination? = some .cancelled ∧ left = state ∧ after.1 = before.1 ++ [.polled true] := by
  rcases check_returns ran with ⟨polls, rfl, rfl⟩ | ⟨_, _, _, polls, _⟩
  · exact ⟨rfl, rfl, (Caller.returns_record.mp polls).2⟩
  · have found := Shared.poll_of_set others.meanwhile set (Caller.returns_record.mp polls).1
    exact nomatch found

/-- A run that comes to a check with the token set ends there. -/
theorem runs_of_set (others : company.Leaves Token.Stays) (set : before.IsSet) {ended : Ended F n}
    (runs : Runs kernels settings company.caller.recorded done state before ended after) :
    ended = { state, termination := .cancelled, iterations := done } ∧
      Returns (check kernels settings company.caller.recorded done state) before
        (some .cancelled, state) after ∧
      after.1 = before.1 ++ [.polled true] := by
  rcases runs_cases runs with ⟨rfl, ends⟩ | ⟨_, _, ⟨_, _, checks, _⟩, _⟩
  · rcases ends with checks | ⟨_, checks, _⟩
    · obtain ⟨named, kept, written⟩ := check_of_set others set checks
      obtain ⟨left, termination, iterations⟩ := ended
      obtain rfl := Option.some.inj named
      obtain rfl := kept
      exact ⟨rfl, checks, written⟩
    · exact nomatch (check_of_set others set checks).1
  · exact nomatch (check_of_set others set checks).1

end Kernels

def Fired (journal : Journal F n) : Prop := ∃ question ∈ journal.questions, question.stop = true

/-- A check after the last iteration there may be finds no reason of its own to stop. -/
def Caps (settings : Settings F) (runner : Runner) (company : Company σ F n) (x : Vector F n)
    (before asked : Scene σ F n) : Prop :=
  ∃ state reached checked,
    Visits settings runner company.caller.recorded x before settings.maxIterations state reached ∧
    Returns
      (check (Kernels.shared F n settings.threads runner) settings company.caller.recorded
        settings.maxIterations state)
      reached (none, checked) asked

theorem cancelled_of_caps {asked : Scene σ F n} {answer : Vector F n × Report F}
    (ran : Returns (minimize settings runner company.caller.recorded x) before answer after)
    (caps : Caps settings runner company x before asked) : Entry.cancelled ∈ after.1 := by
  obtain ⟨state, reached, checked, visits, checks⟩ := caps
  obtain ⟨ended, stopped, runs, concludes⟩ := minimize_resumes ran visits
  obtain ⟨work, written, _⟩ := conclude_journal concludes
  have set : Entry.cancelled ∈ stopped.1 := by
    rcases runs_cases runs with ⟨same, ends⟩ | ⟨_, _, ⟨_, _, _, _, goesOn, _⟩, _⟩
    · rw [← same] at checks
      rcases ends with stops | ⟨_, _, _, cancels, _⟩
      · exact nomatch (Prod.mk.inj (returns_unique stops checks).1).1
      · rw [(Caller.returns_record.mp cancels).2]
        exact List.mem_append_right _ (List.mem_singleton_self _)
    · exact absurd goesOn (Nat.lt_irrefl _)
  rw [written]
  exact List.mem_append_left _ set

variable {world : (Token × σ) × Unit} {iterations : Nat} {termination : Termination}
variable {journal : Journal F n}

theorem cause_of_cancelled {earlier later : Journal F n}
    (finishes : Finishes settings runner company.caller x world journal iterations termination)
    (split : journal = earlier ++ .cancelled :: later) :
    (∃ begun y best, earlier = begun ++ [.asked y best iterations true]) ∨
      ∃ others, Caps settings runner company x ([], world) (earlier, others) := by
  have member : Entry.cancelled ∈ journal := by simp [split]
  cases finishes with
  | @obeyed begun rest goesOn works same =>
    have absent : Entry.cancelled ∉ begun ++ .polled true :: rest := by
      simp [goesOn.not_cancelled, works.goesOn.not_cancelled]
    exact absurd (same ▸ member) absent
  | @fired begun rest y best goesOn works same =>
    left
    have absent : Entry.cancelled ∉ begun ++ [.asked y best iterations true] := by
      simp [goesOn.not_cancelled]
    rw [split, List.append_cons begun] at same
    obtain ⟨rfl, _⟩ :=
      (List.append_cons_inj_of_notMem absent works.goesOn.not_cancelled).mp same.symm
    exact ⟨begun, y, best, rfl⟩
  | @capped state checked reached asked rest visits checks goesOn works same _ =>
    right
    rw [split] at same
    obtain ⟨rfl, _⟩ :=
      (List.append_cons_inj_of_notMem goesOn.not_cancelled works.goesOn.not_cancelled).mp
        same.symm
    exact ⟨asked.2, state, reached, checked, visits, checks⟩
  | bottom goesOn | settled goesOn => exact absurd member goesOn.not_cancelled

theorem cancelled_iff {answer : Vector F n × Report F}
    (ran : Returns (minimize settings runner company.caller.recorded x) ([], world) answer after)
    (finishes : Finishes settings runner company.caller x world after.1 iterations termination) :
    Entry.cancelled ∈ after.1 ↔
      Fired after.1 ∨ ∃ asked, Caps settings runner company x ([], world) asked := by
  constructor
  · intro member
    obtain ⟨earlier, later, split⟩ := List.append_of_mem member
    rcases cause_of_cancelled finishes split with ⟨begun, y, best, rfl⟩ | ⟨others, caps⟩
    · refine .inl ⟨⟨y, best, iterations, true⟩, Journal.mem_questions.mpr ?_, rfl⟩
      simp [split]
    · exact .inr ⟨_, caps⟩
  · rintro (fired | ⟨asked, caps⟩)
    · obtain rfl := finishes.stopped_iff.mp fired
      cases finishes with
      | fired _ _ same => simp [same]
      | settled _ success => exact nomatch success
    · exact cancelled_of_caps ran caps

theorem set_iff_cancelled (others : company.Leaves Eq) {answer : Vector F n × Report F}
    (unset : world.1.1.isCancelled = false)
    (ran : Returns (minimize settings runner company.caller.recorded x) ([], world) answer after) :
    (after.IsSet ↔ Entry.cancelled ∈ after.1) ∧ (Entry.polled true ∈ after.1 → after.IsSet) := by
  obtain ⟨written, grown, set, found⟩ : Scene.Tracks ([], world) after :=
    minimize_corresponds Scene.tracks_lasting.congruent (Scene.caller_tracks others) _ _ _ ran
  rw [List.nil_append] at grown
  have idle : ¬ Scene.IsSet (([] : Journal F n), world) := by simp [Scene.IsSet, unset]
  rw [grown]
  exact ⟨set.trans (or_iff_right idle), found⟩

/-- A check finds the token set at this state. It reports that without asking the predicate, no
further iteration begins, and nothing is evaluated any more but the iterate, if it was fitted. -/
def Obeys (settings : Settings F) (runner : Runner) (company : Company σ F n) (done : Nat)
    (state : State F n) (reached : Scene σ F n) (journal : Journal F n) (report : Report F) :
    Prop :=
  ∃ asked rest,
    Returns
      (check (Kernels.shared F n settings.threads runner) settings company.caller.recorded done
        state)
      reached (some .cancelled, state) asked ∧
    asked.1 = reached.1 ++ [.polled true] ∧ journal = asked.1 ++ rest ∧ rest.Works ∧
    ((state.real = true ∧ Journal.evaluations rest = []) ∨
      (state.real = false ∧ ∃ value gradient,
        Journal.evaluations rest = [⟨state.x, value, gradient⟩])) ∧
    report.iterations = done ∧
    (isFinite report.value = true → report.termination = .cancelled)

/-- From a check that finds the token set the run obeys, and the token stays set. -/
theorem obeys_of_set (others : company.Leaves Token.Stays) {reached : Scene σ F n}
    {answer : Vector F n × Report F}
    (ran : Returns (minimize settings runner company.caller.recorded x) before answer after)
    (visits : Visits settings runner company.caller.recorded x before done state reached)
    (set : reached.IsSet) :
    after.IsSet ∧ Obeys settings runner company done state reached after.1 answer.2 := by
  obtain ⟨ended, stopped, runs, concludes⟩ := minimize_resumes ran visits
  obtain ⟨rfl, checks, polled⟩ := runs_of_set others set runs
  obtain ⟨rest, written, works, evaluated⟩ := conclude_journal concludes
  have left : stopped.IsSet := runs_keep Scene.stays_lasting (Scene.caller_stays others) runs set
  have kept : Scene.Stays stopped after :=
    conclude_corresponds Scene.stays_lasting.congruent (Scene.caller_stays others) _ _ _ concludes
  obtain ⟨final, _, termination, _, judged, rfl⟩ := conclude_returns concludes
  refine ⟨kept left, stopped, rest, checks, polled, written, works, evaluated, rfl, ?_⟩
  intro finite
  rcases judged with ⟨_, named, _⟩ | ⟨infinite, _⟩
  · exact named
  · exact nomatch finite.symm.trans infinite

theorem set_iff_suboptimal {report : Report F}
    (finishes : Finishes settings runner company.caller x world after.1 iterations termination)
    (set : after.IsSet ↔ Entry.cancelled ∈ after.1)
    (found : Entry.polled true ∈ after.1 → after.IsSet)
    (named : report.status = termination.status) : after.IsSet ↔ report.status = .suboptimal := by
  rw [named, set]
  cases finishes with
  | @obeyed begun rest goesOn works same =>
    have absent : Entry.cancelled ∉ after.1 := by
      simp [same, goesOn.not_cancelled, works.goesOn.not_cancelled]
    exact absurd (set.mp (found (by simp [same]))) absent
  | fired _ _ same => exact iff_of_true (by simp [same]) rfl
  | capped _ _ _ _ same _ => exact iff_of_true (by simp [same]) rfl
  | bottom goesOn => exact iff_of_false goesOn.not_cancelled nofun
  | settled goesOn success =>
    refine iff_of_false goesOn.not_cancelled ?_
    rw [success]
    exact nofun

/-- Others may set the token at any time, but do not clear it. Then the minimizer does not clear it
either, and sets it itself only when the predicate has returned true or the cap on iterations is
reached. A check that begins with the token set ends the run. If nobody else sets the token, it is
set afterwards exactly in these two cases, and with a finite best value exactly if the run was
suboptimal. -/
theorem minimize_cancellation {σ F : Type} [Unbounded F] {n : Nat} (settings : Settings F)
    (runner : Runner) (company : Company σ F n) (others : company.Leaves Token.Stays)
    (x : Vector F n) (answer : Vector F n × Report F) (before after : Token × σ)
    (ran : (minimize settings runner company.caller x).run before = .ok (answer, after)) :
    ∃ journal,
      ((minimize settings runner company.caller.recorded x).run []).run before =
        .ok ((answer, journal), after) ∧
      (before.1.isCancelled = true → after.1.isCancelled = true) ∧
      (∀ done state (reached : Scene σ F n),
        Visits settings runner company.caller.recorded x ([], before, ()) done state reached →
          (before.1.isCancelled = true → reached.IsSet) ∧
          (reached.IsSet → after.1.isCancelled = true ∧
            Obeys settings runner company done state reached journal answer.2)) ∧
      (∀ earlier later, journal = earlier ++ .cancelled :: later →
        (∃ begun y best, earlier = begun ++ [.asked y best answer.2.iterations true]) ∨
          ∃ world, Caps settings runner company x ([], before, ()) (earlier, world)) ∧
      (company.Leaves Eq → before.1.isCancelled = false →
        (after.1.isCancelled = true ↔
          Fired journal ∨ ∃ asked, Caps settings runner company x ([], before, ()) asked) ∧
        (isFinite answer.2.value = true →
          (after.1.isCancelled = true ↔ answer.2.status = .suboptimal))) := by
  obtain ⟨journal, recorded⟩ := minimize_recorded_iff.mp ran
  have returned : Returns (minimize settings runner company.caller.recorded x) ([], before, ())
      answer (journal, after, ()) := recorded
  obtain ⟨termination, finishes, judged, status⟩ := minimize_finishes returned
  refine ⟨journal, recorded, ?_, ?_, ?_, ?_⟩
  · exact minimize_corresponds Scene.stays_lasting.congruent (Scene.caller_stays others) _ _ _
      returned
  · intro done state reached visits
    exact ⟨visits_keep Scene.stays_lasting (Scene.caller_stays others) visits,
      obeys_of_set others returned visits⟩
  · intro earlier later split
    exact cause_of_cancelled finishes split
  · intro alone unset
    obtain ⟨set, found⟩ := set_iff_cancelled alone unset returned
    refine ⟨set.trans (cancelled_iff returned finishes), ?_⟩
    intro finite
    rcases judged with ⟨_, named⟩ | ⟨infinite, _⟩
    · exact set_iff_suboptimal finishes set found (by rw [status, named])
    · exact nomatch finite.symm.trans infinite

/-! A ramp, once left to itself and once with an objective that sets the token. -/

def ramp (x : Vector Float 1) : Float × Vector Float 1 :=
  (x.get ⟨0, Nat.one_pos⟩, Vector.replicate 1 1)

def quiet : Company Unit Float 1 where
  evaluate x := pure (ramp x)
  shouldStop _ _ _ := pure false
  note _ := pure ()
  meanwhile := pure ()

def hasty : Company Unit Float 1 :=
  { quiet with
    evaluate := fun x => do
      Shared.cancel
      pure (ramp x) }

theorem quiet_leaves {Kept : Token → Token → Prop} (lasting : Lasting Kept) :
    quiet.Leaves Kept where
  evaluate x := Shared.leaves_pure lasting (ramp x)
  shouldStop _ _ _ := Shared.leaves_pure lasting false
  note _ := Shared.leaves_pure lasting ()
  meanwhile := Shared.leaves_pure lasting ()

theorem hasty_stays : hasty.Leaves Token.Stays :=
  { quiet_leaves Token.stays_lasting with
    evaluate := by
      intro x before answer after ran set
      obtain ⟨_, _, cancels, last⟩ := returns_bind.mp ran
      obtain ⟨_, rfl⟩ := returns_pure.mp last
      exact Shared.cancel_stays _ _ _ cancels set }

def singleStep : Settings Float := { Settings.standard with maxIterations := 1 }

theorem minimize_cancellation_ramp :
    (hasty.Leaves Token.Stays ∧ ∃ answer after journal state reached,
      (minimize singleStep .inOrder hasty.caller #v[0]).run (.fresh, ()) = .ok (answer, after) ∧
      Visits singleStep .inOrder hasty.caller.recorded #v[0] ([], (.fresh, ()), ()) 0 state
        reached ∧
      Scene.IsSet reached ∧ after.1.isCancelled = true ∧
      Obeys singleStep .inOrder hasty 0 state reached journal answer.2) ∧
    quiet.Leaves Eq ∧ ∃ answer after journal,
      ((minimize singleStep .inOrder quiet.caller.recorded #v[0]).run []).run (.fresh, ()) =
        .ok ((answer, journal), after) ∧
      after.1.isCancelled = true ∧ answer.2.status = .suboptimal ∧
      (Fired journal ∨
        ∃ asked, Caps singleStep .inOrder quiet #v[0] ([], (.fresh, ()), ()) asked) := by
  refine ⟨⟨hasty_stays, ?_⟩, quiet_leaves ⟨fun _ => rfl, Eq.trans⟩, ?_⟩
  · obtain ⟨⟨answer, after⟩, ran, _⟩ :
        Yields ((minimize singleStep .inOrder hasty.caller #v[0]).run (.fresh, ()))
          (fun _ => True) := by
      decide +kernel
    obtain ⟨journal, recorded, _, visited, _⟩ :=
      minimize_cancellation _ _ _ hasty_stays _ _ _ _ ran
    have returned : Returns (minimize singleStep .inOrder hasty.caller.recorded #v[0])
        ([], (.fresh, ()), ()) answer (journal, after, ()) := recorded
    obtain ⟨threads, started, begun, _, _, starts, _⟩ := minimize_returns returned
    have visits : Visits singleStep .inOrder hasty.caller.recorded #v[0] ([], (.fresh, ()), ()) 0
        started begun := ⟨threads, started, begun, starts, .refl _ _ _⟩
    have set : Scene.IsSet begun := by
      obtain ⟨value, gradient, answered, _⟩ := start_returns starts
      obtain ⟨_, _, cancels, last⟩ := returns_bind.mp (Caller.returns_record.mp answered).1
      obtain ⟨_, same⟩ := returns_pure.mp last
      rw [Scene.IsSet, same, Shared.returns_cancel.mp cancels]
      rfl
    obtain ⟨stays, obeys⟩ := (visited 0 started begun visits).2 set
    exact ⟨answer, after, journal, started, begun, ran, visits, set, stays, obeys⟩
  · obtain ⟨⟨answer, after⟩, ran, set, finite⟩ :
        Yields ((minimize singleStep .inOrder quiet.caller #v[0]).run (.fresh, ()))
          (fun outcome => outcome.2.1.isCancelled = true ∧
            isFinite outcome.1.2.value = true) := by
      decide +kernel
    obtain ⟨journal, recorded, _, _, _, exactly⟩ :=
      minimize_cancellation _ _ _ (quiet_leaves Token.stays_lasting) _ _ _ _ ran
    obtain ⟨cause, suboptimal⟩ := exactly (quiet_leaves ⟨fun _ => rfl, Eq.trans⟩) rfl
    exact ⟨answer, after, journal, recorded, set, (suboptimal finite).mp set, cause.mp set⟩

end Minimization

end Descent

import Descent.Proofs.Correspondence
import Descent.Proofs.Journal

/-!
Writing everything down changes nothing. A program for a recorded caller mirrors the same program
for the caller itself: it returns the same answers into the same worlds, whatever stands in the
journal. Sequencing keeps this, so a whole minimization has it; and it keeps that the journal only
grows.
-/

namespace Descent

open Execution

variable {m : Type → Type} [Monad m] [MonadExceptOf Fault m] {World : Type} [Execution m World]
variable {F : Type} {n : Nat}

/-- Both programs return the same, the first one with a journal beside. -/
def Mirrors {A : Type} (recorded : StateT (Journal F n) m A) (program : m A) : Prop :=
  ∀ journal before answer after,
    Returns program before answer after ↔
      ∃ written, Returns recorded (journal, before) answer (written, after)

section Rules

variable {A B : Type} {recorded : StateT (Journal F n) m A} {program : m A}

theorem mirrors_pure (value : A) :
    Mirrors (pure value : StateT (Journal F n) m A) (pure value : m A) := by
  intro journal before answer after
  constructor
  · intro ran
    obtain ⟨rfl, rfl⟩ := returns_pure.mp ran
    exact ⟨journal, returns_pure.mpr ⟨rfl, rfl⟩⟩
  · rintro ⟨written, ran⟩
    obtain ⟨rfl, same⟩ := returns_pure.mp ran
    exact returns_pure.mpr ⟨rfl, congrArg Prod.snd same⟩

theorem mirrors_throw (fault : Fault) :
    Mirrors (throw fault : StateT (Journal F n) m A) (throw fault : m A) := by
  intro journal before answer after
  constructor
  · intro ran
    exact absurd ran not_returns_throw
  · rintro ⟨written, ran⟩
    exact absurd ran not_returns_throw

theorem mirrors_bind {next : A → StateT (Journal F n) m B} {next' : A → m B}
    (first : Mirrors recorded program) (rest : ∀ value, Mirrors (next value) (next' value)) :
    Mirrors (recorded >>= next) (program >>= next') := by
  intro journal before answer after
  constructor
  · intro ran
    obtain ⟨value, middle, returned, continued⟩ := returns_bind.mp ran
    obtain ⟨written, again⟩ := (first journal before value middle).mp returned
    obtain ⟨written', onward⟩ := (rest value written middle answer after).mp continued
    exact ⟨written', returns_bind.mpr ⟨value, (written, middle), again, onward⟩⟩
  · rintro ⟨written', ran⟩
    obtain ⟨value, ⟨written, middle⟩, again, onward⟩ := returns_bind.mp ran
    exact returns_bind.mpr ⟨value, middle, (first journal before value middle).mpr ⟨_, again⟩,
      (rest value written middle answer after).mpr ⟨_, onward⟩⟩

theorem mirrors_congruent :
    Congruent fun A (recorded : StateT (Journal F n) m A) program => Mirrors recorded program where
  pure := mirrors_pure
  throw := mirrors_throw
  bind := mirrors_bind

theorem mirrors_record (entry : A → Entry F n) :
    Mirrors (Caller.record program entry) program := by
  intro journal before answer after
  constructor
  · intro ran
    exact ⟨_, Caller.returns_record.mpr ⟨ran, rfl⟩⟩
  · rintro ⟨written, ran⟩
    exact (Caller.returns_record.mp ran).1

theorem recorded_mirrors (caller : Caller m F n) :
    caller.recorded.Corresponds (fun _ recorded program => Mirrors recorded program) caller where
  evaluate _ := mirrors_record _
  shouldStop _ _ _ := mirrors_record _
  isCancelled := mirrors_record _
  cancel := mirrors_record _
  note _ := mirrors_record _

end Rules

/-! The journal that is written beside. -/

section Growth

def Grows {A : Type} (program : StateT (Journal F n) m A) : Prop :=
  Keeps (fun before after => before.1 <+: after.1) program

omit [Monad m] [MonadExceptOf Fault m] [Execution m World] in
theorem grows_lasting : Lasting fun before after : Journal F n × World => before.1 <+: after.1 where
  refl _ := List.prefix_rfl
  trans := List.IsPrefix.trans

theorem grows_congruent :
    Congruent fun A (program _ : StateT (Journal F n) m A) => Grows program :=
  grows_lasting.congruent

theorem record_grows {A : Type} {program : m A} {entry : A → Entry F n} :
    Grows (Caller.record program entry) := by
  intro before answer after ran
  rw [(Caller.returns_record.mp ran).2]
  exact List.prefix_append _ _

theorem recorded_grows (caller : Caller m F n) :
    caller.recorded.Corresponds (fun _ program _ => Grows program) caller.recorded where
  evaluate _ := record_grows
  shouldStop _ _ _ := record_grows
  isCancelled := record_grows
  cancel := record_grows
  note _ := record_grows

end Growth

namespace Minimization

variable [Unbounded F] {settings : Settings F}

/-- A recorded minimization is the minimization itself, with a journal beside. -/
theorem minimize_mirrors [LawfulMonad m] {caller : Caller m F n} {runner : Runner}
    {x : Vector F n} :
    Mirrors (minimize settings runner caller.recorded x) (minimize settings runner caller x) :=
  minimize_corresponds mirrors_congruent (recorded_mirrors caller)

theorem minimize_recorded_iff {σ : Type} {caller : Caller (StateT σ (Except Fault)) F n}
    {runner : Runner} {x : Vector F n} {answer : Vector F n × Report F} {before after : σ} :
    (minimize settings runner caller x).run before = .ok (answer, after) ↔
      ∃ journal, ((minimize settings runner caller.recorded x).run []).run before =
        .ok ((answer, journal), after) := by
  have mirrors : Mirrors (minimize settings runner caller.recorded x)
      (minimize settings runner caller x) := minimize_mirrors
  exact mirrors [] (before, ()) answer (after, ())

end Minimization

end Descent

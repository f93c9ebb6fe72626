import Descent.Proofs.Correspondence
import Descent.Token

/-!
A token in a world that others share. Programs of others run between the steps of a method and
within the questions it puts; what they do to the token is only known through a relation that all
of them keep. That they never clear it is one such relation, that they leave it alone is another.
-/

namespace Descent

open Execution

def Token.Stays (before after : Token) : Prop :=
  before.isCancelled = true → after.isCancelled = true

theorem Token.stays_lasting : Lasting Token.Stays where
  refl _ := id
  trans first second := second ∘ first

/-- Programs beside a token that others may set. -/
abbrev Shared (σ : Type) := StateT (Token × σ) (Except Fault)

namespace Shared

variable {σ A : Type} {before after : (Token × σ) × Unit}

/-- Look at the token. What others do before the answer counts. -/
def poll (meanwhile : Shared σ Unit) : Shared σ Bool := do
  meanwhile
  return (← get).1.isCancelled

def cancel : Shared σ Unit := modify fun world => (world.1.cancel, world.2)

def Leaves (Kept : Token → Token → Prop) (program : Shared σ A) : Prop :=
  Keeps (fun before after => Kept before.1.1 after.1.1) program

theorem leaves_pure {Kept : Token → Token → Prop} (lasting : Lasting Kept) (value : A) :
    Leaves Kept (pure value : Shared σ A) := by
  intro before answer after ran
  obtain ⟨_, rfl⟩ := returns_pure.mp ran
  exact lasting.refl _

def Between (Kept : Token × σ → Token × σ → Prop) (before after : (Token × σ) × Unit) : Prop :=
  Kept before.1 after.1

theorem between_lasting {Kept : Token × σ → Token × σ → Prop} (lasting : Lasting Kept) :
    Lasting (Between Kept) where
  refl world := lasting.refl world.1
  trans := lasting.trans

def Stays (before after : Token × σ) : Prop := Token.Stays before.1 after.1

theorem stays_lasting : Lasting (Between (Stays : Token × σ → Token × σ → Prop)) :=
  between_lasting
    { refl := fun shared => Token.stays_lasting.refl shared.1
      trans := Token.stays_lasting.trans }

theorem returns_poll {meanwhile : Shared σ Unit} {answer : Bool} :
    Returns (poll meanwhile) before answer after ↔
      Returns meanwhile before () after ∧ answer = after.1.1.isCancelled := by
  constructor
  · intro ran
    obtain ⟨_, _, others, rest⟩ := returns_bind.mp ran
    obtain ⟨_, _, reads, last⟩ := returns_bind.mp rest
    obtain ⟨rfl, rfl⟩ := returns_get.mp reads
    obtain ⟨rfl, rfl⟩ := returns_pure.mp last
    exact ⟨others, rfl⟩
  · rintro ⟨others, rfl⟩
    refine returns_bind.mpr ⟨(), after, others, returns_bind.mpr ⟨after.1, after, ?_, ?_⟩⟩
    · exact returns_get.mpr ⟨rfl, rfl⟩
    · exact returns_pure.mpr ⟨rfl, rfl⟩

theorem returns_cancel {done : Unit} :
    Returns cancel before done after ↔ after = ((before.1.1.cancel, before.1.2), before.2) :=
  returns_modify

theorem cancel_stays : Leaves Token.Stays (cancel : Shared σ Unit) := by
  intro before done after ran _
  rw [returns_cancel.mp ran]
  rfl

theorem poll_of_set {meanwhile : Shared σ Unit} {answer : Bool}
    (stays : Leaves Token.Stays meanwhile) (set : before.1.1.isCancelled = true)
    (ran : Returns (poll meanwhile) before answer after) : answer = true := by
  obtain ⟨others, rfl⟩ := returns_poll.mp ran
  exact stays _ _ _ others set

theorem poll_keeps {Holds : (Token × σ) × Unit → (Token × σ) × Unit → Prop}
    {meanwhile : Shared σ Unit} (others : Keeps Holds meanwhile) : Keeps Holds (poll meanwhile) :=
  fun _ _ _ ran => others _ _ _ (returns_poll.mp ran).1

end Shared

end Descent

import Descent.State

/-!
The part of a state that an answer is made from: the tally, and the iterate with its value and
gradient. Turning the direction, choosing a step and taking note of progress leave it alone, and
a move along a line changes the iterate only.
-/

namespace Descent

structure Position (F : Type) (n : Nat) where
  tally : Tally F n
  x : Vector F n
  gradient : Vector F n
  value : F
  real : Bool
  initialGradientNorm : F

namespace State

variable {F : Type} {n : Nat}

def position (state : State F n) : Position F n where
  tally := state.tally
  x := state.x
  gradient := state.gradient
  value := state.value
  real := state.real
  initialGradientNorm := state.initialGradientNorm

variable [Scalar F] (kernels : Kernels F n) (settings : Settings F) (state : State F n)

def pointAt (step : F) : Vector F n := kernels.update (.addScaled state.direction step) state.x

@[simp]
theorem restart_position : (state.restart kernels).position = state.position := rfl

@[simp]
theorem withoutDirection_position : state.withoutDirection.position = state.position := rfl

@[simp]
theorem noteProgress_position : (state.noteProgress settings).position = state.position := rfl

@[simp]
theorem conjugate_position (beta : F) :
    (state.conjugate kernels beta).position = state.position := rfl

/-- Choosing a step may draw from the generator and touches nothing else. -/
theorem probeStep_eq :
    ∃ jitter, (state.probeStep settings).2 = { state with jitter } := by
  unfold probeStep
  dsimp only
  split
  · split
    · exact ⟨_, rfl⟩
    · exact ⟨_, rfl⟩
  · split
    · exact ⟨state.jitter, rfl⟩
    · exact ⟨state.jitter, rfl⟩

@[simp]
theorem turn_position (beta : F) :
    (state.turn kernels settings beta).state.position = state.position := by
  unfold turn
  dsimp only
  split
  · rw [restart_position]
    split <;> rfl
  · split
    · exact conjugate_position kernels _ beta
    · rw [restart_position, conjugate_position]

theorem advance_position (line : Record F n) (target : Move F n) :
    (state.advance kernels settings line target).state.position =
      { state.position with
        x := state.pointAt kernels target.step
        gradient := target.gradient
        value := target.value
        real := target.real } :=
  turn_position kernels settings _ _

end State

end Descent

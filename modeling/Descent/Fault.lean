/-!
What a request can be refused for. A precondition is a rule of the published interface and has a
text of its own; the other faults are indices, lengths and sizes that a caller should not have
sent, and they carry no text.
-/

namespace Descent

inductive Precondition where
  | threads
  | firstStep
  | runLength
  | expandFactor
  | iterations
  | gradientTolerance
  | sufficientDecrease
  | slopeShrink
  | stepGrowth
  | fitInterior
  | probes
  | innerIterations
  | outerIterations
  | offsetRate
  | violationTolerance
  | stepCount
  | stepSign
  | variableIndex
  | stepTolerance
  | residualTolerance
  | trials
  | differenceStep
  | square
  | scaleLength
  | permutationLength
  | rightHandSide
  deriving DecidableEq

def Precondition.text : Precondition → String
  | threads => "num_threads must be > 0"
  | firstStep => "first_step must be > 0"
  | runLength => "no_reset_run_len must be > 0"
  | expandFactor => "reset_expand_factor must be >= 1"
  | iterations => "max_iterations must be > 0"
  | gradientTolerance => "gradient_tolerance must be >= 0"
  | sufficientDecrease => "sufficient_decrease must be in (0, slope_shrink)"
  | slopeShrink => "slope_shrink must be < 1"
  | stepGrowth => "max_step_growth must be > 1"
  | fitInterior => "fit_interior must be in (0, 1]"
  | probes => "max_probes must be > 0"
  | innerIterations => "inner_iterations must be > 0"
  | outerIterations => "outer_iterations must be > 0"
  | offsetRate => "offset_rate must be > 0"
  | violationTolerance => "violation_tolerance must be >= 0"
  | stepCount => "step_sizes must have one entry per variable"
  | stepSign => "step_sizes must be > 0"
  | variableIndex => "variable index out of range"
  | stepTolerance => "tol_x must be >= 0"
  | residualTolerance => "tol_f must be >= 0"
  | trials => "max_trials must be > 0"
  | differenceStep => "step must be > 0"
  | square => "matrix must be square"
  | scaleLength => "scale vector has wrong length"
  | permutationLength => "permutation vector has wrong length"
  | rightHandSide => "right-hand side has wrong length"

inductive Fault where
  | precondition (rule : Precondition)
  | lengthMismatch
  | outOfBounds
  /-- A line search was started along a direction that does not descend. -/
  | uphill
  | capacity
  deriving DecidableEq

def Fault.text? : Fault → Option String
  | precondition rule => some rule.text
  | _ => none

def Precondition.guard (rule : Precondition) (kept : Prop) [Decidable kept] : Except Fault Unit :=
  if kept then .ok () else .error (.precondition rule)

def addressable : Nat := Nat.pow 2 63 - 1

/-- Room for `count` entries of `bytes` bytes each. A count beyond the machine word has none. -/
def reserve (count bytes : Nat) : Except Fault Unit :=
  if count < Nat.pow 2 64 ∧ count * bytes ≤ addressable then .ok () else .error .capacity

end Descent

import Descent.Newton
import Descent.Penalty
import Descent.Scalar.Binary
import Descent.Proofs.Accounting
import Descent.Proofs.Approach
import Descent.Proofs.Bracketing
import Descent.Proofs.Budget
import Descent.Proofs.Cancellation
import Descent.Proofs.Conjugacy
import Descent.Proofs.Consultation
import Descent.Proofs.Continuation
import Descent.Proofs.Convergence
import Descent.Proofs.Convexity
import Descent.Proofs.Correspondence
import Descent.Proofs.Coupling
import Descent.Proofs.Cubic
import Descent.Proofs.Differences
import Descent.Proofs.Factors
import Descent.Proofs.Feasibility
import Descent.Proofs.FiniteTermination
import Descent.Proofs.Heading
import Descent.Proofs.Interruption
import Descent.Proofs.Ledger
import Descent.Proofs.Multiplier
import Descent.Proofs.Numbers
import Descent.Proofs.Offset
import Descent.Proofs.Pieces
import Descent.Proofs.Presentation
import Descent.Proofs.Protocol
import Descent.Proofs.Quadratic
import Descent.Proofs.Roots
import Descent.Proofs.Search
import Descent.Proofs.Sharing
import Descent.Proofs.Substitution
import Descent.Proofs.Threads
import Descent.Proofs.Extremum
import Descent.Proofs.Stages
import Descent.Proofs.Downhill
import Descent.Proofs.Leap
import Descent.Proofs.Outward
import Descent.Proofs.Turning
import Descent.Proofs.Remarks
import Descent.Proofs.Schedule
import Descent.Proofs.Genuine
import Descent.Proofs.Stagnation
import Descent.Proofs.Tangent
import Descent.Proofs.Refusal
import Descent.Proofs.Pivoting
import Descent.Proofs.Seeds
import Descent.Proofs.Paraboloid
import Descent.Proofs.Spans
import Descent.Proofs.Interchanges
import Descent.Proofs.Stencil
import Descent.Proofs.Lending
import Descent.Proofs.Standings
import Descent.Proofs.Lengths
import Descent.Proofs.Overflow

import Mathlib.LinearAlgebra.Matrix.NonsingularInverse
import Descent.Newton
import Descent.Proofs.Budget
import Descent.Proofs.Quadratic
import Descent.Proofs.Substitution

/-!
The trials of a root finder over exact numbers. Beside the loop stands the sequence of trials that
the linear systems ask for, written with inverse matrices: every trial is made at the point that
the one before it moved to. As long as Jacobians are nonsingular and nothing is small enough, the
loop goes through this sequence and evaluates the system once at each of its points. It stops at
the first trial that is good enough, at the first row of zeros that it has to eliminate, or when
the trials are used up.
-/

namespace Descent

open Scalar Matrix

/-! A row of zeros. -/

section ZeroRow

theorem foldlM_error {B E : Type} {n : ℕ} (step : B → Fin n → Except E B) {i : Fin n}
    (fails : ∀ state, ∃ e, step state i = .error e) (start : B) :
    ∃ e, Fin.foldlM n step start = .error e := by
  induction n generalizing start with
  | zero => exact i.elim0
  | succ n ih =>
    rw [Fin.foldlM_succ]
    change ∃ e, (step start 0 >>= Fin.foldlM n fun state i => step state i.succ) = .error e
    cases first : step start 0 with
    | error e => exact ⟨e, rfl⟩
    | ok next =>
      cases i using Fin.cases with
      | zero =>
        obtain ⟨e, failed⟩ := fails start
        rw [failed] at first
        exact nomatch first
      | succ i => exact ih (fun state i => step state i.succ) fails next

variable {F : Type} [Field F] [LinearOrder F] [IsStrictOrderedRing F] [Exact F] {n : ℕ}

theorem Elimination.weight?_zeros {row : Vector F n} (zeros : ∀ j, row.get j = 0) :
    weight? row = none := by
  have none (entries : List F) (zeros : ∀ x ∈ entries, x = 0) :
      entries.foldl (fun largest x => maxNum largest (Scalar.abs x)) 0 = 0 := by
    induction entries with
    | nil => rfl
    | cons entry rest ih =>
      obtain ⟨head, tail⟩ := List.forall_mem_cons.mp zeros
      rw [List.foldl_cons, head, Exact.maxNum_eq, Exact.abs_eq, abs_zero, max_self]
      exact ih tail
  have listed : ∀ x ∈ row.toList, x = 0 := by
    intro x member
    obtain ⟨j, inside, rfl⟩ := Vector.getElem_of_mem (Vector.mem_toList_iff.mp member)
    exact zeros ⟨j, inside⟩
  rw [weight?, ← Vector.foldl_toList, none row.toList listed, if_pos]
  exact Exact.isZero_iff.mpr rfl

theorem Factorization.ofMatrix_zeroRow {matrix : Grid F n n} {i : Fin n}
    (zeros : ∀ j, matrix.entry i j = 0) : ofMatrix matrix = .error .singular := by
  obtain ⟨left, failed⟩ : ∃ left, Elimination.weights matrix (Kernel.zeros n) = .error left := by
    refine foldlM_error _ (i := i) (fun scale => ?_) _
    rw [Elimination.weight?_zeros zeros]
    exact ⟨scale, rfl⟩
  rw [ofMatrix, failed]

end ZeroRow

/-! Trials. -/

structure Trial (F : Type) (n : ℕ) where
  point : Vector F n
  jacobian : Grid F n n
  residuals : Vector F n

section Trials

variable {F : Type} [Field F] {n : ℕ}

namespace Trial

variable [LinearOrder F]

def residualNorm (trial : Trial F n) : F := ∑ i, |trial.residuals.get i|

noncomputable def moved (trial : Trial F n) : Vector F n :=
  Vector.ofFn fun i =>
    trial.point.get i - (trial.jacobian.toMatrix⁻¹ *ᵥ trial.residuals.get) i

noncomputable def stepNorm (trial : Trial F n) : F :=
  ∑ i, |trial.moved.get i - trial.point.get i|

end Trial

-- The system may answer differently each time, so a trial is made at a point and in a state.
variable {S : Type} (system : Vector F n → StateM S (Grid F n n × Vector F n))

def attempt (place : Vector F n × S) : Trial F n × S :=
  let ((jacobian, residuals), after) := (system place.1).run place.2
  (⟨place.1, jacobian, residuals⟩, after)

/-- The point of each trial, counted from zero, and the state that the system is in before it. -/
noncomputable def approach (start : Vector F n × S) : ℕ → Vector F n × S
  | 0 => start
  | k + 1 =>
    let (trial, after) := attempt system (approach start k)
    (trial.moved, after)

noncomputable def trialAt (start : Vector F n × S) (k : ℕ) : Trial F n :=
  (attempt system (approach system start k)).1

noncomputable def firstPoints (start : Vector F n × S) (count : ℕ) : List (Vector F n) :=
  (List.range count).map fun k => (approach system start k).1

def listing (point : Vector F n) : StateM (List (Vector F n) × S) (Grid F n n × Vector F n) :=
  fun (points, state) =>
    let (answer, after) := (system point).run state
    (answer, points ++ [point], after)

def noting (note : Event F → StateM S Unit) (event : Event F) :
    StateM (List (Vector F n) × S) Unit :=
  fun (points, state) =>
    let ((), after) := (note event).run state
    ((), points, after)

variable (start : Vector F n × S)

theorem firstPoints_succ (k : ℕ) :
    firstPoints system start (k + 1) =
      firstPoints system start k ++ [(approach system start k).1] := by
  rw [firstPoints, List.range_succ, List.map_append]
  rfl

theorem approach_listing (k : ℕ) :
    approach (listing system) (start.1, [], start.2) k =
      ((approach system start k).1, firstPoints system start k, (approach system start k).2) := by
  induction k with
  | zero => rfl
  | succ k ih =>
    rw [approach, ih, firstPoints_succ]
    rfl

theorem trialAt_listing :
    trialAt (listing system) (start.1, [], start.2) = trialAt system start := by
  funext k
  rw [trialAt, approach_listing]
  rfl

end Trials

/-! The loop. -/

section Solution

variable {F : Type} [Field F] [LinearOrder F] [Exact F] {n : ℕ}

theorem Kernel.absSum_eq (v : Vector F n) : Kernel.absSum v = ∑ i, |v.get i| := by
  rw [Kernel.absSum, Kernel.sum_eq]
  apply Finset.sum_congr rfl
  intro i _
  exact Vector.getElem_map _ i.2

variable [IsStrictOrderedRing F]

theorem Factorization.solve_eq_inverse {matrix : Grid F n n}
    (nonsingular : matrix.toMatrix.det ≠ 0) :
    ∃ lu, ofMatrix matrix = .ok lu ∧
      ∀ b : Vector F n, (lu.solve b).get = matrix.toMatrix⁻¹ *ᵥ b.get := by
  obtain ⟨lu, factored, -⟩ := ofMatrix_factored nonsingular
  refine ⟨lu, factored, fun b => ?_⟩
  rw [← mulVec_solve nonsingular factored b, Matrix.mulVec_mulVec,
    Matrix.nonsing_inv_mul _ (isUnit_iff_ne_zero.mpr nonsingular), Matrix.one_mulVec]

/-- The loop's step is the one that the trial takes. -/
theorem Trial.moved_eq (trial : Trial F n) (nonsingular : trial.jacobian.toMatrix.det ≠ 0) :
    ∃ lu, Factorization.ofMatrix trial.jacobian = .ok lu ∧
      trial.point.zipWith (· - ·) (lu.solve trial.residuals) = trial.moved ∧
      Kernel.absSum (lu.solve trial.residuals) = trial.stepNorm := by
  obtain ⟨lu, factored, solves⟩ := Factorization.solve_eq_inverse nonsingular
  refine ⟨lu, factored, ?_, ?_⟩
  · apply Vector.ext
    intro i inside
    rw [Vector.getElem_zipWith, moved, Vector.getElem_ofFn, ← solves]
    rfl
  · rw [Kernel.absSum_eq, stepNorm]
    apply Finset.sum_congr rfl
    intro i _
    have moved : trial.moved.get i =
        trial.point.get i - (trial.jacobian.toMatrix⁻¹ *ᵥ trial.residuals.get) i :=
      Vector.getElem_ofFn i.2
    rw [moved, sub_sub_cancel_left, abs_neg, solves]

end Solution

namespace RootFinder

section Exits

variable {F : Type} [Field F] [LinearOrder F] {n : ℕ} (finder : RootFinder F)

/-- A trial is good enough. -/
def Stops (trial : Trial F n) : Prop :=
  trial.residualNorm ≤ finder.residualTolerance ∨ trial.stepNorm ≤ finder.stepTolerance

def Passes (trials : ℕ → Trial F n) (count : ℕ) : Prop :=
  ∀ j < count, ¬ finder.Stops (trials j)

/-- The Jacobians of the trials that are made are nonsingular. -/
def Regular (trials : ℕ → Trial F n) : Prop :=
  ∀ k < finder.maxTrials, finder.Passes trials k → (trials k).jacobian.toMatrix.det ≠ 0

/-- What trial `k` answers if it is good enough. -/
noncomputable def answer (k : ℕ) (trial : Trial F n) :
    Vector F n × Except Failure (RootReport F) :=
  if trial.residualNorm ≤ finder.residualTolerance then
    (trial.point, .ok { trials := k + 1, residualNorm := trial.residualNorm, stepNorm := 0 })
  else
    (trial.moved,
      .ok { trials := k + 1, residualNorm := trial.residualNorm, stepNorm := trial.stepNorm })

/-- What is found, and the points that the system was evaluated at. -/
def visits [Exact F] {S : Type} (system : Vector F n → StateM S (Grid F n n × Vector F n))
    (note : Event F → StateM S Unit) (start : Vector F n × S) :
    (Vector F n × Except Failure (RootReport F)) × List (Vector F n) :=
  let (found, points, _) :=
    (finder.solve (listing system) (noting note) start.1).run ([], start.2)
  (found, points)

variable [Exact F]

inductive Accepted : RootFinder F → Prop where
  | standard : Accepted standard
  | stepTolerance {finder next : RootFinder F} (tolerance : F) :
      Accepted finder → finder.withStepTolerance tolerance = .ok next → Accepted next
  | residualTolerance {finder next : RootFinder F} (tolerance : F) :
      Accepted finder → finder.withResidualTolerance tolerance = .ok next → Accepted next
  | maxTrials {finder next : RootFinder F} (limit : Nat) :
      Accepted finder → finder.withMaxTrials limit = .ok next → Accepted next

variable {finder} in
theorem Accepted.residualTolerance_nonneg [IsStrictOrderedRing F] (accepted : finder.Accepted) :
    0 ≤ finder.residualTolerance := by
  induction accepted with
  | standard =>
    change (0 : F) ≤ 1e-4
    norm_num
  | stepTolerance _ _ set ih | maxTrials _ _ set ih =>
    obtain ⟨_, same⟩ := guard_bind set
    obtain rfl := Except.ok.inj same
    exact ih
  | residualTolerance tolerance _ set =>
    obtain ⟨nonneg, same⟩ := guard_bind set
    obtain rfl := Except.ok.inj same
    exact nonneg

end Exits

section Loop

variable {F : Type} [Field F] [LinearOrder F] [IsStrictOrderedRing F] [Exact F] {n : ℕ}
  {finder : RootFinder F} {S : Type} {system : Vector F n → StateM S (Grid F n n × Vector F n)}
  {note : Event F → StateM S Unit} {k : ℕ}

omit [IsStrictOrderedRing F] in
theorem trialsFrom_attempt (room : k < finder.maxTrials) {place : Vector F n × S}
    {trial : Trial F n} {after : S} (made : attempt system place = (trial, after)) :
    (finder.trialsFrom system note k place.1).run place.2 =
      (if trial.residualNorm ≤ finder.residualTolerance then
        pure (trial.point, .ok ⟨k + 1, trial.residualNorm, 0⟩)
      else
        match Factorization.ofMatrix trial.jacobian with
        | .error failure => do
            note (.singularTrial (k + 1))
            pure (trial.point, .error failure)
        | .ok lu =>
            let step := lu.solve trial.residuals
            let moved := trial.point.zipWith (· - ·) step
            if Kernel.absSum step ≤ finder.stepTolerance then
              pure (moved, .ok ⟨k + 1, trial.residualNorm, Kernel.absSum step⟩)
            else finder.trialsFrom system note (k + 1) moved : StateM S _).run after := by
  obtain ⟨rfl, rfl⟩ := Prod.mk.inj made
  rw [trialsFrom, if_pos room, Trial.residualNorm, ← Kernel.absSum_eq]
  rfl

theorem trialsFrom_nonsingular (room : k < finder.maxTrials) {place : Vector F n × S}
    {trial : Trial F n} {after : S} (made : attempt system place = (trial, after))
    (nonsingular : trial.jacobian.toMatrix.det ≠ 0) :
    (finder.trialsFrom system note k place.1).run place.2 =
      if trial.residualNorm ≤ finder.residualTolerance then
        ((trial.point, .ok ⟨k + 1, trial.residualNorm, 0⟩), after)
      else if trial.stepNorm ≤ finder.stepTolerance then
        ((trial.moved, .ok ⟨k + 1, trial.residualNorm, trial.stepNorm⟩), after)
      else (finder.trialsFrom system note (k + 1) trial.moved).run after := by
  obtain ⟨lu, factored, moved, step⟩ := trial.moved_eq nonsingular
  rw [trialsFrom_attempt room made]
  simp only [factored, moved, step]
  split_ifs <;> rfl

theorem trialsFrom_zeroRow (room : k < finder.maxTrials) {place : Vector F n × S}
    {trial : Trial F n} {after : S} (made : attempt system place = (trial, after))
    (residual : ¬ trial.residualNorm ≤ finder.residualTolerance) {i : Fin n}
    (zeros : ∀ j, trial.jacobian.entry i j = 0) :
    (finder.trialsFrom system note k place.1).run place.2 =
      ((trial.point, .error .singular), ((note (.singularTrial (k + 1))).run after).2) := by
  rw [trialsFrom_attempt room made, if_neg residual, Factorization.ofMatrix_zeroRow zeros]
  rfl

omit [LinearOrder F] [IsStrictOrderedRing F] [Exact F] in
theorem attempt_approach (start : Vector F n × S) (k : ℕ) :
    attempt system (approach system start k) =
      (trialAt system start k, (approach system start (k + 1)).2) :=
  rfl

/-- As long as trials are not good enough, the loop goes through them. -/
theorem solve_passes {start : Vector F n × S} (inside : k ≤ finder.maxTrials)
    (passes : finder.Passes (trialAt system start) k)
    (regular : ∀ j < k, (trialAt system start j).jacobian.toMatrix.det ≠ 0) :
    (finder.solve system note start.1).run start.2 =
      (finder.trialsFrom system note k (approach system start k).1).run
        (approach system start k).2 := by
  -- The last of the trials made is taken off: the loop got to it by induction, and passes it.
  induction k with
  | zero => rfl
  | succ k ih =>
    have last : k < k + 1 := Nat.lt_succ_self k
    obtain ⟨residual, step⟩ := not_or.mp (passes k last)
    rw [ih (Nat.le_of_succ_le inside) (fun j below => passes j (below.trans last))
        (fun j below => regular j (below.trans last)),
      trialsFrom_nonsingular inside (attempt_approach start k) (regular k last), if_neg residual,
      if_neg step]
    rfl

section Ends

variable {start : Vector F n × S} (note) (passes : finder.Passes (trialAt system start) k)
include passes

theorem solve_stops (regular : ∀ j < k + 1, (trialAt system start j).jacobian.toMatrix.det ≠ 0)
    (room : k < finder.maxTrials) (stops : finder.Stops (trialAt system start k)) :
    (finder.solve system note start.1).run start.2 =
      (finder.answer k (trialAt system start k), (approach system start (k + 1)).2) := by
  have last : k < k + 1 := Nat.lt_succ_self k
  rw [solve_passes room.le passes (fun j below => regular j (below.trans last)),
    trialsFrom_nonsingular room (attempt_approach start k) (regular k last), answer]
  by_cases residual : (trialAt system start k).residualNorm ≤ finder.residualTolerance
  · rw [if_pos residual, if_pos residual]
  · rw [if_neg residual, if_neg residual, if_pos (stops.resolve_left residual)]

theorem solve_zeroRow (regular : ∀ j < k, (trialAt system start j).jacobian.toMatrix.det ≠ 0)
    (room : k < finder.maxTrials)
    (residual : ¬ (trialAt system start k).residualNorm ≤ finder.residualTolerance) {i : Fin n}
    (zeros : ∀ j, (trialAt system start k).jacobian.entry i j = 0) :
    (finder.solve system note start.1).run start.2 =
      (((trialAt system start k).point, .error .singular),
        ((note (.singularTrial (k + 1))).run (approach system start (k + 1)).2).2) := by
  rw [solve_passes room.le passes regular,
    trialsFrom_zeroRow room (attempt_approach start k) residual zeros]

theorem solve_spent (regular : ∀ j < k, (trialAt system start j).jacobian.toMatrix.det ≠ 0)
    (spent : k = finder.maxTrials) :
    (finder.solve system note start.1).run start.2 =
      (((trialAt system start k).point, .error (.tooManyTrials k)),
        (approach system start k).2) := by
  subst spent
  rw [solve_passes le_rfl passes regular, trialsFrom, if_neg (lt_irrefl _)]
  rfl

end Ends

/-! What is found, and where the system was evaluated. -/

section Visits

variable {start : Vector F n × S}

variable (passes : finder.Passes (trialAt system start) k)
include passes

theorem visits_stops (regular : ∀ j < k + 1, (trialAt system start j).jacobian.toMatrix.det ≠ 0)
    (room : k < finder.maxTrials) (stops : finder.Stops (trialAt system start k)) :
    finder.visits system note start =
      (finder.answer k (trialAt system start k), firstPoints system start (k + 1)) := by
  rw [← trialAt_listing] at passes regular stops
  have ran := solve_stops (noting note) passes regular room stops
  rw [visits, ran, trialAt_listing, approach_listing]

theorem visits_zeroRow (regular : ∀ j < k, (trialAt system start j).jacobian.toMatrix.det ≠ 0)
    (room : k < finder.maxTrials)
    (residual : ¬ (trialAt system start k).residualNorm ≤ finder.residualTolerance) {i : Fin n}
    (zeros : ∀ j, (trialAt system start k).jacobian.entry i j = 0) :
    finder.visits system note start =
      (((trialAt system start k).point, .error .singular), firstPoints system start (k + 1)) := by
  rw [← trialAt_listing] at passes regular residual
  rw [← trialAt_listing] at zeros
  have ran := solve_zeroRow (noting note) passes regular room residual zeros
  rw [visits, ran, trialAt_listing, approach_listing]
  rfl

theorem visits_spent (regular : ∀ j < k, (trialAt system start j).jacobian.toMatrix.det ≠ 0)
    (spent : k = finder.maxTrials) :
    finder.visits system note start =
      (((trialAt system start k).point, .error (.tooManyTrials k)),
        firstPoints system start k) := by
  rw [← trialAt_listing] at passes regular
  have ran := solve_spent (noting note) passes regular spent
  rw [visits, ran, trialAt_listing, approach_listing]

end Visits

end Loop

/-! Every run. -/

section Affine

variable {F : Type} [Field F] {n : ℕ} {S : Type}
  {system : Vector F n → StateM S (Grid F n n × Vector F n)} {matrix : Grid F n n}
  {b : Vector F n}

/-- The system answers the residuals of a linear one. -/
def Affine (system : Vector F n → StateM S (Grid F n n × Vector F n)) (matrix : Grid F n n)
    (b : Vector F n) : Prop :=
  ∀ point state, ((system point).run state).1 =
    (matrix, .ofFn fun i => (matrix.toMatrix *ᵥ point.get) i - b.get i)

variable (affine : Affine system matrix b)
include affine

theorem Affine.jacobian (start : Vector F n × S) (k : ℕ) :
    (trialAt system start k).jacobian = matrix :=
  congrArg Prod.fst (affine _ _)

theorem Affine.residuals (start : Vector F n × S) (k : ℕ) :
    (trialAt system start k).residuals.get =
      matrix.toMatrix *ᵥ (trialAt system start k).point.get - b.get := by
  funext i
  exact (congrArg (fun answer => (Prod.snd answer).get i) (affine _ _)).trans
    (Vector.getElem_ofFn i.2)

theorem Affine.moved (nonsingular : matrix.toMatrix.det ≠ 0) (start : Vector F n × S) (k : ℕ) :
    matrix.toMatrix *ᵥ (trialAt system start k).moved.get = b.get := by
  have moved : (trialAt system start k).moved.get =
      (trialAt system start k).point.get -
        matrix.toMatrix⁻¹ *ᵥ (trialAt system start k).residuals.get := by
    funext i
    rw [← affine.jacobian start k]
    exact Vector.getElem_ofFn i.2
  rw [moved, Matrix.mulVec_sub, Matrix.mulVec_mulVec,
    Matrix.mul_nonsing_inv _ (isUnit_iff_ne_zero.mpr nonsingular), Matrix.one_mulVec,
    affine.residuals, sub_sub_cancel]

end Affine

section Every

variable {F : Type} [Field F] [LinearOrder F] {n : ℕ} {finder : RootFinder F}
  {trials : ℕ → Trial F n}

variable (finder) in
theorem stops_or_passes (trials : ℕ → Trial F n) (limit : ℕ) :
    (∃ k < limit, finder.Passes trials k ∧ finder.Stops (trials k)) ∨
      finder.Passes trials limit := by
  induction limit with
  | zero => exact .inr fun j below => nomatch below
  | succ limit ih =>
    obtain ⟨k, below, found⟩ | passes := ih
    · exact .inl ⟨k, below.trans (Nat.lt_succ_self limit), found⟩
    · by_cases stops : finder.Stops (trials limit)
      · exact .inl ⟨limit, Nat.lt_succ_self limit, passes, stops⟩
      · refine .inr fun j below => ?_
        obtain earlier | rfl := Nat.lt_succ_iff_lt_or_eq.mp below
        · exact passes j earlier
        · exact stops

theorem Regular.below (regular : finder.Regular trials) {k : ℕ} (inside : k ≤ finder.maxTrials)
    (passes : finder.Passes trials (k - 1)) : ∀ j < k, (trials j).jacobian.toMatrix.det ≠ 0 :=
  fun j below => regular j (by omega) fun i earlier => passes i (by omega)

variable (finder) in
theorem answer_ok (k : ℕ) (trial : Trial F n) :
    ∃ report, (finder.answer k trial).2 = .ok report ∧ report.trials = k + 1 := by
  rw [answer]
  split_ifs <;> exact ⟨_, rfl, rfl⟩

variable [IsStrictOrderedRing F] [Exact F] {S : Type}

section Regular

variable {system : Vector F n → StateM S (Grid F n n × Vector F n)} {note : Event F → StateM S Unit}
  {start : Vector F n × S} (regular : finder.Regular (trialAt system start))
include regular

theorem Regular.visits_stops {k : ℕ} (room : k < finder.maxTrials)
    (passes : finder.Passes (trialAt system start) k)
    (stops : finder.Stops (trialAt system start k)) :
    finder.visits system note start =
      (finder.answer k (trialAt system start k), firstPoints system start (k + 1)) :=
  RootFinder.visits_stops passes (regular.below room passes) room stops

theorem Regular.visits_spent (passes : finder.Passes (trialAt system start) finder.maxTrials) :
    finder.visits system note start =
      (((trialAt system start finder.maxTrials).point, .error (.tooManyTrials finder.maxTrials)),
        firstPoints system start finder.maxTrials) :=
  RootFinder.visits_spent passes
    (regular.below le_rfl fun j below => passes j (Nat.lt_of_lt_pred below)) rfl

theorem Regular.tooManyTrials_iff :
    (finder.visits system note start).1.2 = .error (.tooManyTrials finder.maxTrials) ↔
      finder.Passes (trialAt system start) finder.maxTrials := by
  constructor
  · intro spent
    obtain ⟨k, room, passes, stops⟩ | passes :=
      stops_or_passes finder (trialAt system start) finder.maxTrials
    · obtain ⟨report, found, -⟩ := answer_ok finder k (trialAt system start k)
      rw [regular.visits_stops room passes stops, found] at spent
      exact nomatch spent
    · exact passes
  · intro passes
    rw [regular.visits_spent passes]

theorem Regular.visited :
    ∃ count ≤ finder.maxTrials,
      (finder.visits system note start).2 = firstPoints system start count := by
  obtain ⟨k, room, passes, stops⟩ | passes :=
    stops_or_passes finder (trialAt system start) finder.maxTrials
  · rw [regular.visits_stops room passes stops]
    exact ⟨k + 1, room, rfl⟩
  · rw [regular.visits_spent passes]
    exact ⟨finder.maxTrials, le_rfl, rfl⟩

end Regular

theorem Affine.visits {system : Vector F n → StateM S (Grid F n n × Vector F n)}
    {matrix : Grid F n n} {b : Vector F n} (affine : Affine system matrix b)
    (nonsingular : matrix.toMatrix.det ≠ 0) (tolerant : 0 ≤ finder.residualTolerance)
    (room : 2 ≤ finder.maxTrials) (note : Event F → StateM S Unit) (start : Vector F n × S) :
    ∃ k < 2, finder.visits system note start =
        (finder.answer k (trialAt system start k), firstPoints system start (k + 1)) ∧
      (finder.residualTolerance < (trialAt system start 0).residualNorm →
        matrix.toMatrix *ᵥ (finder.answer k (trialAt system start k)).1.get = b.get) := by
  have regular : finder.Regular (trialAt system start) := by
    intro k _ _
    rw [affine.jacobian start k]
    exact nonsingular
  have first : finder.Passes (trialAt system start) 0 := fun j below => nomatch below
  by_cases stops : finder.Stops (trialAt system start 0)
  · refine ⟨0, two_pos, regular.visits_stops (by omega) first stops, fun residual => ?_⟩
    rw [answer, if_neg residual.not_ge]
    exact affine.moved nonsingular start 0
  · have passes : finder.Passes (trialAt system start) 1 := by
      intro j below
      rwa [Nat.lt_one_iff.mp below]
    -- The second trial is made at the solution, where there are no residuals.
    have solved : matrix.toMatrix *ᵥ (trialAt system start 1).point.get = b.get :=
      affine.moved nonsingular start 0
    have residual : (trialAt system start 1).residualNorm ≤ finder.residualTolerance := by
      rw [Trial.residualNorm, affine.residuals, solved, sub_self]
      simpa using tolerant
    refine ⟨1, one_lt_two, regular.visits_stops room passes (.inl residual), fun _ => ?_⟩
    rw [answer, if_pos residual]
    exact solved

/-- Nonsingular Jacobians lead the trials along the sequence, to the first one that is good enough
or through all of them. A row of zeros ends it at its point. An affine system takes at most two
trials. -/
theorem solve_trials (finder : RootFinder F) (accepted : finder.Accepted)
    (system : Vector F n → StateM S (Grid F n n × Vector F n)) (note : Event F → StateM S Unit)
    (start : Vector F n × S) :
    let trials := trialAt system start
    let run := finder.visits system note start
    (finder.Regular trials →
      (∃ count ≤ finder.maxTrials, run.2 = firstPoints system start count) ∧
      (∀ k < finder.maxTrials, finder.Passes trials k → finder.Stops (trials k) →
        run = (finder.answer k (trials k), firstPoints system start (k + 1))) ∧
      (run.1.2 = .error (.tooManyTrials finder.maxTrials) ↔
        finder.Passes trials finder.maxTrials) ∧
      (finder.Passes trials finder.maxTrials →
        run = (((trials finder.maxTrials).point, .error (.tooManyTrials finder.maxTrials)),
          firstPoints system start finder.maxTrials))) ∧
    (∀ k < finder.maxTrials, finder.Passes trials k →
      (∀ j < k, (trials j).jacobian.toMatrix.det ≠ 0) →
      finder.residualTolerance < (trials k).residualNorm →
      (∃ i, ∀ j, (trials k).jacobian.entry i j = 0) →
      run = (((trials k).point, .error .singular), firstPoints system start (k + 1))) ∧
    ∀ (matrix : Grid F n n) (b : Vector F n), matrix.toMatrix.det ≠ 0 → Affine system matrix b →
      2 ≤ finder.maxTrials →
      ∃ report, run.1.2 = .ok report ∧ report.trials ≤ 2 ∧ run.2.length ≤ 2 ∧
        (finder.residualTolerance < (trials 0).residualNorm →
          matrix.toMatrix *ᵥ run.1.1.get = b.get) := by
  intro trials run
  refine ⟨fun regular => ?_, ?_, ?_⟩
  · exact ⟨regular.visited, fun k room passes stops => regular.visits_stops room passes stops,
      regular.tooManyTrials_iff, regular.visits_spent⟩
  · rintro k room passes regular residual ⟨i, zeros⟩
    exact visits_zeroRow passes regular room residual.not_ge zeros
  · intro matrix b nonsingular affine room
    obtain ⟨k, below, ran, solved⟩ :=
      affine.visits nonsingular accepted.residualTolerance_nonneg room note start
    obtain ⟨report, found, number⟩ := answer_ok finder k (trials k)
    have visited : run = (finder.answer k (trials k), firstPoints system start (k + 1)) := ran
    have length : run.2.length = k + 1 := by
      rw [visited, firstPoints, List.length_map, List.length_range]
    refine ⟨report, ?_, by omega, by omega, ?_⟩
    · rw [visited, found]
    · rw [visited]
      exact solved

end Every

/-- Two equations, solved by one and two. The second one has the larger pivot. -/
def lines (x : Vector ℚ 2) : StateM Unit (Grid ℚ 2 2 × Vector ℚ 2) :=
  let u := x.get ⟨0, Nat.zero_lt_two⟩
  let v := x.get ⟨1, Nat.one_lt_two⟩
  pure (#v[#v[1, 2], #v[3, 1]], #v[u + 2 * v - 5, 3 * u + v - 5])

def square (raise : ℚ) (x : Vector ℚ 1) : StateM Unit (Grid ℚ 1 1 × Vector ℚ 1) :=
  pure (x.map fun u => #v[2 * u], x.map fun u => u * u + raise)

theorem lines_affine : Affine lines #v[#v[1, 2], #v[3, 1]] #v[5, 5] := by
  intro point state
  have residuals : #v[point.get 0 + 2 * point.get 1 - 5, 3 * point.get 0 + point.get 1 - 5] =
      Vector.ofFn fun i =>
        (Grid.toMatrix #v[#v[1, 2], #v[3, 1]] *ᵥ point.get) i - (#v[(5 : ℚ), 5]).get i := by
    apply Vector.ext
    intro i inside
    obtain rfl | rfl : i = 0 ∨ i = 1 := by omega
    all_goals
      simp [Matrix.mulVec, dotProduct, Grid.toMatrix, Grid.entry, Vector.get, Fin.sum_univ_two]
  rw [← residuals]
  rfl

/-- From zero, two trials solve the equations and one does not, and a square that is raised has a
row of zeros. -/
theorem solve_trials_lines :
    let start : Vector ℚ 2 × Unit := (#v[0, 0], ())
    let finder : RootFinder ℚ := standard
    let once : RootFinder ℚ := { finder with maxTrials := 1 }
    finder.Accepted ∧ once.Accepted ∧
    (∃ report, (finder.visits lines (fun _ => pure ()) start).1.2 = .ok report ∧
      report.trials ≤ 2 ∧ (finder.visits lines (fun _ => pure ()) start).2.length ≤ 2) ∧
    (finder.visits lines (fun _ => pure ()) start).1.1 = #v[1, 2] ∧
    once.Passes (trialAt lines start) 1 ∧
    once.visits lines (fun _ => pure ()) start =
      (((trialAt lines start 1).point, .error (.tooManyTrials 1)), firstPoints lines start 1) ∧
    finder.visits (square 1) (fun _ => pure ()) (#v[0], ()) =
      ((#v[0], .error .singular), [#v[0]]) := by
  intro start finder once
  have nonsingular : (Grid.toMatrix #v[#v[(1 : ℚ), 2], #v[3, 1]]).det ≠ 0 := by
    rw [Matrix.det_fin_two]
    decide +kernel
  have accepted : finder.Accepted := .standard
  have onceAccepted : once.Accepted := .maxTrials 1 .standard rfl
  have regular : once.Regular (trialAt lines start) := by
    intro k _ _
    rw [lines_affine.jacobian start k]
    exact nonsingular
  obtain ⟨-, -, spent, left⟩ :=
    (solve_trials once onceAccepted lines (fun _ => pure ()) start).1 regular
  obtain ⟨report, found, number, visited, -⟩ :=
    (solve_trials finder accepted lines (fun _ => pure ()) start).2.2 _ _ nonsingular lines_affine
      (by decide)
  have passes : once.Passes (trialAt lines start) 1 := spent.mp (by decide +kernel)
  have zeroRow := (solve_trials finder accepted (square 1) (fun _ => pure ()) (#v[0], ())).2.1 0
    (by decide) (fun j below => nomatch below) (fun j below => nomatch below)
    (by decide +kernel) ⟨0, by decide +kernel⟩
  exact ⟨accepted, onceAccepted, ⟨report, found, number, visited⟩, by decide +kernel, passes,
    left passes, zeroRow⟩

/-- A row of zeros does not end a trial that is good enough. -/
theorem solve_square :
    (standard : RootFinder ℚ).Accepted ∧
    (∀ j, (trialAt (square 0) (#v[0], ()) 0).jacobian.entry 0 j = 0) ∧
    (standard : RootFinder ℚ).visits (square 0) (fun _ => pure ()) (#v[0], ()) =
      ((#v[0], .ok { trials := 1, residualNorm := 0, stepNorm := 0 }), [#v[0]]) :=
  ⟨.standard, by decide +kernel, by decide +kernel⟩

end RootFinder

end Descent

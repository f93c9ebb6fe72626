import Mathlib.Algebra.Polynomial.Degree.Lemmas
import Mathlib.Algebra.Polynomial.Eval.Degree
import Mathlib.Algebra.Polynomial.Derivative
import Descent.Proofs.Differences

/-!
Where a gradient is differenced. Two points belong to each coordinate, one moved forward and one
moved backward along it, and the function is evaluated at all of them, in this order and nowhere
else. The point that is moved in place is given back unmoved, so no coordinate sees the step of
another. On exact numbers parabolas are met and cubics are missed by the square of the step.
-/

namespace Descent

open Scalar

/-! The points. -/

section Positions

variable {n : ℕ}

def forth (i : Fin n) : Fin (2 * n) := ⟨2 * i, by omega⟩

def back (i : Fin n) : Fin (2 * n) := ⟨2 * i + 1, by omega⟩

def paired {A B : Type} (combine : A → A → B) (values : Vector A (2 * n)) : Vector B n :=
  Vector.ofFn fun i => combine (values.get (forth i)) (values.get (back i))

theorem paired_push {A B : Type} (combine : A → A → B) (values : Vector A (2 * n))
    (forward backward : A) :
    paired combine (n := n + 1) ((values.push forward).push backward) =
      (paired combine values).push (combine forward backward) := by
  ext i inside
  rw [paired, Vector.getElem_push, Vector.getElem_ofFn]
  change combine ((values.push forward).push backward)[2 * i]
    ((values.push forward).push backward)[2 * i + 1] = _
  by_cases earlier : i < n
  · rw [dif_pos earlier, paired, Vector.getElem_ofFn, Vector.getElem_push_lt (by omega),
      Vector.getElem_push_lt (by omega), Vector.getElem_push_lt (by omega),
      Vector.getElem_push_lt (by omega)]
    rfl
  · obtain rfl : i = n := by omega
    rw [dif_neg earlier, Vector.getElem_push_lt (by omega), Vector.getElem_push_eq,
      Vector.getElem_push_eq]

/-- Programs run in pairs are run one after the other. -/
theorem ofFnM_pairs {m : Type → Type} [Monad m] [LawfulMonad m] {A B : Type}
    (program : Fin (2 * n) → m A) (combine : A → A → B) :
    (Vector.ofFnM fun i => do
      let forward ← program (forth i)
      let backward ← program (back i)
      pure (combine forward backward)) = paired combine <$> Vector.ofFnM program := by
  induction n with
  | zero =>
    rw [Vector.ofFnM_zero, Vector.ofFnM_zero, map_pure]
    exact congrArg pure (Vector.ext nofun)
  | succ n ih =>
    -- The last pair comes after the pairs of the shorter list.
    have doubled : Vector.ofFnM program = (do
        let values ← Vector.ofFnM fun k : Fin (2 * n) => program (k.castAdd 2)
        let forward ← program (forth (Fin.last n))
        let backward ← program (back (Fin.last n))
        pure ((values.push forward).push backward)) := by
      refine Vector.ofFnM_succ.trans ?_
      rw [Vector.ofFnM_succ]
      simp only [bind_assoc, pure_bind]
      rfl
    calc
      _ = (do
          let parts ← Vector.ofFnM fun i : Fin n => do
            let forward ← program ((forth i).castAdd 2)
            let backward ← program ((back i).castAdd 2)
            pure (combine forward backward)
          let forward ← program (forth (Fin.last n))
          let backward ← program (back (Fin.last n))
          pure (parts.push (combine forward backward))) := by
        rw [Vector.ofFnM_succ]
        simp only [bind_assoc, pure_bind]
        rfl
      _ = _ := by
        rw [ih fun k => program (k.castAdd 2), doubled]
        simp only [map_bind, bind_map_left, map_pure, paired_push]

end Positions

section Evaluations

variable {F : Type} [Scalar F] {n : ℕ}

def stencil (x : Vector F n) (step : F) : Vector (Vector F n) (2 * n) :=
  Vector.ofFn fun k =>
    let i : Fin n := ⟨k / 2, by omega⟩
    x.set i (if k.val % 2 = 0 then x.get i + step else x.get i - step) i.isLt

theorem stencil_forth (x : Vector F n) (step : F) (i : Fin n) :
    (stencil x step).get (forth i) = x.set i (x.get i + step) i.isLt := by
  have halved : 2 * i.val / 2 = i := by omega
  refine (Vector.getElem_ofFn (forth i).isLt).trans ?_
  simp only [forth, halved, Nat.mul_mod_right, if_true, Fin.eta]

theorem stencil_back (x : Vector F n) (step : F) (i : Fin n) :
    (stencil x step).get (back i) = x.set i (x.get i - step) i.isLt := by
  have halved : (2 * i.val + 1) / 2 = i := by omega
  have odd : ¬(2 * i.val + 1) % 2 = 0 := by omega
  refine (Vector.getElem_ofFn (back i).isLt).trans ?_
  simp only [back, halved, if_neg odd, Fin.eta]

/-- The quotients, in order, that the values at these points give. -/
def quotients (step : F) : Vector F (2 * n) → Vector F n :=
  paired fun forward backward => (forward - backward) / (step * two)

variable {m : Type → Type} [Monad m]

def visiting (f : Vector F n → m F) (point : Vector F n) : StateT (List (Vector F n)) m F := do
  modify (· ++ [point])
  monadLift (f point)

/-- All partial derivatives, each from the point that is carried. -/
def differentiateInPlace [MonadExceptOf Fault m] (f : Vector F n → m F) (step : F) :
    StateT (Vector F n) m (Vector F n) := do
  if positive : 0 < step then
    Vector.ofFnM fun i => centralDifferenceInPlace f i ⟨step, positive⟩
  else throw (.precondition .differenceStep)

variable [LawfulMonad m]

theorem differentiate_eq [MonadExceptOf Fault m] (f : Vector F n → m F) (x : Vector F n) {step : F}
    (positive : 0 < step) :
    differentiate f x step =
      quotients step <$> Vector.ofFnM fun k => f ((stencil x step).get k) := by
  rw [differentiate, dif_pos positive, quotients, ← ofFnM_pairs]
  simp only [stencil_forth, stencil_back]
  rfl

theorem differentiate_pure [MonadExceptOf Fault m] {f : Vector F n → m F} {g : Vector F n → F}
    (value : ∀ y, f y = pure (g y)) (x : Vector F n) {step : F} (positive : 0 < step) :
    differentiate f x step = pure (Vector.ofFn fun i =>
      (g (x.set i (x.get i + step) i.isLt) - g (x.set i (x.get i - step) i.isLt)) /
        (step * two)) := by
  rw [differentiate, dif_pos positive]
  simp only [centralDifference, value, pure_bind, Vector.ofFnM_pure]

omit [Scalar F] in
theorem visiting_ofFnM (f : Vector F n → m F) {count : ℕ} (points : Vector (Vector F n) count)
    (seen : List (Vector F n)) :
    (Vector.ofFnM fun k => visiting f (points.get k)).run seen =
      (fun values => (values, seen ++ points.toList)) <$>
        Vector.ofFnM fun k => f (points.get k) := by
  induction count with
  | zero => simp [Vector.eq_empty]
  | succ count ih =>
    obtain ⟨first, last, rfl⟩ : ∃ (first : Vector (Vector F n) count) (last : Vector F n),
        points = first.push last := Vector.exists_push
    have before := ih first
    have early (k : Fin count) : (first.push last).get k.castSucc = first.get k :=
      Vector.getElem_push_lt k.isLt
    have late : (first.push last).get (Fin.last count) = last := Vector.getElem_push_eq
    simp only [Vector.ofFnM_succ, early, late, StateT.run_bind, before, bind_map_left]
    simp [visiting, Vector.toList_push]

omit [Scalar F] in
theorem reading_ofFnM {S A : Type} (program : Fin n → S → m A) :
    (Vector.ofFnM fun i => reading (program i)) =
      reading fun state => Vector.ofFnM fun i => program i state := by
  induction n with
  | zero =>
    simp only [Vector.ofFnM_zero]
    exact reading_pure _
  | succ n ih =>
    simp only [Vector.ofFnM_succ, ih, reading_pure, reading_bind]

theorem differentiateInPlace_run [MonadExceptOf Fault m] (f : Vector F n → m F) (x : Vector F n)
    {step : F} (positive : 0 < step) :
    (differentiateInPlace f step).run x =
      (fun partials => (partials, x)) <$> differentiate f x step := by
  rw [differentiateInPlace, differentiate, dif_pos positive, dif_pos positive]
  simp only [centralDifferenceInPlace_eq, reading_ofFnM, reading_run]

end Evaluations

section Exactness

variable {F : Type} [Field F] [LinearOrder F] [IsStrictOrderedRing F] [Exact F] {n : ℕ}

theorem cubic_quotient {curve : Polynomial F} (cubic : curve.natDegree ≤ 3) (y : F) {step : F}
    (positive : 0 < step) :
    (curve.eval (y + step) - curve.eval (y - step)) / (step * two) =
      curve.derivative.eval y + step ^ 2 * curve.coeff 3 := by
  have sloped : curve.derivative.natDegree < 3 := by
    have lower := curve.natDegree_derivative_le
    omega
  have apart : step * 2 ≠ 0 := mul_ne_zero positive.ne' two_ne_zero
  rw [two, Nat.cast_ofNat, div_eq_iff apart, curve.eval_eq_sum_range' (Nat.lt_succ_of_le cubic),
    curve.eval_eq_sum_range' (Nat.lt_succ_of_le cubic),
    curve.derivative.eval_eq_sum_range' sloped]
  simp only [Finset.sum_range_succ, Finset.sum_range_zero, Polynomial.coeff_derivative]
  push_cast
  ring

end Exactness

/-- A gradient is differenced from two values for each coordinate. The points are the given one but
for that coordinate, which is moved by the step, whatever the arithmetic does with it; they are
visited in order and no others are; one point that is moved in place will do. On exact numbers the
quotients are the gradient of a polynomial of degree two or less. Where the function is a cubic
along a coordinate, the quotient exceeds its slope by the square of the step times the leading
coefficient. -/
theorem differentiate_visits :
    (∀ {F : Type} [Scalar F] {m : Type → Type} [Monad m] [LawfulMonad m] [MonadExceptOf Fault m]
      {n : ℕ} (f : Vector F n → m F) (x : Vector F n) (step : F), 0 < step →
      (∀ i j, ((stencil x step).get (forth i)).get j =
        if j = i then x.get i + step else x.get j) ∧
      (∀ i j, ((stencil x step).get (back i)).get j =
        if j = i then x.get i - step else x.get j) ∧
      (∀ seen, (differentiate (visiting f) x step).run seen =
        (fun values => (quotients step values, seen ++ (stencil x step).toList)) <$>
          Vector.ofFnM fun k => f ((stencil x step).get k)) ∧
      (differentiateInPlace f step).run x =
        (fun partials => (partials, x)) <$> differentiate f x step) ∧
    ∀ {F : Type} [Field F] [LinearOrder F] [IsStrictOrderedRing F] [Exact F] {m : Type → Type}
      [Monad m] [LawfulMonad m] [MonadExceptOf Fault m] {n : ℕ} (f : Vector F n → m F)
      (g : Vector F n → F) (x : Vector F n) (step : F), (∀ y, f y = pure (g y)) → 0 < step →
      ∃ partials, differentiate f x step = pure partials ∧
        (∀ polynomial : MvPolynomial (Fin n) F, polynomial.totalDegree ≤ 2 →
          (∀ y, g y = polynomial.eval y.get) →
          ∀ i, partials.get i = (MvPolynomial.pderiv i polynomial).eval x.get) ∧
        ∀ (i : Fin n) (curve : Polynomial F), curve.natDegree ≤ 3 →
          (∀ y, g (x.set i y i.isLt) = curve.eval y) →
          partials.get i = curve.derivative.eval (x.get i) + step ^ 2 * curve.coeff 3 := by
  constructor
  · intro F _ m _ _ _ n f x step positive
    refine ⟨?_, ?_, ?_, differentiateInPlace_run f x positive⟩
    · intro i j
      rw [stencil_forth, get_set]
    · intro i j
      rw [stencil_back, get_set]
    · intro seen
      rw [differentiate_eq _ x positive, StateT.run_map, visiting_ofFnM, Functor.map_map]
  · intro F _ _ _ _ m _ _ _ n f g x step value positive
    refine ⟨_, differentiate_pure value x positive, ?_, ?_⟩
    · intro polynomial parabolic same i
      have limited := (polynomial.degreeOf_le_totalDegree i).trans parabolic
      have exact := centralDifference_polynomial (m := Id) limited (f := g) same x ⟨step, positive⟩
      exact (Vector.getElem_ofFn i.isLt).trans exact
    · intro i curve cubic along
      refine (Vector.getElem_ofFn i.isLt).trans ?_
      rw [along, along, Fin.eta]
      exact cubic_quotient cubic (x.get i) positive

/-- A saddle is met. Where its first coordinate is cubed, the quotient at a step of one half is too
large by a fourth of the second coordinate. -/
theorem differentiate_visits_saddle :
    (differentiate (m := StateT (List (Vector ℚ 2)) (Except Fault))
        (visiting fun y => pure (y.get 0 * y.get 1)) #v[3, 2] (1 / 2)).run [] =
      .ok (#v[2, 3], [#v[7 / 2, 2], #v[5 / 2, 2], #v[3, 5 / 2], #v[3, 3 / 2]]) ∧
    (∃ partials, differentiate (m := Except Fault) (fun y => pure (y.get 0 * y.get 1)) #v[3, 2]
        (1 / 2 : ℚ) = pure partials ∧ partials.get 0 = 2 ∧ partials.get 1 = 3) ∧
    ∃ partials, differentiate (m := Except Fault) (fun y => pure (y.get 0 ^ 3 * y.get 1)) #v[3, 2]
        (1 / 2 : ℚ) = pure partials ∧ partials.get 0 = 3 * 3 ^ 2 * 2 + (1 / 2) ^ 2 * 2 := by
  have positive : (0 : ℚ) < 1 / 2 := by norm_num
  refine ⟨?_, ?_, ?_⟩
  · obtain ⟨-, -, visits, -⟩ := differentiate_visits.1 (m := Except Fault)
      (fun y => pure (y.get 0 * y.get 1)) #v[3, 2] (1 / 2 : ℚ) positive
    rw [visits]
    decide +kernel
  · obtain ⟨partials, same, exact, -⟩ := differentiate_visits.2 (m := Except Fault)
      (fun y => pure (y.get 0 * y.get 1)) (fun y => y.get 0 * y.get 1) #v[3, 2] (1 / 2 : ℚ)
      (fun _ => rfl) positive
    have parabolic :
        (MvPolynomial.X 0 * MvPolynomial.X 1 : MvPolynomial (Fin 2) ℚ).totalDegree ≤ 2 := by
      refine (MvPolynomial.totalDegree_mul _ _).trans ?_
      rw [MvPolynomial.totalDegree_X, MvPolynomial.totalDegree_X]
    have slopes := exact _ parabolic (by simp)
    have first : (#v[3, 2] : Vector ℚ 2).get 0 = 3 := rfl
    have second : (#v[3, 2] : Vector ℚ 2).get 1 = 2 := rfl
    refine ⟨partials, same, (slopes 0).trans ?_, (slopes 1).trans ?_⟩
    · simp [MvPolynomial.pderiv_X, second]
    · simp [MvPolynomial.pderiv_X, first]
  · obtain ⟨partials, same, -, off⟩ := differentiate_visits.2 (m := Except Fault)
      (fun y => pure (y.get 0 ^ 3 * y.get 1)) (fun y => y.get 0 ^ 3 * y.get 1) #v[3, 2] (1 / 2 : ℚ)
      (fun _ => rfl) positive
    refine ⟨partials, same, (off 0 (Polynomial.monomial 3 2) ?_ ?_).trans ?_⟩
    · exact Polynomial.natDegree_monomial_le 2
    · intro y
      rw [Polynomial.eval_monomial, mul_comm]
      rfl
    · rw [Polynomial.derivative_monomial, Polynomial.eval_monomial, Polynomial.coeff_monomial_same]
      decide +kernel

end Descent

import Mathlib.Algebra.BigOperators.Fin
import Mathlib.Algebra.Order.Field.Basic
import Mathlib.Order.Interval.Finset.Fin
import Mathlib.Tactic.Linarith
import Descent.Scalar

/-!
Exact arithmetic. Every ordered field computes without rounding; the two things it lacks, a root
and the gap after one, are given beside it and nothing is assumed about them. Loops that run over
positions become sums here, and keep invariants that count the steps.
-/

namespace Descent

open Scalar

/-- What an ordered field needs besides to be computed in. -/
class Exact (F : Type) where
  sqrt : F → F
  epsilon : F

instance Exact.scalar {F : Type} [Field F] [LinearOrder F] [Exact F] : Scalar F where
  lessDecidable := LinearOrder.toDecidableLT
  atMostDecidable := LinearOrder.toDecidableLE
  abs x := |x|
  sqrt := Exact.sqrt
  isFinite _ := true
  epsilon := Exact.epsilon

instance : Exact ℚ where
  sqrt := id
  epsilon := 0

namespace Exact

variable {F : Type} [Field F] [LinearOrder F] [Exact F]

theorem isZero_iff {x : F} : isZero x = true ↔ x = 0 := beq_iff_eq

theorem isNaN_eq (x : F) : isNaN x = false := by
  simp [isNaN]

theorem abs_eq (x : F) : Scalar.abs x = |x| := rfl

theorem maxNum_eq (x y : F) : maxNum x y = max x y := by
  rw [maxNum, isNaN_eq, max_def_lt]
  rfl

theorem minNum_eq (x y : F) : minNum x y = min x y := by
  rw [minNum, isNaN_eq, min_comm, min_def_lt]
  rfl

end Exact

/-! Loops over the positions below a bound. -/

section Loops

/-- What every step of a loop keeps, with the number of steps done. -/
theorem foldl_invariant {B : Type} {n : ℕ} (Kept : ℕ → B → Prop) {step : B → Fin n → B} {start : B}
    (begins : Kept 0 start)
    (goesOn : ∀ (i : Fin n) state, Kept i state → Kept (i + 1) (step state i)) :
    Kept n (Fin.foldl n step start) := by
  induction n with
  | zero => exact begins
  | succ n ih =>
    rw [Fin.foldl_succ_last]
    exact goesOn (Fin.last n) _ (ih fun i state kept => goesOn i.castSucc state kept)

theorem foldr_invariant {B : Type} {n : ℕ} (Kept : ℕ → B → Prop) {step : Fin n → B → B} {start : B}
    (begins : Kept n start)
    (goesOn : ∀ (i : Fin n) state, Kept (i + 1) state → Kept i (step i state)) :
    Kept 0 (Fin.foldr n step start) := by
  induction n generalizing Kept with
  | zero => exact begins
  | succ n ih =>
    rw [Fin.foldr_succ]
    apply goesOn 0
    exact ih (fun left => Kept (left + 1)) begins fun i state kept => goesOn i.succ state kept

theorem foldlM_cases {B E : Type} {n : ℕ} (Kept : ℕ → B → Prop) {step : B → Fin n → Except E B}
    {start : B} (begins : Kept 0 start)
    (goesOn : ∀ (i : Fin n) state next, Kept i state → step state i = .ok next →
      Kept (i + 1) next) :
    (∃ final, Fin.foldlM n step start = .ok final ∧ Kept n final) ∨
      ∃ (i : Fin n) (state : B) (failure : E), Kept i state ∧ step state i = .error failure ∧
        Fin.foldlM n step start = .error failure := by
  induction n generalizing Kept start with
  | zero =>
    left
    exact ⟨start, by rw [Fin.foldlM_zero]; rfl, begins⟩
  | succ n ih =>
    have unfolded : Fin.foldlM (n + 1) step start = step start 0 >>= fun next =>
        Fin.foldlM n (fun state i => step state i.succ) next := by
      rw [Fin.foldlM_succ]
    cases first : step start 0 with
    | error failure =>
      right
      refine ⟨0, start, failure, begins, first, ?_⟩
      rw [unfolded, first]
      rfl
    | ok next =>
      have rest := ih (fun count => Kept (count + 1)) (goesOn 0 start next begins first)
        fun i state => goesOn i.succ state
      rw [unfolded, first]
      rcases rest with ⟨final, ends, kept⟩ | ⟨i, state, failure, kept, fails, ends⟩
      · exact .inl ⟨final, ends, kept⟩
      · exact .inr ⟨i.succ, state, failure, kept, fails, ends⟩

theorem foldlM_ok {B E : Type} {n : ℕ} (Kept : ℕ → B → Prop) {step : B → Fin n → Except E B}
    {start : B} (begins : Kept 0 start)
    (goesOn : ∀ (i : Fin n) state, Kept i state →
      ∃ next, step state i = .ok next ∧ Kept (i + 1) next) :
    ∃ final, Fin.foldlM n step start = .ok final ∧ Kept n final := by
  have keeps (i : Fin n) (state next : B) (kept : Kept i state)
      (steps : step state i = .ok next) : Kept (i + 1) next := by
    obtain ⟨next', steps', kept'⟩ := goesOn i state kept
    obtain rfl := Except.ok.inj (steps.symm.trans steps')
    exact kept'
  rcases foldlM_cases Kept begins keeps with completed | ⟨i, state, failure, kept, fails, _⟩
  · exact completed
  · obtain ⟨next, steps, _⟩ := goesOn i state kept
    exact nomatch steps.symm.trans fails

variable {F : Type} [Field F] [LinearOrder F] [Exact F]

theorem foldl_sub (count : ℕ) (term : Fin count → F) (start : F) :
    Fin.foldl count (fun sum k => sum - term k) start = start - ∑ k, term k := by
  induction count with
  | zero => simp
  | succ count ih => rw [Fin.foldl_succ_last, ih, Fin.sum_univ_castSucc, sub_sub]

theorem foldl_mul (count : ℕ) (factor : Fin count → F) (start : F) :
    Fin.foldl count (fun product k => product * factor k) start = start * ∏ k, factor k := by
  induction count with
  | zero => simp
  | succ count ih => rw [Fin.foldl_succ_last, ih, Fin.prod_univ_castSucc, mul_assoc]

omit [LinearOrder F] [Exact F] in
theorem sum_iio {n : ℕ} (bound : Fin n) (term : Fin n → F) :
    ∑ k : Fin bound, term ⟨k, k.2.trans bound.2⟩ = ∑ k ∈ Finset.Iio bound, term k := by
  have same : Finset.Iio bound = Finset.univ.map (Fin.castLEEmb bound.2.le) := by
    ext k
    simp only [Finset.mem_Iio, Finset.mem_map, Finset.mem_univ, true_and]
    constructor
    · intro below
      exact ⟨⟨k, below⟩, rfl⟩
    · rintro ⟨k, rfl⟩
      exact k.2
  rw [same, Finset.sum_map]
  rfl

end Loops

end Descent

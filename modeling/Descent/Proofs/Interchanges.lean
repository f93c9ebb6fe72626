import Descent.Proofs.Substitution

/-!
What a substitution answers. The interchanges may be made one after the other on the whole
right-hand side beforehand, although the forward pass makes them while it eliminates. Two triangles
without a zero on their diagonals have one solution, and the substitution finds it. That columns
before the first entry that is not zero are left out changes nothing.
-/

namespace Descent

open Scalar Finset Matrix

theorem foldl_coupled {A B : Type} {n : ℕ} (Related : ℕ → A → B → Prop) {step : A → Fin n → A}
    {step' : B → Fin n → B} {start : A} {start' : B} (begins : Related 0 start start')
    (goesOn : ∀ (i : Fin n) state state', Related i state state' →
      Related (i + 1) (step state i) (step' state' i)) :
    Related n (Fin.foldl n step start) (Fin.foldl n step' start') := by
  induction n with
  | zero => exact begins
  | succ n ih =>
    rw [Fin.foldl_succ_last, Fin.foldl_succ_last]
    exact goesOn (Fin.last n) _ _ (ih fun i => goesOn i.castSucc)

section Interchanges

variable {A : Type} {n : ℕ}

/-- The entries after the interchanges of `i` with `pivots[i]`, made for one `i` after the
other. -/
def interchange (pivots : Vector (Fin n) n) (b : Vector A n) : Vector A n :=
  Fin.foldl n (fun b i => b.swap i (pivots.get i) i.isLt (pivots.get i).isLt) b

theorem interchange_get (pivots : Vector (Fin n) n) (b : Vector A n) :
    (interchange pivots b).get = b.get ∘ rowOrder pivots n := by
  apply foldl_invariant fun count (moved : Vector A n) =>
    moved.get = b.get ∘ rowOrder pivots count
  · rfl
  · intro i moved kept
    funext k
    rw [get_swap, kept, rowOrder_succ, Function.comp_apply, Function.comp_apply,
      Equiv.Perm.mul_apply]

end Interchanges

namespace Factorization

variable {F : Type} [Field F] [LinearOrder F] [Exact F] {n : ℕ}
variable {factors : Grid F n n} {pivots : Vector (Fin n) n} {b : Vector F n}

/-! All columns. -/

/-- Undo interchange `i` and eliminate with the unit lower triangle, from column zero on. -/
def forwardRowThroughout (factors : Grid F n n) (pivots : Vector (Fin n) n) (values : Vector F n)
    (i : Fin n) : Vector F n :=
  let source := pivots.get i
  let moved := values.set source (values.get i) source.isLt
  let value := Fin.foldl i.val
    (fun sum j =>
      let j : Fin n := j.castLE Fin.is_le'
      sum - factors.entry i j * moved.get j)
    (values.get source)
  moved.set i value i.isLt

def substituteThroughout (factors : Grid F n n) (pivots : Vector (Fin n) n) (b : Vector F n) :
    Vector F n :=
  Fin.foldr n (backwardRow factors) (Fin.foldl n (forwardRowThroughout factors pivots) b)

theorem forwardRow_throughout {state : Forward F n} {i : Fin n}
    (kept : Forwarded factors pivots b i state) (onward : i ≤ pivots.get i) :
    (forwardRow factors pivots state i).values =
      forwardRowThroughout factors pivots state.values i := by
  have terms : ∑ k : Fin i, factors.entry i (k.castLE Fin.is_le') *
        (state.values.set (pivots.get i) (state.values.get i) (pivots.get i).isLt).get
          (k.castLE Fin.is_le') =
      ∑ k ∈ Iio i, factors.entry i k * state.values.get k := by
    rw [← sum_iio]
    apply Finset.sum_congr rfl
    intro k _
    -- the entry that the interchange overwrites is not among those read
    have early : k.castLE Fin.is_le' < pivots.get i := lt_of_lt_of_le k.2 onward
    rw [get_set, if_neg early.ne]
    rfl
  rw [forwardRow_values kept onward, forwardRowThroughout, foldl_sub, terms]

/-- Leaving columns out changes nothing. -/
theorem substitute_throughout (onward : ∀ i : Fin n, i ≤ pivots.get i) :
    substitute factors pivots b = substituteThroughout factors pivots b := by
  have forward : Forwarded factors pivots b n _ ∧ _ = Fin.foldl n
      (forwardRowThroughout factors pivots) b :=
    foldl_coupled
      (fun count state values => Forwarded factors pivots b count state ∧ state.values = values)
      ⟨forwarded_start, rfl⟩ fun i state _ ⟨kept, same⟩ =>
        ⟨forwardRow_forwarded kept (onward i), same ▸ forwardRow_throughout kept (onward i)⟩
  rw [substitute, substituteThroughout, ← forward.2]

/-! One solution. -/

theorem lower_mul_upper_isUnit (nonzero : ∀ i, factors.entry i i ≠ 0) :
    IsUnit (factors.lower * factors.upper) := by
  have lower : factors.lower.det = 1 := by
    rw [Matrix.det_of_isLowerTriangular _ factors.isLowerTriangular_lower]
    simp [Grid.lower]
  have upper : factors.upper.det = ∏ i, factors.entry i i := by
    rw [Matrix.det_of_isUpperTriangular factors.isUpperTriangular_upper]
    simp [Grid.upper]
  rw [Matrix.isUnit_iff_isUnit_det, Matrix.det_mul, lower, upper, one_mul]
  exact (Finset.prod_ne_zero_iff.mpr fun i _ => nonzero i).isUnit

theorem solves_iff (nonzero : ∀ i, factors.entry i i ≠ 0)
    (onward : ∀ i : Fin n, i ≤ pivots.get i) (b : Vector F n) (x : Fin n → F) :
    factors.lower *ᵥ (factors.upper *ᵥ x) = (interchange pivots b).get ↔
      x = (substitute factors pivots b).get := by
  have found := mulVec_substitute nonzero onward b
  rw [interchange_get, ← found, Matrix.mulVec_mulVec, Matrix.mulVec_mulVec]
  exact (Matrix.mulVec_injective_of_isUnit (lower_mul_upper_isUnit nonzero)).eq_iff

/-! Operands as they are handed over. -/

theorem substituteChecked_eq (factors : Grid F n n) (pivots : Vector (Fin n) n)
    (b : Vector F n) :
    substituteChecked factors (pivots.map Fin.val).toArray b.toArray =
      .ok (substitute factors pivots b).toArray := by
  have inside : ∀ i (below : i < (pivots.map Fin.val).toArray.size),
      (pivots.map Fin.val).toArray[i] < n := by
    intro i below
    simp
  have square : factors.map (fun row => (row.take n).cast (Nat.min_eq_left le_rfl)) = factors := by
    apply Vector.ext
    intro i below
    apply Vector.ext
    intro j within
    simp
  have named : (Vector.ofFn fun i : Fin n =>
      (⟨(pivots.map Fin.val).toArray[i], inside i (by simp)⟩ : Fin n)) = pivots := by
    apply Vector.ext
    intro i below
    simp
  rw [substituteChecked, dif_pos ⟨by simp, b.size_toArray⟩, dif_pos le_rfl, dif_pos inside, square,
    named]

/-- With nonzero pivots, and interchanges that look onward, a right-hand side is overwritten with
the one point that the two triangles take to it after the interchanges, and leaving out the columns
before its first nonzero entry makes no difference. -/
theorem substitute_solves (factors : Grid F n n) (pivots : Vector (Fin n) n) (b : Vector F n)
    (nonzero : ∀ i, factors.entry i i ≠ 0) (onward : ∀ i : Fin n, i ≤ pivots.get i) :
    ∃ x : Vector F n,
      substituteChecked factors (pivots.map Fin.val).toArray b.toArray = .ok x.toArray ∧
      (∀ y : Fin n → F,
        factors.lower *ᵥ (factors.upper *ᵥ y) = (interchange pivots b).get ↔ y = x.get) ∧
      substituteThroughout factors pivots b = x :=
  ⟨substitute factors pivots b, substituteChecked_eq factors pivots b,
    solves_iff nonzero onward b, (substitute_throughout onward).symm⟩

def woven : Grid ℚ 3 3 := #v[#v[2, 1, 0], #v[1 / 2, 4, 1], #v[3, 5, 7]]

/-- All interchanges are with the last row, and the first entry is zero after them. -/
theorem substitute_solves_woven :
    (∀ i, woven.entry i i ≠ 0) ∧ (∀ i : Fin 3, i ≤ (#v[2, 2, 2] : Vector (Fin 3) 3).get i) ∧
      interchange (#v[2, 2, 2] : Vector (Fin 3) 3) #v[(4 : ℚ), 27, 0] = #v[0, 4, 27] ∧
      substituteChecked woven #[2, 2, 2] #[4, 27, 0] = .ok #[-3 / 8, 3 / 4, 1] ∧
      ∃ x : Vector ℚ 3,
        substituteChecked woven ((#v[2, 2, 2] : Vector (Fin 3) 3).map Fin.val).toArray #[4, 27, 0] =
          .ok x.toArray ∧
        (∀ y : Fin 3 → ℚ, woven.lower *ᵥ (woven.upper *ᵥ y) =
          (interchange (#v[2, 2, 2] : Vector (Fin 3) 3) #v[(4 : ℚ), 27, 0]).get ↔ y = x.get) ∧
        substituteThroughout woven #v[2, 2, 2] #v[4, 27, 0] = x := by
  have nonzero : ∀ i, woven.entry i i ≠ 0 := by decide +kernel
  have onward : ∀ i : Fin 3, i ≤ (#v[2, 2, 2] : Vector (Fin 3) 3).get i := by decide
  exact ⟨nonzero, onward, by decide +kernel, by decide +kernel,
    substitute_solves woven #v[2, 2, 2] #v[4, 27, 0] nonzero onward⟩

end Factorization

end Descent

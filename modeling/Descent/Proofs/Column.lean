import Descent.Proofs.Triangle

/-!
What finishing one column does over exact numbers, part by part: reducing its entries by the
finished ones, looking for the best row, exchanging rows, replacing a pivot of zero, and dividing
what is below it.
-/

namespace Descent

open Scalar Finset

namespace Elimination

variable {F : Type} [Field F] [LinearOrder F] [Exact F] {n : ℕ}

/-! Reducing a column. -/

theorem reduced_eq (a : Grid F n n) (i j : Fin n) :
    reduced a i j = a.entry i j - ∑ k ∈ Iio (min i j), a.entry i k * a.entry k j := by
  rw [reduced, foldl_sub, ← sum_iio]
  rfl

/-- Column `j` of `b` is that of `a`, reduced in the first `count` rows. -/
structure Reduced (a : Grid F n n) (j : Fin n) (count : ℕ) (b : Grid F n n) : Prop where
  others : ∀ i k, k ≠ j → b.entry i k = a.entry i k
  pending : ∀ i : Fin n, count ≤ i → b.entry i j = a.entry i j
  finished : ∀ i : Fin n, i < count →
    ∑ k ∈ Iio (min i j), b.entry i k * b.entry k j + b.entry i j = a.entry i j

theorem reduced_step {a b : Grid F n n} {j i : Fin n} (kept : Reduced a j i b) :
    Reduced a j (i + 1) (b.put i j (reduced b i j)) where
  others := by
    intro row k other
    rw [Grid.entry_put, if_neg fun same => other same.2]
    exact kept.others row k other
  pending := by
    intro row late
    have other : row ≠ i := by omega
    rw [Grid.entry_put, if_neg fun same => other same.1]
    exact kept.pending row (by omega)
  finished := by
    intro row below
    -- the products read rows above this one, which are finished, left of the column
    have terms : ∑ k ∈ Iio (min row j), (b.put i j (reduced b i j)).entry row k *
          (b.put i j (reduced b i j)).entry k j =
        ∑ k ∈ Iio (min row j), b.entry row k * b.entry k j := by
      apply Finset.sum_congr rfl
      intro k early
      have left : k ≠ j := (lt_min_iff.mp (mem_Iio.mp early)).2.ne
      have above : k < row := (lt_min_iff.mp (mem_Iio.mp early)).1
      have other : k ≠ i := by omega
      simp [left, other]
    rw [terms]
    by_cases last : row = i
    · subst last
      rw [Grid.entry_put, if_pos ⟨rfl, rfl⟩, reduced_eq, kept.pending row le_rfl]
      ring
    · rw [Grid.entry_put, if_neg fun same => last same.1]
      exact kept.finished row (by omega)

theorem reduceColumn_reduced (a : Grid F n n) (j : Fin n) :
    Reduced a j n (reduceColumn a j) := by
  apply foldl_invariant (Reduced a j)
  · exact ⟨fun _ _ _ => rfl, fun _ _ => rfl, fun i below => absurd below (Nat.not_lt_zero i)⟩
  · intro i b kept
    exact reduced_step kept

/-! Looking for the pivot. -/

section Pivot

variable (a : Grid F n n) (scale : Vector F n) (j : Fin n)

def figure (i : Fin n) : F := scale.get i * |a.entry i j|

/-- Of the rows from `j` on and before `count`, `best` has the largest figure, and is the last one
with it. -/
structure Leading (count : ℕ) (best : F × Fin n) : Prop where
  below : j ≤ best.2
  figured : best.1 = figure a scale j best.2
  atMost : ∀ i, j ≤ i → i.val < count → figure a scale j i ≤ best.1
  last : ∀ i, best.2 < i → i.val < count → figure a scale j i < best.1

structure Searched (count : ℕ) (best : F × Fin n) : Prop where
  fresh : count ≤ j.val → best = (0, j)
  leading : j.val < count → Leading a scale j count best

variable {a scale j}

theorem leading_first {i : Fin n} : Leading a scale i (i + 1) (figure a scale i i, i) where
  below := le_rfl
  figured := rfl
  atMost := by
    intro row onward upTo
    rw [show row = i by omega]
  last := by
    intro row later upTo
    have behind : i < row := later
    omega

theorem leading_step {i : Fin n} {best : F × Fin n} (behind : j < i)
    (leading : Leading a scale j i best) :
    Leading a scale j (i + 1)
      (if best.1 ≤ figure a scale j i then (figure a scale j i, i) else best) := by
  by_cases takes : best.1 ≤ figure a scale j i
  · rw [if_pos takes]
    constructor
    · exact behind.le
    · rfl
    · intro row onward upTo
      by_cases same : row = i
      · rw [same]
      · exact (leading.atMost row onward (by omega)).trans takes
    · intro row later upTo
      have beyond : i < row := later
      omega
  · rw [if_neg takes]
    have smaller : figure a scale j i < best.1 := not_le.mp takes
    constructor
    · exact leading.below
    · exact leading.figured
    · intro row onward upTo
      by_cases same : row = i
      · exact same ▸ smaller.le
      · exact leading.atMost row onward (by omega)
    · intro row later upTo
      by_cases same : row = i
      · exact same ▸ smaller
      · exact leading.last row later (by omega)

theorem searched_step [IsStrictOrderedRing F] (weighted : ∀ i : Fin n, 0 ≤ scale.get i) {i : Fin n}
    {best : F × Fin n} (searched : Searched a scale j i best) :
    Searched a scale j (i + 1)
      (if j ≤ i ∧ best.1 ≤ figure a scale j i then (figure a scale j i, i) else best) := by
  rcases lt_trichotomy i j with above | same | behind
  · rw [if_neg fun taken => absurd above (not_lt.mpr taken.1)]
    exact ⟨fun _ => searched.fresh above.le, fun late => by omega⟩
  -- a figure is never negative, so the diagonal itself is taken first
  · subst same
    have taken : best.1 ≤ figure a scale i i := by
      rw [searched.fresh le_rfl]
      exact mul_nonneg (weighted i) (abs_nonneg _)
    rw [if_pos ⟨le_rfl, taken⟩]
    exact ⟨fun early => by omega, fun _ => leading_first⟩
  · simp only [behind.le, true_and]
    exact ⟨fun early => by omega, fun _ => leading_step behind (searched.leading behind)⟩

theorem bestRow_leading [IsStrictOrderedRing F] (weighted : ∀ i : Fin n, 0 ≤ scale.get i) :
    Leading a scale j n (bestRow a scale j) := by
  have searched : Searched a scale j n (bestRow a scale j) := by
    apply foldl_invariant (Searched a scale j)
    · exact ⟨fun _ => rfl, fun late => absurd late (Nat.not_lt_zero j)⟩
    · intro i best searched
      exact searched_step weighted searched
  exact searched.leading j.2

/-- A largest figure of zero means that the column is zero from the diagonal on. -/
theorem column_eq_zero [IsStrictOrderedRing F] (weighted : ∀ i : Fin n, 0 < scale.get i)
    (none : a.entry (bestRow a scale j).2 j = 0) {i : Fin n} (onward : j ≤ i) :
    a.entry i j = 0 := by
  have leading : Leading a scale j n (bestRow a scale j) :=
    bestRow_leading fun i => (weighted i).le
  have largest : (bestRow a scale j).1 = 0 := by
    rw [leading.figured, figure, none, abs_zero, mul_zero]
  have small : scale.get i * |a.entry i j| ≤ 0 := largest ▸ leading.atMost i onward i.2
  exact abs_nonpos_iff.mp (nonpos_of_mul_nonpos_right small (weighted i))

end Pivot

/-! Finishing a column. -/

theorem tiny_pos [IsStrictOrderedRing F] : 0 < (tiny : F) := by
  rw [tiny]
  norm_num

@[simp]
theorem exchange_entry (state : Elimination F n) (j best i k : Fin n) :
    (state.exchange j best).factors.entry i k =
      state.factors.entry (Equiv.swap best j i) k := by
  by_cases stays : best = j
  · subst stays
    simp [exchange]
  · simp [exchange, stays]

@[simp]
theorem exchange_pivots (state : Elimination F n) (j best : Fin n) :
    (state.exchange j best).pivots = state.pivots := by
  rw [exchange]
  split <;> rfl

theorem exchange_parity (state : Elimination F n) (j best : Fin n) :
    (state.exchange j best).parity =
      state.parity * ((Equiv.Perm.sign (Equiv.swap j best) : ℤ) : F) := by
  by_cases stays : best = j
  · subst stays
    simp [exchange]
  · simp [exchange, stays, Equiv.Perm.sign_swap (Ne.symm stays)]

theorem exchange_scale_pos {state : Elimination F n} {j best : Fin n}
    (weighted : ∀ i : Fin n, 0 < state.scale.get i) (i : Fin n) :
    0 < (state.exchange j best).scale.get i := by
  by_cases stays : best = j
  · simpa [exchange, stays] using weighted i
  · simp only [exchange, if_neg stays, get_set]
    split
    · exact weighted j
    · exact weighted i

theorem mendPivot_entry (a : Grid F n n) (j i k : Fin n) :
    (mendPivot a j).entry i k =
      if i = j ∧ k = j ∧ a.entry j j = 0 then tiny else a.entry i k := by
  by_cases zero : a.entry j j = 0
  · simp [mendPivot, Exact.isZero_iff, zero]
  · simp [mendPivot, Exact.isZero_iff, zero]

theorem divideColumn_entry (a : Grid F n n) (j i k : Fin n) :
    (divideColumn a j).entry i k =
      if k = j ∧ j < i then a.entry i j * (1 / a.entry j j) else a.entry i k := by
  -- each row is written once, at the step of its own
  have divided : ∀ i k, (divideColumn a j).entry i k =
      if k = j ∧ j < i ∧ i.val < n then a.entry i j * (1 / a.entry j j) else a.entry i k := by
    apply foldl_invariant fun count (b : Grid F n n) => ∀ i k, b.entry i k =
      if k = j ∧ j < i ∧ i.val < count then a.entry i j * (1 / a.entry j j) else a.entry i k
    · simp
    · intro row b kept i k
      by_cases below : j < row
      · rw [if_pos below, Grid.entry_put, kept row j, kept i k]
        by_cases same : i = row
        · subst same
          by_cases column : k = j <;> simp [column, below]
        · have still : i.val < row.val + 1 ↔ i.val < row.val := by omega
          simp [same, still]
      · rw [if_neg below, kept i k]
        by_cases same : i = row
        · simp [same, below]
        · have still : i.val < row.val + 1 ↔ i.val < row.val := by omega
          simp [still]
  simpa using divided i k

end Elimination

end Descent

import Mathlib.LinearAlgebra.Matrix.Block
import Mathlib.LinearAlgebra.Matrix.Permutation
import Descent.Factorization
import Descent.Proofs.Exact

/-!
A grid as a matrix, and the two triangles that share one grid. The product of the triangles has an
entry for each position that reads the grid left of it and above it only, so it can be followed
while columns are finished one by one.

Interchanges that are applied one after the other bring the rows into an order, a permutation.
-/

namespace Descent

open Finset Matrix

theorem get_swap {A : Type} {n : ℕ} (v : Vector A n) (i j k : Fin n) :
    (v.swap i j i.isLt j.isLt).get k = v.get (Equiv.swap i j k) := by
  refine (Vector.getElem_swap i.isLt j.isLt k.isLt).trans ?_
  simp only [Equiv.swap_apply_def, Fin.ext_iff]
  split_ifs <;> rfl

namespace Grid

section Entries

variable {F : Type} {m n : ℕ}

def toMatrix (a : Grid F m n) : Matrix (Fin m) (Fin n) F := Matrix.of a.entry

@[simp]
theorem toMatrix_apply (a : Grid F m n) (i : Fin m) (j : Fin n) : a.toMatrix i j = a.entry i j :=
  rfl

@[simp]
theorem entry_put (a : Grid F m n) (i k : Fin m) (j l : Fin n) (x : F) :
    (a.put i j x).entry k l = if k = i ∧ l = j then x else a.entry k l := by
  by_cases row : k = i
  · subst row
    by_cases column : l = j <;> simp [put, entry, column]
  · simp [put, entry, row]

@[simp]
theorem entry_exchange (a : Grid F m n) (i j k : Fin m) (l : Fin n) :
    (a.exchange i j).entry k l = a.entry (Equiv.swap i j k) l :=
  congrArg (·.get l) (get_swap a i j k)

end Entries

variable {F : Type} [Field F] {n : ℕ}

def lower (a : Grid F n n) : Matrix (Fin n) (Fin n) F :=
  Matrix.of fun i j => if j < i then a.entry i j else if i = j then 1 else 0

def upper (a : Grid F n n) : Matrix (Fin n) (Fin n) F :=
  Matrix.of fun i j => if i ≤ j then a.entry i j else 0

theorem isLowerTriangular_lower (a : Grid F n n) : a.lower.IsLowerTriangular := by
  intro i j above
  have before : i < j := above
  simp [lower, before.not_gt, before.ne]

theorem isUpperTriangular_upper (a : Grid F n n) : a.upper.IsUpperTriangular := by
  intro i j below
  have after : j < i := below
  simp [upper, after.not_ge]

def product (a : Grid F n n) (i j : Fin n) : F :=
  ∑ k ∈ Iio (min i j), a.entry i k * a.entry k j +
    if i ≤ j then a.entry i j else a.entry i j * a.entry j j

theorem lower_mul_upper (a : Grid F n n) (i j : Fin n) :
    (a.lower * a.upper) i j = a.product i j := by
  have factors (k : Fin n) : a.lower i k * a.upper k j =
      if k < min i j then a.entry i k * a.entry k j
      else if k = min i j then (if i ≤ j then a.entry i j else a.entry i j * a.entry j j)
      else 0 := by
    simp only [lower, upper, Matrix.of_apply]
    rcases lt_trichotomy k (min i j) with before | same | behind
    · have left := lt_min_iff.mp before
      simp [left.1, left.2, left.2.le]
    · subst same
      by_cases above : i ≤ j
      · simp [above]
      · have behind : j < i := not_le.mp above
        simp [above, behind, behind.le]
    · rw [if_neg behind.not_gt, if_neg behind.ne']
      by_cases left : k < i
      · have under : ¬ k ≤ j := fun onward => absurd behind (not_lt.mpr (le_min left.le onward))
        rw [if_neg under, mul_zero]
      · rw [if_neg left]
        by_cases diagonal : i = k
        · subst diagonal
          have under : ¬ i ≤ j := fun onward => absurd behind (not_lt.mpr (le_min le_rfl onward))
          rw [if_neg under, mul_zero]
        · rw [if_neg diagonal, zero_mul]
  rw [Matrix.mul_apply, product, Finset.sum_congr rfl fun k _ => factors k, Finset.sum_ite]
  congr 1
  · congr 1
    ext k
    simp
  · have last : min i j ∈ univ.filter fun k => ¬ k < min i j :=
      mem_filter.mpr ⟨mem_univ _, lt_irrefl _⟩
    rw [Finset.sum_ite_eq', if_pos last]

theorem lower_mulVec (a : Grid F n n) (y : Fin n → F) (i : Fin n) :
    (a.lower *ᵥ y) i = ∑ k ∈ Iio i, a.entry i k * y k + y i := by
  have terms (k : Fin n) : a.lower i k * y k =
      (if k < i then a.entry i k * y k else 0) + if k = i then y k else 0 := by
    rcases lt_trichotomy k i with before | same | behind
    · simp [Grid.lower, before, before.ne]
    · simp [Grid.lower, same]
    · simp [Grid.lower, behind.not_gt, behind.ne, behind.ne']
  rw [Matrix.mulVec, dotProduct, Finset.sum_congr rfl fun k _ => terms k, Finset.sum_add_distrib,
    Finset.sum_ite_eq', if_pos (mem_univ i), ← Finset.sum_filter]
  congr 2
  ext k
  simp

theorem upper_mulVec (a : Grid F n n) (x : Fin n → F) (i : Fin n) :
    (a.upper *ᵥ x) i = ∑ k ∈ Ici i, a.entry i k * x k := by
  have terms (k : Fin n) : a.upper i k * x k =
      if i ≤ k then a.entry i k * x k else 0 := by
    by_cases onward : i ≤ k <;> simp [Grid.upper, onward]
  rw [Matrix.mulVec, dotProduct, Finset.sum_congr rfl fun k _ => terms k, ← Finset.sum_filter]
  congr 1
  ext k
  simp

theorem exists_entry_ne_zero {matrix : Grid F n n} (nonsingular : matrix.toMatrix.det ≠ 0)
    (i : Fin n) : ∃ j, matrix.entry i j ≠ 0 := by
  by_contra zeros
  push Not at zeros
  exact nonsingular (Matrix.det_eq_zero_of_row_eq_zero i zeros)

theorem product_congr {a b : Grid F n n} {i j : Fin n}
    (same : ∀ i k, k ≤ j → a.entry i k = b.entry i k) : a.product i j = b.product i j := by
  have terms : ∑ k ∈ Iio (min i j), a.entry i k * a.entry k j =
      ∑ k ∈ Iio (min i j), b.entry i k * b.entry k j := by
    apply Finset.sum_congr rfl
    intro k below
    have left : k ≤ j := (lt_min_iff.mp (mem_Iio.mp below)).2.le
    rw [same i k left, same k j le_rfl]
  rw [product, product, terms, same i j le_rfl, same j j le_rfl]

/-- Rows from `j` on are exchanged together with their products left of column `j`. -/
theorem product_exchange (a : Grid F n n) {i j k best : Fin n} (left : k < j) (behind : j ≤ best) :
    (a.exchange best j).product i k = a.product (Equiv.swap best j i) k := by
  have above (l : Fin n) (before : l ≤ k) : Equiv.swap best j l = l := by
    have apart : l < j := before.trans_lt left
    exact Equiv.swap_apply_of_ne_of_ne (apart.trans_le behind).ne apart.ne
  have terms (row : Fin n) : ∑ l ∈ Iio (min row k), a.entry (Equiv.swap best j i) l *
        a.entry (Equiv.swap best j l) k =
      ∑ l ∈ Iio (min row k), a.entry (Equiv.swap best j i) l * a.entry l k := by
    apply Finset.sum_congr rfl
    intro l below
    rw [above l (lt_min_iff.mp (mem_Iio.mp below)).2.le]
  by_cases early : i ≤ k
  · have stays := above i early
    simp only [product, entry_exchange]
    rw [terms, stays]
    simp [early]
  · have late : ¬ Equiv.swap best j i ≤ k := by
      intro early'
      have back := above _ early'
      rw [Equiv.swap_apply_self] at back
      exact early (back ▸ early')
    simp only [product, entry_exchange]
    rw [terms, above k le_rfl, min_eq_right (not_le.mp early).le, min_eq_right (not_le.mp late).le,
      if_neg early, if_neg late]

end Grid

section Interchanges

variable {n : ℕ}

/-- The row that the interchanges `(j, pivots[j])` for `j = 0, …, count - 1`, applied in this
order, have brought into each position. -/
def rowOrder (pivots : Vector (Fin n) n) : ℕ → Equiv.Perm (Fin n)
  | 0 => 1
  | count + 1 =>
      if inside : count < n then
        rowOrder pivots count * Equiv.swap ⟨count, inside⟩ (pivots.get ⟨count, inside⟩)
      else rowOrder pivots count

theorem rowOrder_succ (pivots : Vector (Fin n) n) (j : Fin n) :
    rowOrder pivots (j + 1) = rowOrder pivots j * Equiv.swap j (pivots.get j) := by
  rw [rowOrder, dif_pos j.2]

theorem rowOrder_congr {pivots others : Vector (Fin n) n} {count : ℕ}
    (same : ∀ j : Fin n, j < count → pivots.get j = others.get j) :
    rowOrder pivots count = rowOrder others count := by
  induction count with
  | zero => rfl
  | succ count ih =>
    have before := ih fun j below => same j (below.trans (Nat.lt_succ_self count))
    by_cases inside : count < n
    · have last := same ⟨count, inside⟩ (Nat.lt_succ_self count)
      rw [rowOrder_succ pivots ⟨count, inside⟩, rowOrder_succ others ⟨count, inside⟩, last, before]
    · rw [rowOrder, rowOrder, dif_neg inside, dif_neg inside, before]

theorem sign_mul_sign {F : Type} [Field F] (order : Equiv.Perm (Fin n)) :
    ((Equiv.Perm.sign order : ℤ) : F) * ((Equiv.Perm.sign order : ℤ) : F) = 1 := by
  rcases Int.units_eq_one_or (Equiv.Perm.sign order) with even | odd
  · simp [even]
  · simp [odd]

end Interchanges

end Descent

import Mathlib.Data.Finset.Lattice.Fold
import Descent.Proofs.Factors

/-!
Which row becomes the pivot row of a column. A row competes by its merit: what is left of its entry
in that column, relative to the largest entry it had in the beginning. The pivot row has the
largest merit of all rows that are left, and of equal merits the row that stood last wins; so no
multiplier is larger than the weights of its two rows allow.

The scale is written at one of the two interchanged positions only. The other one is the position
of the pivot, which is never looked at again: the positions that are still searched always hold
the weights of the rows that stand there.
-/

namespace Descent

open Scalar Finset

def Grid.weight {F : Type} [Field F] [LinearOrder F] {n : ℕ} (matrix : Grid F n n) (row : Fin n) :
    F :=
  1 / univ.sup' ⟨row, mem_univ row⟩ fun j => |matrix.entry row j|

theorem Grid.weight_nonneg {F : Type} [Field F] [LinearOrder F] [IsStrictOrderedRing F] {n : ℕ}
    (matrix : Grid F n n) (row : Fin n) : 0 ≤ matrix.weight row := by
  apply one_div_nonneg.mpr
  exact (abs_nonneg _).trans (le_sup' (fun j => |matrix.entry row j|) (mem_univ row))

namespace Elimination

variable {F : Type} [Field F] [LinearOrder F] [Exact F] {n : ℕ} {matrix : Grid F n n}

theorem foldl_maxNum_le (entries : List F) {start bound : F} (begins : start ≤ bound)
    (below : ∀ x ∈ entries, |x| ≤ bound) :
    entries.foldl (fun largest x => maxNum largest (Scalar.abs x)) start ≤ bound := by
  induction entries generalizing start with
  | nil => exact begins
  | cons entry rest ih =>
    obtain ⟨first, others⟩ := List.forall_mem_cons.mp below
    apply ih _ others
    change maxNum start (Scalar.abs entry) ≤ bound
    rw [Exact.maxNum_eq, Exact.abs_eq]
    exact max_le begins first

section Weights

variable [IsStrictOrderedRing F]

theorem weight?_eq {i : Fin n} {weight : F} (weighs : weight? (matrix.get i) = some weight) :
    weight = matrix.weight i := by
  have largest : (matrix.get i).foldl (fun largest x => maxNum largest (Scalar.abs x)) 0 =
      univ.sup' ⟨i, mem_univ i⟩ fun j => |matrix.entry i j| := by
    have upper (j : Fin n) : |matrix.entry i j| ≤
        univ.sup' ⟨i, mem_univ i⟩ fun j => |matrix.entry i j| :=
      le_sup' (fun j => |matrix.entry i j|) (mem_univ j)
    rw [← Vector.foldl_toList]
    apply le_antisymm
    · apply foldl_maxNum_le _ ((abs_nonneg _).trans (upper i))
      intro x member
      obtain ⟨j, inside, rfl⟩ := Vector.getElem_of_mem (Vector.mem_toList_iff.mp member)
      exact upper ⟨j, inside⟩
    · apply sup'_le
      intro j _
      exact (foldl_maxNum_bounds _ 0).2 _
        (Vector.mem_toList_iff.mpr (Vector.getElem_mem j.isLt))
  rw [weight?, largest] at weighs
  split at weighs
  · exact absurd weighs.symm (Option.some_ne_none weight)
  · exact (Option.some.inj weighs).symm

end Weights

/-- After `count` columns: the scale of the rows that are left, and how the multipliers of the
finished columns compare with the weights. -/
structure Balanced (matrix : Grid F n n) (replaced : Fin n → Prop) (count : ℕ)
    (state : Elimination F n) : Prop where
  scale : ∀ i : Fin n, count ≤ i →
    state.scale.get i = matrix.weight (rowOrder state.pivots count i)
  multiplier : ∀ i j : Fin n, j < count → j < i →
    matrix.weight (rowOrder state.pivots count i) * |state.factors.entry i j| ≤
      matrix.weight (rowOrder state.pivots count j)
  chosen : ∀ j : Fin n, j < count →
    rowOrder state.pivots count j = rowOrder state.pivots j (state.pivots.get j)
  /-- Rows that stood behind the pivot had less merit. -/
  behind : ∀ i j : Fin n, j < count → j < i →
    state.pivots.get j < (rowOrder state.pivots j).symm (rowOrder state.pivots count i) →
    ¬ replaced j ∧ matrix.weight (rowOrder state.pivots count i) * |state.factors.entry i j| <
      matrix.weight (rowOrder state.pivots count j)

section Column

variable {replaced : Fin n → Prop} [DecidablePred replaced]
variable {state : Elimination F n} {j : Fin n}

theorem column_order_before {k : ℕ} (before : k ≤ j) :
    rowOrder (state.column j).pivots k = rowOrder state.pivots k := by
  apply rowOrder_congr
  intro l early
  have other : l ≠ j := by omega
  simp [column_pivots, other]

theorem column_order_apply (i : Fin n) : rowOrder (state.column j).pivots (j + 1) i =
    rowOrder state.pivots j (Equiv.swap (chosen state j) j i) := by
  rw [column_order, Equiv.swap_comm]
  rfl

theorem column_pivots_before {k : Fin n} (before : k < j) :
    (state.column j).pivots.get k = state.pivots.get k := by
  simp [column_pivots, before.ne]

theorem column_entry_before (i : Fin n) {k : Fin n} (before : k < j) :
    (state.column j).factors.entry i k =
      state.factors.entry (Equiv.swap (chosen state j) j i) k := by
  rw [column_others before.ne, pivoted_left i before.ne]

theorem column_scale {i : Fin n} (behind : j < i) :
    (state.column j).scale.get i = state.scale.get (Equiv.swap (chosen state j) j i) := by
  change (exchange _ j (chosen state j)).scale.get i = _
  by_cases stays : chosen state j = j
  · rw [exchange, if_pos stays, stays, Equiv.swap_self]
    rfl
  · rw [exchange, if_neg stays, get_set]
    by_cases best : i = chosen state j
    · rw [if_pos best, best, Equiv.swap_apply_left]
    · rw [if_neg best, Equiv.swap_apply_of_ne_of_ne best behind.ne']

variable [IsStrictOrderedRing F]

theorem swap_below (kept : Factored matrix replaced j state) {i k : Fin n} (before : k < j)
    (below : k < i) : k < Equiv.swap (chosen state j) j i := by
  by_cases early : i < j
  · rw [swap_early kept early]
    exact below
  · exact before.trans_le (swap_late kept (not_lt.mp early))

theorem figure_eq (kept : Factored matrix replaced j state)
    (balanced : Balanced matrix replaced j state) {i : Fin n} (late : j ≤ i) :
    figure (reduceColumn state.factors j) state.scale j (Equiv.swap (chosen state j) j i) =
      matrix.weight (rowOrder (state.column j).pivots (j + 1) i) *
        |(pivoted state j).entry i j| := by
  rw [figure, balanced.scale _ (swap_late kept late), column_order_apply, pivoted_entry]

/-- The row brought into position has the largest merit, and more than any row behind it. -/
theorem column_leads (kept : Factored matrix replaced j state)
    (balanced : Balanced matrix replaced j state) {i : Fin n} (late : j ≤ i) :
    (matrix.weight (rowOrder (state.column j).pivots (j + 1) i) * |(pivoted state j).entry i j| ≤
      matrix.weight (rowOrder (state.column j).pivots (j + 1) j) *
        |(pivoted state j).entry j j|) ∧
    (chosen state j < Equiv.swap (chosen state j) j i →
      matrix.weight (rowOrder (state.column j).pivots (j + 1) i) *
          |(pivoted state j).entry i j| <
        matrix.weight (rowOrder (state.column j).pivots (j + 1) j) *
          |(pivoted state j).entry j j|) := by
  have leading : Leading (reduceColumn state.factors j) state.scale j n
      (bestRow (reduceColumn state.factors j) state.scale j) :=
    bestRow_leading fun i => (kept.weighted i).le
  rw [← figure_eq kept balanced late, ← figure_eq kept balanced le_rfl, Equiv.swap_apply_right,
    chosen, ← leading.figured]
  exact ⟨leading.atMost _ (swap_late kept late) (Fin.is_lt _),
    fun behind => leading.last _ behind (Fin.is_lt _)⟩

theorem column_multiplier {i : Fin n} (below : j < i)
    (nonzero : (pivoted state j).entry j j ≠ 0) :
    |(state.column j).factors.entry i j| =
      |(pivoted state j).entry i j| / |(pivoted state j).entry j j| := by
  rw [column_entry, if_pos ⟨rfl, below⟩, column_pivot, if_neg nonzero, mul_one_div, abs_div]

theorem column_balanced (kept : Factored matrix replaced j state)
    (judged : replaced j ↔ (pivoted state j).entry j j = 0)
    (balanced : Balanced matrix replaced j state) :
    Balanced matrix replaced (j + 1) (state.column j) where
  scale := by
    intro i late
    have behind : j < i := late
    rw [column_scale behind, column_order_apply]
    exact balanced.scale _ (swap_late kept behind.le)
  multiplier := by
    intro i k upTo below
    by_cases new : k = j
    · subst new
      have largest := (column_leads kept balanced below.le).1
      by_cases zero : (pivoted state k).entry k k = 0
      · rw [column_entry, if_pos ⟨rfl, below⟩, pivoted_zero kept zero below.le, zero_mul, abs_zero,
          mul_zero]
        exact matrix.weight_nonneg _
      · rw [column_multiplier below zero, ← mul_div_assoc, div_le_iff₀ (abs_pos.mpr zero)]
        exact largest
    · have before : k < j := lt_of_le_of_ne (Fin.mk_le_mk.mpr (Nat.le_of_lt_succ upTo)) new
      rw [column_order_apply, column_order_apply, column_entry_before i before,
        swap_early kept before]
      exact balanced.multiplier _ k before (swap_below kept before below)
  chosen := by
    intro k upTo
    by_cases new : k = j
    · subst new
      rw [column_order_apply, column_order_before le_rfl, Equiv.swap_apply_right, column_pivots]
      simp
    · have before : k < j := lt_of_le_of_ne (Fin.mk_le_mk.mpr (Nat.le_of_lt_succ upTo)) new
      rw [column_order_apply, swap_early kept before, column_order_before before.le,
        column_pivots_before before]
      exact balanced.chosen k before
  behind := by
    intro i k upTo below behind
    by_cases new : k = j
    · subst new
      rw [column_order_before le_rfl, column_order_apply, Equiv.symm_apply_apply] at behind
      have smaller := (column_leads kept balanced below.le).2
        (by simpa [column_pivots] using behind)
      have nonzero : (pivoted state k).entry k k ≠ 0 := by
        intro zero
        rw [pivoted_zero kept zero below.le, zero, abs_zero, mul_zero, mul_zero] at smaller
        exact lt_irrefl 0 smaller
      rw [column_multiplier below nonzero, ← mul_div_assoc, div_lt_iff₀ (abs_pos.mpr nonzero)]
      exact ⟨fun mark => nonzero (judged.mp mark), smaller⟩
    · have before : k < j := lt_of_le_of_ne (Fin.mk_le_mk.mpr (Nat.le_of_lt_succ upTo)) new
      rw [column_order_before before.le, column_order_apply, column_pivots_before before] at behind
      rw [column_order_apply, column_order_apply, column_entry_before i before,
        swap_early kept before]
      exact balanced.behind _ k before (swap_below kept before below) behind

end Column

variable [IsStrictOrderedRing F]

/-- From the weights of the rows on, every column is balanced. -/
theorem after_balanced {weights : Vector F n} (nonzero : ∀ i, ∃ j, matrix.entry i j ≠ 0)
    (weighed : ∀ i : Fin n, i < n → weight? (matrix.get i) = some (weights.get i)) {count : ℕ}
    (inside : count ≤ n) :
    Balanced matrix (Replaced matrix weights) count (after matrix weights count) := by
  induction count with
  | zero =>
    constructor
    · exact fun i _ => weight?_eq (weighed i i.2)
    · exact fun _ _ below => absurd below (Nat.not_lt_zero _)
    · exact fun _ below => absurd below (Nat.not_lt_zero _)
    · exact fun _ _ below => absurd below (Nat.not_lt_zero _)
  | succ count ih =>
    have before := Nat.le_of_succ_le inside
    rw [after_succ matrix weights ⟨count, inside⟩]
    exact column_balanced (j := ⟨count, inside⟩)
      (after_factored matrix (weights_pos nonzero weighed) before) Iff.rfl (ih before)

end Elimination

namespace Factorization

section Merits

variable {F : Type} [Field F] {n : ℕ} (lu : Factorization F n)

def order : Equiv.Perm (Fin n) := rowOrder lu.pivots n

def placeBefore (j i : Fin n) : Fin n := (rowOrder lu.pivots j).symm (lu.order i)

/-- What the columns before `j` leave of its entry in that column. -/
def leftover (matrix : Grid F n n) (i j : Fin n) : F :=
  matrix.entry (lu.order i) j - ∑ k ∈ Iio j, lu.factors.lower i k * lu.factors.upper k j

/-- The same relative to the largest entry the row had in the beginning. -/
def merit [LinearOrder F] (matrix : Grid F n n) (i j : Fin n) : F :=
  matrix.weight (lu.order i) * |lu.leftover matrix i j|

/-- At every column the pivot row has the largest merit of the rows that were left, and of those
with the largest merit it stood last. -/
structure PivotsLead [LinearOrder F] (matrix : Grid F n n) : Prop where
  multiplier : ∀ i j, j < i →
    matrix.weight (lu.order i) * |lu.factors.lower i j| ≤ matrix.weight (lu.order j)
  pivot : ∀ j, lu.placeBefore j j = lu.pivots.get j
  largest : ∀ i j, j ≤ i → lu.merit matrix i j ≤ lu.merit matrix j j
  last : ∀ i j, j ≤ i → lu.merit matrix i j = lu.merit matrix j j →
    lu.placeBefore j i ≤ lu.placeBefore j j

end Merits

variable {F : Type} [Field F] [LinearOrder F] [Exact F] {n : ℕ}

open Elimination

section Factored

variable {matrix : Grid F n n} {replaced : Fin n → Prop} [DecidablePred replaced]
variable {state : Elimination F n}

abbrev ofState (state : Elimination F n) : Factorization F n :=
  { factors := state.factors, pivots := state.pivots, parity := state.parity }

theorem leftover_eq (done : Factored matrix replaced n state) {i j : Fin n} (late : j ≤ i) :
    (ofState state).leftover matrix i j =
      state.factors.lower i j * (state.factors.entry j j - if replaced j then tiny else 0) := by
  have terms : ∑ k ∈ Iio j, state.factors.lower i k * state.factors.upper k j =
      ∑ k ∈ Iio (min i j), state.factors.entry i k * state.factors.entry k j := by
    rw [min_eq_right late]
    apply Finset.sum_congr rfl
    intro k before
    have left : k < j := mem_Iio.mp before
    simp [Grid.lower, Grid.upper, left.trans_le late, left.le]
  have product := done.product i j j.2
  rw [Grid.product, ← terms] at product
  rw [leftover, order, eq_sub_of_add_eq product.symm]
  rcases late.eq_or_lt with rfl | below
  · simp [Grid.lower]
    ring
  · by_cases mark : replaced j
    · simp [Grid.lower, below, below.not_ge, below.ne', (done.replaced j j.2 mark).2 i below]
    · simp [Grid.lower, below, below.not_ge, below.ne', mark]

variable [IsStrictOrderedRing F]

theorem pivotsLead_of_balanced (done : Factored matrix replaced n state)
    (balanced : Balanced matrix replaced n state) : (ofState state).PivotsLead matrix := by
  have pivot (j : Fin n) : (ofState state).placeBefore j j = state.pivots.get j := by
    rw [placeBefore, Equiv.symm_apply_eq]
    exact balanced.chosen j j.2
  have multiplier (i j : Fin n) (below : j < i) :
      state.factors.lower i j = state.factors.entry i j := by
    simp [Grid.lower, below]
  have unit (j : Fin n) : state.factors.lower j j = 1 := by
    simp [Grid.lower]
  have merit (i j : Fin n) (late : j ≤ i) : (ofState state).merit matrix i j =
      matrix.weight ((ofState state).order i) * |state.factors.lower i j| *
        |state.factors.entry j j - if replaced j then tiny else 0| := by
    rw [Factorization.merit, leftover_eq done late, abs_mul, mul_assoc]
  constructor
  · intro i j below
    rw [multiplier i j below]
    exact balanced.multiplier i j j.2 below
  · exact pivot
  · intro i j late
    rcases late.eq_or_lt with rfl | below
    · exact le_rfl
    · rw [merit i j late, merit j j le_rfl, unit, abs_one, mul_one, multiplier i j below]
      exact mul_le_mul_of_nonneg_right (balanced.multiplier i j j.2 below) (abs_nonneg _)
  · intro i j late equal
    rcases late.eq_or_lt with rfl | below
    · exact le_rfl
    · by_contra! behind
      rw [pivot] at behind
      obtain ⟨kept, smaller⟩ := balanced.behind i j j.2 below behind
      rw [merit i j late, merit j j le_rfl, unit, abs_one, mul_one, multiplier i j below,
        if_neg kept, sub_zero] at equal
      exact smaller.ne (mul_right_cancel₀ (abs_ne_zero.mpr (done.pivot j j.2)) equal)

end Factored

/-- A matrix without a row of zeros is factored with leading pivots, in its own storage or in new
storage. -/
theorem decompose_leads [IsStrictOrderedRing F] (work : Workspace F n)
    (nonzero : ∀ i, ∃ j, work.matrix.entry i j ≠ 0) :
    ∃ scale lu, work.decompose = (.ok lu.parity,
        { matrix := lu.factors, scale, permutation := lu.pivots.map Fin.val }) ∧
      ofMatrix work.matrix = .ok lu ∧ lu.PivotsLead work.matrix := by
  obtain ⟨weights, found, done, decomposed, factored⟩ := decompose_factored work nonzero
  obtain ⟨same, found', weighed⟩ := weights_ok work.scale nonzero
  have equal : same = weights := Except.ok.inj (found'.symm.trans found)
  subst equal
  have balanced := after_balanced nonzero weighed le_rfl
  rw [← run_eq_after] at balanced
  exact ⟨_, _, decomposed, factored, pivotsLead_of_balanced done balanced⟩

/-- The last two rows are equal candidates for the first pivot, and the last one is taken. The row
that was first stands in its place then and becomes the second pivot. -/
def tiedRows : Workspace ℚ 3 where
  matrix := #v[#v[1, 4, 2], #v[2, -1, 2], #v[-3, 3, 1]]
  scale := Vector.replicate 3 0
  permutation := Vector.replicate 3 0

theorem decompose_leads_tiedRows :
    (∀ i, ∃ j, tiedRows.matrix.entry i j ≠ 0) ∧
      tiedRows.decompose.2.permutation.toList = [2, 2, 2] ∧
      ∃ scale lu, tiedRows.decompose = (.ok lu.parity,
          { matrix := lu.factors, scale, permutation := lu.pivots.map Fin.val }) ∧
        ofMatrix tiedRows.matrix = .ok lu ∧ lu.PivotsLead tiedRows.matrix := by
  have nonzero : ∀ i, ∃ j, tiedRows.matrix.entry i j ≠ 0 := by decide +kernel
  exact ⟨nonzero, by decide +kernel, decompose_leads tiedRows nonzero⟩

end Factorization

end Descent

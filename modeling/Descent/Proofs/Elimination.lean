import Descent.Proofs.Column

/-!
Factoring over exact numbers. Once column `j` is finished, the columns up to `j` hold the two
triangles of the rows as they were interchanged so far, and the later columns hold those rows
themselves. A pivot is zero only where its whole column is zero from the diagonal on, so replacing
it changes the product at that one place.
-/

namespace Descent

open Scalar Finset

namespace Elimination

variable {F : Type} [Field F] [LinearOrder F] [Exact F] {n : ℕ}

/-! The whole run. -/

def after (matrix : Grid F n n) (scale : Vector F n) : ℕ → Elimination F n
  | 0 => { factors := matrix, scale, pivots := Vector.ofFn id, parity := 1 }
  | count + 1 =>
      if inside : count < n then (after matrix scale count).column ⟨count, inside⟩
      else after matrix scale count

theorem after_succ (matrix : Grid F n n) (scale : Vector F n) (j : Fin n) :
    after matrix scale (j + 1) = (after matrix scale j).column j := by
  rw [after, dif_pos j.2]

theorem run_eq_after (matrix : Grid F n n) (scale : Vector F n) :
    run matrix scale = after matrix scale n := by
  apply foldl_invariant fun count state => state = after matrix scale count
  · rfl
  · rintro j _ rfl
    exact (after_succ matrix scale j).symm

def chosen (state : Elimination F n) (j : Fin n) : Fin n :=
  (bestRow (reduceColumn state.factors j) state.scale j).2

def pivoted (state : Elimination F n) (j : Fin n) : Grid F n n :=
  (exchange { state with factors := reduceColumn state.factors j } j (chosen state j)).factors

/-- The pivot of column `j` comes out as zero, so that it is replaced. -/
def Replaced (matrix : Grid F n n) (scale : Vector F n) (j : Fin n) : Prop :=
  (pivoted (after matrix scale j) j).entry j j = 0

instance (matrix : Grid F n n) (scale : Vector F n) (j : Fin n) :
    Decidable (Replaced matrix scale j) := inferInstanceAs (Decidable (_ = _))

/-- The first `count` columns of the state hold the triangles of the interchanged rows of
`matrix`, the others hold those rows. -/
structure Factored (matrix : Grid F n n) (replaced : Fin n → Prop) [DecidablePred replaced]
    (count : ℕ) (state : Elimination F n) : Prop where
  product : ∀ i j : Fin n, j < count → state.factors.product i j =
    matrix.entry (rowOrder state.pivots count i) j + if i = j ∧ replaced j then tiny else 0
  pending : ∀ i j : Fin n, count ≤ j →
    state.factors.entry i j = matrix.entry (rowOrder state.pivots count i) j
  pivot : ∀ j : Fin n, j < count → state.factors.entry j j ≠ 0
  replaced : ∀ j : Fin n, j < count → replaced j →
    state.factors.entry j j = tiny ∧ ∀ i, j < i → state.factors.entry i j = 0
  onward : ∀ j : Fin n, j < count → j ≤ state.pivots.get j
  parity : state.parity = ((Equiv.Perm.sign (rowOrder state.pivots count) : ℤ) : F)
  weighted : ∀ i : Fin n, 0 < state.scale.get i

section Column

variable {matrix : Grid F n n} {replaced : Fin n → Prop} [DecidablePred replaced]
variable {state : Elimination F n} {j : Fin n}

theorem column_factors : (state.column j).factors =
    divideColumn (mendPivot (pivoted state j) j) j := rfl

theorem column_entry (i k : Fin n) : (state.column j).factors.entry i k =
    if k = j ∧ j < i then (pivoted state j).entry i j * (1 / (state.column j).factors.entry j j)
    else if i = j ∧ k = j ∧ (pivoted state j).entry j j = 0 then tiny
    else (pivoted state j).entry i k := by
  have pivot : (state.column j).factors.entry j j =
      (mendPivot (pivoted state j) j).entry j j := by
    rw [column_factors, divideColumn_entry, if_neg fun taken => lt_irrefl j taken.2]
  rw [pivot, column_factors, divideColumn_entry]
  by_cases below : k = j ∧ j < i
  · rw [if_pos below, if_pos below, mendPivot_entry _ _ i, if_neg fun same => below.2.ne' same.1]
  · rw [if_neg below, if_neg below, mendPivot_entry]

theorem pivoted_entry (i k : Fin n) : (pivoted state j).entry i k =
    (reduceColumn state.factors j).entry (Equiv.swap (chosen state j) j i) k :=
  exchange_entry _ j _ i k

theorem column_pivots : (state.column j).pivots = state.pivots.set j (chosen state j) j.isLt := by
  have kept := exchange_pivots { state with factors := reduceColumn state.factors j } j
    (chosen state j)
  exact congrArg (·.set j (chosen state j) j.isLt) kept

theorem column_order : rowOrder (state.column j).pivots (j + 1) =
    rowOrder state.pivots j * Equiv.swap j (chosen state j) := by
  have before : rowOrder (state.column j).pivots j = rowOrder state.pivots j := by
    apply rowOrder_congr
    intro k early
    have other : k ≠ j := by omega
    simp [column_pivots, other]
  rw [rowOrder_succ, before, column_pivots]
  simp

theorem pivoted_left (i : Fin n) {k : Fin n} (other : k ≠ j) : (pivoted state j).entry i k =
    state.factors.entry (Equiv.swap (chosen state j) j i) k := by
  rw [pivoted_entry, (reduceColumn_reduced _ j).others _ k other]

theorem pivoted_pending (kept : Factored matrix replaced j state) {i k : Fin n} (later : j < k) :
    (pivoted state j).entry i k =
      matrix.entry (rowOrder (state.column j).pivots (j + 1) i) k := by
  rw [pivoted_left i later.ne', kept.pending _ k later.le, column_order, Equiv.swap_comm]
  rfl

theorem column_others {i k : Fin n} (other : k ≠ j) :
    (state.column j).factors.entry i k = (pivoted state j).entry i k := by
  rw [column_entry, if_neg fun same => other same.1, if_neg fun same => other same.2.1]

theorem column_pivot : (state.column j).factors.entry j j =
    if (pivoted state j).entry j j = 0 then tiny else (pivoted state j).entry j j := by
  rw [column_entry, if_neg fun taken => lt_irrefl j taken.2]
  simp

variable [IsStrictOrderedRing F]

theorem chosen_onward (kept : Factored matrix replaced j state) : j ≤ chosen state j :=
  (bestRow_leading fun i => (kept.weighted i).le).below

theorem swap_early (kept : Factored matrix replaced j state) {i : Fin n} (early : i < j) :
    Equiv.swap (chosen state j) j i = i :=
  Equiv.swap_apply_of_ne_of_ne (early.trans_le (chosen_onward kept)).ne early.ne

theorem swap_late (kept : Factored matrix replaced j state) {i : Fin n} (late : j ≤ i) :
    j ≤ Equiv.swap (chosen state j) j i := by
  by_cases best : i = chosen state j
  · rw [best, Equiv.swap_apply_left]
  · by_cases diagonal : i = j
    · rw [diagonal, Equiv.swap_apply_right]
      exact chosen_onward kept
    · rw [Equiv.swap_apply_of_ne_of_ne best diagonal]
      exact late

theorem pivoted_product (kept : Factored matrix replaced j state) {i k : Fin n} (before : k < j) :
    (pivoted state j).product i k =
      matrix.entry (rowOrder (state.column j).pivots (j + 1) i) k +
        if i = k ∧ replaced k then tiny else 0 := by
  have exchanged : (pivoted state j).product i k =
      ((reduceColumn state.factors j).exchange (chosen state j) j).product i k :=
    Grid.product_congr fun row column _ => by
      rw [pivoted_entry, Grid.entry_exchange]
  have unreduced (row : Fin n) :
      (reduceColumn state.factors j).product row k = state.factors.product row k :=
    Grid.product_congr fun row column upTo =>
      (reduceColumn_reduced _ j).others row column (upTo.trans_lt before).ne
  have same : Equiv.swap (chosen state j) j i = k ↔ i = k := by
    constructor
    · intro moved
      rw [← swap_early kept before] at moved
      exact (Equiv.swap (chosen state j) j).injective moved
    · rintro rfl
      exact swap_early kept before
  rw [exchanged, Grid.product_exchange _ before (chosen_onward kept), unreduced,
    kept.product _ k before, column_order, Equiv.swap_comm j]
  simp only [same]
  rfl

/-- The new column holds what the finished entries left of it do not explain. -/
theorem pivoted_column (kept : Factored matrix replaced j state) (i : Fin n) :
    ∑ k ∈ Iio (min i j), (pivoted state j).entry i k * (pivoted state j).entry k j +
        (pivoted state j).entry i j =
      matrix.entry (rowOrder (state.column j).pivots (j + 1) i) j := by
  have reduced := (reduceColumn_reduced state.factors j).finished
    (Equiv.swap (chosen state j) j i) (Equiv.swap (chosen state j) j i).2
  have rows : min (Equiv.swap (chosen state j) j i) j = min i j := by
    by_cases early : i < j
    · rw [swap_early kept early]
    · rw [min_eq_right (swap_late kept (not_lt.mp early)), min_eq_right (not_lt.mp early)]
  have terms : ∑ k ∈ Iio (min i j), (pivoted state j).entry i k * (pivoted state j).entry k j =
      ∑ k ∈ Iio (min i j),
        (reduceColumn state.factors j).entry (Equiv.swap (chosen state j) j i) k *
          (reduceColumn state.factors j).entry k j := by
    apply Finset.sum_congr rfl
    intro k below
    rw [pivoted_entry, pivoted_entry, swap_early kept (lt_min_iff.mp (mem_Iio.mp below)).2]
  rw [rows] at reduced
  rw [terms, pivoted_entry, reduced, kept.pending _ j le_rfl, column_order, Equiv.swap_comm]
  rfl

/-- A pivot of zero has only zeros below it. -/
theorem pivoted_zero (kept : Factored matrix replaced j state)
    (zero : (pivoted state j).entry j j = 0) {i : Fin n} (late : j ≤ i) :
    (pivoted state j).entry i j = 0 := by
  rw [pivoted_entry, Equiv.swap_apply_right] at zero
  rw [pivoted_entry]
  exact column_eq_zero kept.weighted zero (swap_late kept late)

theorem column_pivot_ne_zero : (state.column j).factors.entry j j ≠ 0 := by
  rw [column_pivot]
  split
  · exact tiny_pos.ne'
  · next nonzero => exact nonzero

theorem column_product_new (kept : Factored matrix replaced j state)
    (judged : replaced j ↔ (pivoted state j).entry j j = 0) (i : Fin n) :
    (state.column j).factors.product i j =
      matrix.entry (rowOrder (state.column j).pivots (j + 1) i) j +
        if i = j ∧ replaced j then tiny else 0 := by
  have terms : ∑ k ∈ Iio (min i j), (state.column j).factors.entry i k *
        (state.column j).factors.entry k j =
      ∑ k ∈ Iio (min i j), (pivoted state j).entry i k * (pivoted state j).entry k j := by
    apply Finset.sum_congr rfl
    intro k below
    have left := (lt_min_iff.mp (mem_Iio.mp below)).2
    rw [column_others left.ne, column_entry k j, if_neg fun taken => left.not_gt taken.2,
      if_neg fun same => left.ne same.1]
  rw [Grid.product, terms, ← pivoted_column kept i]
  -- a replaced pivot was zero, and the product undoes the division below the diagonal
  rcases lt_trichotomy i j with above | same | below
  · rw [if_pos above.le, column_entry, if_neg fun taken => above.not_gt taken.2,
      if_neg fun same => above.ne same.1, if_neg fun same => above.ne same.1, add_zero]
  · subst same
    rw [if_pos le_rfl, column_pivot]
    by_cases zero : (pivoted state i).entry i i = 0
    · rw [if_pos zero, if_pos ⟨rfl, judged.mpr zero⟩, zero, add_zero]
    · rw [if_neg zero, if_neg fun same => zero (judged.mp same.2), add_zero]
  · have divided : (state.column j).factors.entry i j =
        (pivoted state j).entry i j * (1 / (state.column j).factors.entry j j) := by
      rw [column_entry, if_pos ⟨rfl, below⟩]
    rw [if_neg below.not_ge, divided, if_neg fun same => below.ne' same.1, mul_assoc,
      one_div_mul_cancel column_pivot_ne_zero, mul_one, add_zero]

theorem column_factored (kept : Factored matrix replaced j state)
    (judged : replaced j ↔ (pivoted state j).entry j j = 0) :
    Factored matrix replaced (j + 1) (state.column j) where
  product := by
    intro i k upTo
    by_cases new : k = j
    · rw [new]
      exact column_product_new kept judged i
    · have before : k < j := lt_of_le_of_ne (Fin.mk_le_mk.mpr (Nat.le_of_lt_succ upTo)) new
      rw [← pivoted_product kept before]
      apply Grid.product_congr
      intro row column left
      exact column_others (left.trans_lt before).ne
  pending := by
    intro i k later
    have behind : j < k := later
    rw [column_others behind.ne', pivoted_pending kept behind]
  pivot := by
    intro k upTo
    by_cases new : k = j
    · rw [new]
      exact column_pivot_ne_zero
    · have before : k < j := lt_of_le_of_ne (Fin.mk_le_mk.mpr (Nat.le_of_lt_succ upTo)) new
      rw [column_others new, pivoted_left k new, swap_early kept before]
      exact kept.pivot k before
  replaced := by
    intro k upTo zero
    by_cases new : k = j
    · subst new
      have none := judged.mp zero
      rw [column_pivot, if_pos none]
      refine ⟨rfl, fun i below => ?_⟩
      rw [column_entry, if_pos ⟨rfl, below⟩, pivoted_zero kept none below.le, zero_mul]
    · have before : k < j := lt_of_le_of_ne (Fin.mk_le_mk.mpr (Nat.le_of_lt_succ upTo)) new
      obtain ⟨pivot, under⟩ := kept.replaced k before zero
      rw [column_others new, pivoted_left k new, swap_early kept before]
      refine ⟨pivot, fun i below => ?_⟩
      rw [column_others new, pivoted_left i new]
      -- both exchanged rows lie below row `k`, so the zeros under its pivot stay under it
      apply under
      by_cases early : i < j
      · rw [swap_early kept early]
        exact below
      · exact before.trans_le (swap_late kept (not_lt.mp early))
  onward := by
    intro k upTo
    rw [column_pivots]
    by_cases new : k = j
    · subst new
      simpa using chosen_onward kept
    · simpa [new] using kept.onward k (by omega)
  parity := by
    have turned : (state.column j).parity =
        state.parity * ((Equiv.Perm.sign (Equiv.swap j (chosen state j)) : ℤ) : F) :=
      exchange_parity { state with factors := reduceColumn state.factors j } j (chosen state j)
    rw [turned, kept.parity, column_order, Equiv.Perm.sign_mul]
    push_cast
    rfl
  weighted := exchange_scale_pos kept.weighted

end Column

variable [IsStrictOrderedRing F]

/-- The columns are finished one after the other, from any positive weights. -/
theorem after_factored (matrix : Grid F n n) {scale : Vector F n}
    (weighted : ∀ i : Fin n, 0 < scale.get i) {count : ℕ} (inside : count ≤ n) :
    Factored matrix (Replaced matrix scale) count (after matrix scale count) := by
  induction count with
  | zero =>
    constructor
    · exact fun _ _ below => absurd below (Nat.not_lt_zero _)
    · exact fun _ _ _ => rfl
    · exact fun _ below => absurd below (Nat.not_lt_zero _)
    · exact fun _ below => absurd below (Nat.not_lt_zero _)
    · exact fun _ below => absurd below (Nat.not_lt_zero _)
    · simp [after, rowOrder]
    · exact weighted
  | succ count ih =>
    rw [after_succ matrix scale ⟨count, inside⟩]
    exact column_factored (j := ⟨count, inside⟩) (ih (Nat.le_of_succ_le inside)) Iff.rfl

theorem run_factored (matrix : Grid F n n) {scale : Vector F n}
    (weighted : ∀ i : Fin n, 0 < scale.get i) :
    Factored matrix (Replaced matrix scale) n (run matrix scale) := by
  rw [run_eq_after]
  exact after_factored matrix weighted le_rfl

/-! Weights of the rows. -/

omit [IsStrictOrderedRing F] in
theorem foldl_maxNum_bounds (entries : List F) (start : F) :
    start ≤ entries.foldl (fun largest x => maxNum largest (Scalar.abs x)) start ∧
    ∀ x ∈ entries, |x| ≤ entries.foldl (fun largest x => maxNum largest (Scalar.abs x)) start := by
  induction entries generalizing start with
  | nil => simp
  | cons entry rest ih =>
    simp only [List.foldl_cons, Exact.maxNum_eq, Exact.abs_eq] at ih ⊢
    obtain ⟨grows, bounds⟩ := ih (max start |entry|)
    refine ⟨(le_max_left _ _).trans grows, ?_⟩
    intro x member
    rcases List.mem_cons.mp member with rfl | member
    · exact (le_max_right _ _).trans grows
    · exact bounds x member

theorem weight?_pos {row : Vector F n} {j : Fin n} (nonzero : row.get j ≠ 0) :
    ∃ weight, weight? row = some weight ∧ 0 < weight := by
  have member : row.get j ∈ row.toList := Vector.mem_toList_iff.mpr (Vector.getElem_mem j.isLt)
  have bound := (foldl_maxNum_bounds row.toList 0).2 (row.get j) member
  rw [Vector.foldl_toList] at bound
  have positive := (abs_pos.mpr nonzero).trans_le bound
  refine ⟨_, ?_, one_div_pos.mpr positive⟩
  rw [weight?, if_neg]
  rw [Exact.isZero_iff]
  exact positive.ne'

theorem weights_ok {matrix : Grid F n n} (scale : Vector F n)
    (nonzero : ∀ i, ∃ j, matrix.entry i j ≠ 0) :
    ∃ weights, Elimination.weights matrix scale = .ok weights ∧
      ∀ i : Fin n, i < n → weight? (matrix.get i) = some (weights.get i) := by
  apply foldlM_ok fun count (weights : Vector F n) =>
    ∀ i : Fin n, i < count → weight? (matrix.get i) = some (weights.get i)
  · exact fun i below => absurd below (Nat.not_lt_zero i)
  · intro i weights kept
    obtain ⟨j, entry⟩ := nonzero i
    obtain ⟨weight, weighs, _⟩ := weight?_pos entry
    have weighed : weight? (matrix.get i) = some weight := weighs
    refine ⟨weights.set i weight i.isLt, by rw [weighed], ?_⟩
    intro row below
    by_cases same : row = i
    · subst same
      simpa using weighed
    · simpa [same] using kept row (by omega)

theorem weights_pos {matrix : Grid F n n} {weights : Vector F n}
    (nonzero : ∀ i, ∃ j, matrix.entry i j ≠ 0)
    (weighed : ∀ i : Fin n, i < n → weight? (matrix.get i) = some (weights.get i)) (i : Fin n) :
    0 < weights.get i := by
  obtain ⟨j, entry⟩ := nonzero i
  obtain ⟨weight, found, positive⟩ := weight?_pos entry
  have same : some (weights.get i) = some weight := (weighed i i.2).symm.trans found
  exact Option.some.inj same ▸ positive

end Elimination

end Descent

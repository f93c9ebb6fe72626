import Mathlib.LinearAlgebra.Matrix.NonsingularInverse
import Descent.Proofs.Factors

/-!
Solving with two triangles over exact numbers. The forward pass brings the right-hand side into
the order of the rows while it eliminates: positions it has passed hold the solution of the lower
triangle, and the others what is left of the right-hand side. Columns that it leaves out belong to
zeros. The backward pass solves the upper triangle from the last row on.
-/

namespace Descent

open Scalar Finset Matrix

namespace Factorization

variable {F : Type} [Field F] [LinearOrder F] [Exact F] {n : ℕ}
variable {factors : Grid F n n} {pivots : Vector (Fin n) n} {b : Vector F n}

theorem foldl_sub_if (count : ℕ) (counts : Fin count → Prop) [DecidablePred counts]
    (term : Fin count → F) (start : F) :
    Fin.foldl count (fun sum k => if counts k then sum - term k else sum) start =
      start - ∑ k, if counts k then term k else 0 := by
  rw [← foldl_sub]
  congr 1
  funext sum k
  by_cases taken : counts k <;> simp [taken]

/-! The forward pass. -/

/-- The first `count` positions hold the solution of the lower triangle, which begins with zeros,
and the others the right-hand side in the order of the rows. -/
structure Forwarded (factors : Grid F n n) (pivots : Vector (Fin n) n) (b : Vector F n)
    (count : ℕ) (state : Forward F n) : Prop where
  solved : ∀ i : Fin n, i < count →
    ∑ k ∈ Iio i, factors.entry i k * state.values.get k + state.values.get i =
      b.get (rowOrder pivots count i)
  pending : ∀ i : Fin n, count ≤ i → state.values.get i = b.get (rowOrder pivots count i)
  zeros : ∀ i : Fin n, i < count → (∀ start ∈ state.start, i < start) → state.values.get i = 0
  started : ∀ start ∈ state.start, start.val < count

variable {state : Forward F n} {i : Fin n}

theorem forwardRow_values (kept : Forwarded factors pivots b i state) (onward : i ≤ pivots.get i) :
    (forwardRow factors pivots state i).values =
      (state.values.set (pivots.get i) (state.values.get i) (pivots.get i).isLt).set i
        (state.values.get (pivots.get i) - ∑ k ∈ Iio i, factors.entry i k * state.values.get k)
        i.isLt := by
  cases begun : state.start with
  | none =>
    have none : ∑ k ∈ Iio i, factors.entry i k * state.values.get k = 0 := by
      apply Finset.sum_eq_zero
      intro k before
      have early : k < i := mem_Iio.mp before
      rw [kept.zeros k early (by simp [begun]), mul_zero]
    rw [none, sub_zero]
    simp only [forwardRow, begun]
  | some start =>
    have terms : ∑ k : Fin i, (if start ≤ ⟨k, k.2.trans i.2⟩ then
          factors.entry i ⟨k, k.2.trans i.2⟩ *
            (state.values.set (pivots.get i) (state.values.get i) (pivots.get i).isLt).get
              ⟨k, k.2.trans i.2⟩ else 0) =
        ∑ k ∈ Iio i, factors.entry i k * state.values.get k := by
      rw [← sum_iio]
      apply Finset.sum_congr rfl
      intro k _
      have early : (⟨k, k.2.trans i.2⟩ : Fin n) < pivots.get i := lt_of_lt_of_le k.2 onward
      by_cases taken : start ≤ ⟨k, k.2.trans i.2⟩
      · rw [if_pos taken, get_set, if_neg early.ne]
      · have zero := kept.zeros ⟨k, k.2.trans i.2⟩ k.2 fun first member => by
          rw [begun] at member
          obtain rfl := Option.some.inj member
          exact not_le.mp taken
        rw [if_neg taken, zero, mul_zero]
    simp only [forwardRow, begun]
    rw [foldl_sub_if, ← terms]

theorem forwardRow_start (state : Forward F n) :
    (forwardRow factors pivots state i).start =
      match state.start with
      | some start => some start
      | none => if state.values.get (pivots.get i) = 0 then none else some i := by
  cases begun : state.start with
  | none =>
    simp only [forwardRow, begun, Exact.isZero_iff]
  | some start => simp [forwardRow, begun]

theorem forwardRow_get (kept : Forwarded factors pivots b i state) (onward : i ≤ pivots.get i)
    (k : Fin n) : (forwardRow factors pivots state i).values.get k =
      if k = i then
        state.values.get (pivots.get i) - ∑ k ∈ Iio i, factors.entry i k * state.values.get k
      else state.values.get (Equiv.swap i (pivots.get i) k) := by
  rw [forwardRow_values kept onward, get_set, get_set]
  by_cases here : k = i
  · rw [if_pos here, if_pos here]
  · rw [if_neg here, if_neg here]
    by_cases there : k = pivots.get i
    · rw [if_pos there, there, Equiv.swap_apply_right]
    · rw [if_neg there, Equiv.swap_apply_of_ne_of_ne here there]

theorem forwardRow_forwarded (kept : Forwarded factors pivots b i state)
    (onward : i ≤ pivots.get i) :
    Forwarded factors pivots b (i + 1) (forwardRow factors pivots state i) := by
  have stays (k : Fin n) (early : k < i) : Equiv.swap i (pivots.get i) k = k :=
    Equiv.swap_apply_of_ne_of_ne early.ne (early.trans_le onward).ne
  have before (k : Fin n) (early : k < i) :
      (forwardRow factors pivots state i).values.get k = state.values.get k := by
    rw [forwardRow_get kept onward, if_neg early.ne, stays k early]
  have terms (row : Fin n) (upTo : row ≤ i) :
      ∑ k ∈ Iio row, factors.entry row k * (forwardRow factors pivots state i).values.get k =
        ∑ k ∈ Iio row, factors.entry row k * state.values.get k := by
    apply Finset.sum_congr rfl
    intro k early
    rw [before k ((mem_Iio.mp early).trans_le upTo)]
  constructor
  · intro row upTo
    rw [rowOrder_succ, Equiv.Perm.mul_apply]
    -- the row takes its value from where the interchange left it, a position not yet passed
    by_cases last : row = i
    · subst last
      rw [terms row le_rfl, forwardRow_get kept onward, if_pos rfl, add_sub_cancel,
        kept.pending (pivots.get row) onward, Equiv.swap_apply_left]
    · have early : row < i := by omega
      rw [terms row early.le, before row early, stays row early]
      exact kept.solved row early
  · intro row late
    have behind : i < row := late
    have rows : i ≤ Equiv.swap i (pivots.get i) row := by
      by_cases there : row = pivots.get i
      · rw [there, Equiv.swap_apply_right]
      · rw [Equiv.swap_apply_of_ne_of_ne behind.ne' there]
        exact behind.le
    rw [rowOrder_succ, Equiv.Perm.mul_apply, forwardRow_get kept onward, if_neg behind.ne',
      kept.pending _ rows]
  · intro row upTo early
    rw [forwardRow_start] at early
    cases begun : state.start with
    | none =>
      have zeros (k : Fin n) (earlier : k < i) : state.values.get k = 0 :=
        kept.zeros k earlier (by simp [begun])
      by_cases last : row = i
      · subst last
        have none : ∑ k ∈ Iio row, factors.entry row k * state.values.get k = 0 := by
          apply Finset.sum_eq_zero
          intro k earlier
          rw [zeros k (mem_Iio.mp earlier), mul_zero]
        rw [forwardRow_get kept onward, if_pos rfl, none, sub_zero]
        apply Classical.byContradiction
        intro nonzero
        simp only [begun, if_neg nonzero] at early
        exact lt_irrefl row (early row rfl)
      · have earlier : row < i := by omega
        rw [before row earlier, zeros row earlier]
    | some start =>
      simp only [begun] at early
      have first : row < start := early start rfl
      have earlier : row < i := first.trans (kept.started start begun)
      rw [before row earlier]
      apply kept.zeros row earlier
      simpa [begun] using first
  · intro start member
    rw [forwardRow_start] at member
    cases begun : state.start with
    | none =>
      simp only [begun] at member
      split at member
      · simp at member
      · obtain rfl : i = start := by simpa using member
        exact Nat.lt_succ_self i
    | some first =>
      simp only [begun] at member
      obtain rfl : first = start := by simpa using member
      exact (kept.started first begun).trans (Nat.lt_succ_self i)

theorem forwarded_start : Forwarded factors pivots b 0 { values := b, start := none } where
  solved _ below := absurd below (Nat.not_lt_zero _)
  pending _ _ := rfl
  zeros _ below := absurd below (Nat.not_lt_zero _)
  started := by simp

theorem forward_forwarded (onward : ∀ i : Fin n, i ≤ pivots.get i) :
    Forwarded factors pivots b n
      (Fin.foldl n (forwardRow factors pivots) { values := b, start := none }) := by
  apply foldl_invariant (Forwarded factors pivots b) forwarded_start
  intro i state kept
  exact forwardRow_forwarded kept (onward i)

/-! The backward pass. -/

/-- Positions from `count` on hold the solution of the upper triangle, the others its right-hand
side. -/
structure Backwarded (factors : Grid F n n) (rhs : Vector F n) (count : ℕ) (values : Vector F n) :
    Prop where
  solved : ∀ i : Fin n, count ≤ i → ∑ k ∈ Ici i, factors.entry i k * values.get k = rhs.get i
  pending : ∀ i : Fin n, i < count → values.get i = rhs.get i

variable {rhs values : Vector F n}

theorem backwardRow_eq (factors : Grid F n n) (i : Fin n) (values : Vector F n) :
    backwardRow factors i values = values.set i
      ((values.get i - ∑ k ∈ Ioi i, factors.entry i k * values.get k) / factors.entry i i)
      i.isLt := by
  have terms : ∑ k, (if i < k then factors.entry i k * values.get k else 0) =
      ∑ k ∈ Ioi i, factors.entry i k * values.get k := by
    rw [← Finset.sum_filter]
    congr 1
    ext k
    simp
  rw [← terms, ← foldl_sub_if]
  rfl

theorem backwardRow_backwarded (nonzero : factors.entry i i ≠ 0)
    (kept : Backwarded factors rhs (i + 1) values) :
    Backwarded factors rhs i (backwardRow factors i values) := by
  rw [backwardRow_eq]
  constructor
  · intro row onward
    -- the sum reads this row and later ones
    by_cases here : row = i
    · subst here
      have terms : ∑ k ∈ Ioi row, factors.entry row k * (values.set row
            ((values.get row - ∑ k ∈ Ioi row, factors.entry row k * values.get k) /
              factors.entry row row) row.isLt).get k =
          ∑ k ∈ Ioi row, factors.entry row k * values.get k := by
        apply Finset.sum_congr rfl
        intro k later
        rw [get_set, if_neg (mem_Ioi.mp later).ne']
      rw [← Finset.Ioi_insert, Finset.sum_insert (by simp), terms, get_set,
        if_pos rfl, mul_div_cancel₀ _ nonzero, sub_add_cancel]
      exact kept.pending row (Nat.lt_succ_self row)
    · have later : i < row := by omega
      have terms : ∑ k ∈ Ici row, factors.entry row k * (values.set i
            ((values.get i - ∑ k ∈ Ioi i, factors.entry i k * values.get k) /
              factors.entry i i) i.isLt).get k =
          ∑ k ∈ Ici row, factors.entry row k * values.get k := by
        apply Finset.sum_congr rfl
        intro k further
        rw [get_set, if_neg (later.trans_le (mem_Ici.mp further)).ne']
      rw [terms]
      exact kept.solved row later
  · intro row before
    have early : row < i := before
    rw [get_set, if_neg early.ne]
    exact kept.pending row (before.trans (Nat.lt_succ_self i))

theorem backward_backwarded (nonzero : ∀ i, factors.entry i i ≠ 0) :
    Backwarded factors rhs 0 (Fin.foldr n (backwardRow factors) rhs) := by
  apply foldr_invariant (Backwarded factors rhs)
  · constructor
    · exact fun i late => absurd i.2 (not_lt.mpr late)
    · exact fun _ _ => rfl
  · intro i values kept
    exact backwardRow_backwarded (nonzero i) kept

/-! Both passes. -/

/-- The point found solves the two triangles for the right-hand side in the order of the rows. -/
theorem mulVec_substitute (nonzero : ∀ i, factors.entry i i ≠ 0)
    (onward : ∀ i : Fin n, i ≤ pivots.get i) (b : Vector F n) :
    factors.lower *ᵥ (factors.upper *ᵥ (substitute factors pivots b).get) =
      b.get ∘ rowOrder pivots n := by
  have forward : Forwarded factors pivots b n _ := forward_forwarded onward
  have backward (i : Fin n) : (factors.upper *ᵥ (substitute factors pivots b).get) i =
      (Fin.foldl n (forwardRow factors pivots) { values := b, start := none }).values.get i := by
    rw [Grid.upper_mulVec]
    exact (backward_backwarded nonzero).solved i (Nat.zero_le i)
  funext i
  rw [Grid.lower_mulVec, funext backward]
  exact forward.solved i i.2

variable [IsStrictOrderedRing F] {matrix : Grid F n n}

theorem ofMatrix_factored (nonsingular : matrix.toMatrix.det ≠ 0) :
    ∃ lu, ofMatrix matrix = .ok lu ∧
      lu.factors.lower * lu.factors.upper =
        (rowOrder lu.pivots n).permMatrix F * matrix.toMatrix ∧
      (∀ i, lu.factors.entry i i ≠ 0) ∧ ∀ i : Fin n, i ≤ lu.pivots.get i := by
  obtain ⟨weights, -, done, -, factored⟩ := Elimination.decompose_factored
    { matrix, scale := Kernel.zeros n, permutation := Vector.replicate n 0 }
    (Grid.exists_entry_ne_zero nonsingular)
  have kept (j : Fin n) := Elimination.not_replaced done nonsingular j
  have marks : Elimination.marks F (Elimination.Replaced matrix weights) = 0 := by
    simp [Elimination.marks, kept]
  have product := Elimination.lower_mul_upper_eq done
  rw [marks, smul_zero, add_zero] at product
  exact ⟨_, factored, product, fun i => done.pivot i i.2, fun i => done.onward i i.2⟩

theorem mulVec_solve {lu : Factorization F n} (nonsingular : matrix.toMatrix.det ≠ 0)
    (factored : ofMatrix matrix = .ok lu) (b : Vector F n) :
    matrix.toMatrix *ᵥ (lu.solve b).get = b.get := by
  obtain ⟨found, same, product, nonzero, onward⟩ := ofMatrix_factored nonsingular
  obtain rfl : lu = found := Except.ok.inj (factored.symm.trans same)
  have ordered : (rowOrder lu.pivots n).permMatrix F *ᵥ (matrix.toMatrix *ᵥ (lu.solve b).get) =
      b.get ∘ rowOrder lu.pivots n := by
    rw [Matrix.mulVec_mulVec, ← product, ← Matrix.mulVec_mulVec]
    exact mulVec_substitute nonzero onward b
  rw [Matrix.permMatrix_mulVec] at ordered
  exact (rowOrder lu.pivots n).surjective.injective_comp_right ordered

/-- A nonsingular matrix is factored once, and every right-hand side of its size is solved against
the factors. -/
theorem ofMatrix_solves (nonsingular : matrix.toMatrix.det ≠ 0) :
    ∃ lu, ofMatrix matrix = .ok lu ∧ ∀ b : Vector F n,
      lu.solveChecked b.toArray = .ok (lu.solve b).toArray ∧
        matrix.toMatrix *ᵥ (lu.solve b).get = b.get := by
  obtain ⟨lu, factored, -⟩ := ofMatrix_factored nonsingular
  refine ⟨lu, factored, fun b => ⟨?_, mulVec_solve nonsingular factored b⟩⟩
  rw [solveChecked, dif_pos b.size_toArray]

/-- The first pivot is in the last row, and the other two rows are interchanged in turn. -/
def lastRowFirst : Grid ℚ 3 3 := #v[#v[0, 2, 0], #v[0, 1, 3], #v[4, 1, 1]]

theorem ofMatrix_solves_lastRowFirst : lastRowFirst.toMatrix.det ≠ 0 ∧
    (ofMatrix lastRowFirst).map (fun lu => (lu.pivots, lu.solve #v[2, 4, 0])) =
      .ok (#v[2, 2, 2], #v[-1 / 2, 1, 1]) ∧
    ∃ lu, ofMatrix lastRowFirst = .ok lu ∧ ∀ b : Vector ℚ 3,
      lu.solveChecked b.toArray = .ok (lu.solve b).toArray ∧
        lastRowFirst.toMatrix *ᵥ (lu.solve b).get = b.get := by
  have nonsingular : lastRowFirst.toMatrix.det ≠ 0 := by
    rw [Matrix.det_fin_three]
    decide +kernel
  exact ⟨nonsingular, by decide +kernel, ofMatrix_solves nonsingular⟩

end Factorization

end Descent

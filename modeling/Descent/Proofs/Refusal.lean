import Descent.Factorization
import Descent.Proofs.Binary
import Descent.Proofs.Exact

/-!
What a factorization refuses. The largest magnitude of a row passes over undefined entries, so a
row has no weight exactly if all its defined entries are zero. The rows are weighed before any
entry is touched: a refusal leaves the matrix and the interchanges as they were, and has written
the weights of the rows before the first one without any.
-/

namespace Descent

open Scalar

/-- No entry of the row is both defined and different from zero. -/
def Grid.Blank {F : Type} [Scalar F] {m n : Nat} (a : Grid F m n) (i : Fin m) : Prop :=
  ∀ j, isZero (a.entry i j) = true ∨ isNaN (a.entry i j) = true

instance {F : Type} [Scalar F] {m n : Nat} (a : Grid F m n) (i : Fin m) : Decidable (a.Blank i) :=
  inferInstanceAs (Decidable (∀ _, _))

namespace Elimination

section Weights

variable {F : Type} [Unbounded F] [Lawful F] [Magnitudes F] {n : Nat}

theorem not_above_zero_iff (x : F) :
    (Scalar.abs x ≤ Scalar.abs x → Scalar.abs x ≤ 0) ↔ isZero x = true ∨ isNaN x = true := by
  rw [Lawful.abs_defined_iff, Magnitudes.abs_le_zero_iff, ← Lawful.isNaN_eq_false_iff]
  cases isNaN x <;> simp

theorem weight?_eq_none_iff (row : Vector F n) :
    weight? row = none ↔ ∀ j, isZero (row.get j) = true ∨ isNaN (row.get j) = true := by
  have zero : (0 : F) ≤ 0 := Lawful.zero_defined
  have folded : row.foldl (fun largest x => maxNum largest (Scalar.abs x)) 0 =
      (row.toList.map Scalar.abs).foldl maxNum 0 := by
    rw [List.foldl_map, Vector.foldl_toList]
  have least := ((foldl_maxNum_le_iff (row.toList.map Scalar.abs) zero).mp
    (foldl_maxNum_defined _ zero)).1
  have level : isZero ((row.toList.map Scalar.abs).foldl maxNum 0) = true ↔
      ∀ x ∈ row.toList, isZero x = true ∨ isNaN x = true := by
    rw [isZero, Lawful.beq_iff, and_iff_left least, foldl_maxNum_le_iff _ zero, and_iff_right zero,
      List.forall_mem_map]
    exact forall₂_congr fun x _ => not_above_zero_iff x
  rw [weight?, folded]
  simp only [ite_eq_left_iff, reduceCtorEq, imp_false, not_not]
  rw [level]
  constructor
  · intro all j
    exact all _ (Vector.mem_toList_iff.mpr (Vector.getElem_mem j.isLt))
  · intro all x member
    obtain ⟨j, inside, rfl⟩ := Vector.getElem_of_mem (Vector.mem_toList_iff.mp member)
    exact all ⟨j, inside⟩

end Weights

/-- The weights of the first `count` rows are written, the other places are as they were. -/
structure Weighed {F : Type} [Scalar F] {n : Nat} (matrix : Grid F n n) (before : Vector F n)
    (count : Nat) (scale : Vector F n) : Prop where
  written : ∀ i : Fin n, i < count → weight? (matrix.get i) = some (scale.get i)
  kept : ∀ i : Fin n, count ≤ i → scale.get i = before.get i

section Loop

variable {F : Type} [Scalar F] {n : Nat} {matrix : Grid F n n} {before weights : Vector F n}

theorem Weighed.write {i : Fin n} {weight : F} (weighed : Weighed matrix before i weights)
    (weighs : weight? (matrix.get i) = some weight) :
    Weighed matrix before (i + 1) (weights.set i weight i.isLt) where
  written := by
    intro row below
    by_cases same : row = i
    · subst same
      simpa using weighs
    · simpa [same] using weighed.written row (by omega)
  kept := by
    intro row late
    have other : row ≠ i := by omega
    simpa [other] using weighed.kept row (by omega)

def weigh (matrix : Grid F n n) (weights : Vector F n) (i : Fin n) :
    Except (Vector F n) (Vector F n) :=
  match weight? (matrix.get i) with
  | some weight => .ok (weights.set i weight i.isLt)
  | none => .error weights

theorem weigh_cases (matrix : Grid F n n) (weights : Vector F n) (i : Fin n) :
    (∃ weight, weight? (matrix.get i) = some weight ∧
      weigh matrix weights i = .ok (weights.set i weight i.isLt)) ∨
    weight? (matrix.get i) = none ∧ weigh matrix weights i = .error weights := by
  unfold weigh
  cases weight? (matrix.get i) with
  | some weight => exact .inl ⟨weight, rfl, rfl⟩
  | none => exact .inr ⟨rfl, rfl⟩

/-- All rows are weighed, or those before the first one that has no weight. -/
theorem weights_cases (matrix : Grid F n n) (scale : Vector F n) :
    (∃ weights, Elimination.weights matrix scale = .ok weights ∧
      Weighed matrix scale n weights) ∨
    ∃ (first : Fin n) (weights : Vector F n), Elimination.weights matrix scale = .error weights ∧
      weight? (matrix.get first) = none ∧ Weighed matrix scale first weights := by
  have begins : Weighed matrix scale 0 scale :=
    ⟨fun i below => absurd below (Nat.not_lt_zero i), fun _ _ => rfl⟩
  have goesOn (i : Fin n) (weights next : Vector F n) (weighed : Weighed matrix scale i weights)
      (weighs : weigh matrix weights i = .ok next) : Weighed matrix scale (i + 1) next := by
    rcases weigh_cases matrix weights i with ⟨weight, found, written⟩ | ⟨_, refused⟩
    · obtain rfl := Except.ok.inj (written.symm.trans weighs)
      exact weighed.write found
    · exact nomatch refused.symm.trans weighs
  rcases foldlM_cases (Weighed matrix scale) begins goesOn with
    completed | ⟨first, weights, left, weighed, fails, stopped⟩
  · exact .inl completed
  · right
    rcases weigh_cases matrix weights first with ⟨weight, _, written⟩ | ⟨none, refused⟩
    · exact nomatch written.symm.trans fails
    · obtain rfl := Except.error.inj (refused.symm.trans fails)
      exact ⟨first, weights, stopped, none, weighed⟩

end Loop

theorem Weighed.not_blank {F : Type} [Unbounded F] [Lawful F] [Magnitudes F] {n count : Nat}
    {matrix : Grid F n n} {before scale : Vector F n} (weighed : Weighed matrix before count scale)
    {i : Fin n} (below : i < count) : ¬ matrix.Blank i := by
  intro blank
  have weighs := weighed.written i below
  rw [(weight?_eq_none_iff _).mpr blank] at weighs
  exact absurd weighs.symm (Option.some_ne_none _)

end Elimination

namespace Workspace

variable {F : Type} [Unbounded F] {n : Nat}

/-- What a refusal leaves, if `first` is the first row that cannot be weighed. -/
structure Refused (work left : Workspace F n) (first : Fin n) : Prop where
  blank : work.matrix.Blank first
  earlier : ∀ i < first, ¬ work.matrix.Blank i
  matrix : left.matrix = work.matrix
  permutation : left.permutation = work.permutation
  weighed : Elimination.Weighed work.matrix work.scale first left.scale

/-- A matrix is singular exactly if it has a blank row, and then nothing but the weights of the
rows before is written. -/
theorem decompose_refuses [Lawful F] [Magnitudes F] (work : Workspace F n) :
    (work.decompose.1 = .error .singular ↔ ∃ i, work.matrix.Blank i) ∧
    ∀ failure, work.decompose.1 = .error failure →
      failure = .singular ∧ ∃ first, work.Refused work.decompose.2 first := by
  rcases Elimination.weights_cases work.matrix work.scale with
    ⟨weights, found, weighed⟩ | ⟨first, weights, found, none, weighed⟩
  · have accepted : work.decompose.1 = .ok (Elimination.run work.matrix weights).parity := by
      rw [decompose, found]
    rw [accepted]
    refine ⟨⟨fun impossible => ?_, fun ⟨i, blank⟩ => absurd blank (weighed.not_blank i.isLt)⟩, ?_⟩
    · exact nomatch impossible
    · exact fun _ impossible => nomatch impossible
  · have refused : work.decompose = (.error .singular, { work with scale := weights }) := by
      rw [decompose, found]
    have blank : work.matrix.Blank first := (Elimination.weight?_eq_none_iff _).mp none
    rw [refused]
    refine ⟨⟨fun _ => ⟨first, blank⟩, fun _ => rfl⟩, ?_⟩
    intro failure same
    exact ⟨(Except.error.inj same).symm, first, blank, fun _ => weighed.not_blank, rfl, rfl,
      weighed⟩

/-- The second row has an undefined entry and a zero with a minus sign. -/
def undefinedRow : Workspace Float 3 where
  matrix := #v[#v[0 / 0, -4, 2], #v[0 / 0, -0, 0], #v[0, 0, 0]]
  scale := #v[7, 8, 9]
  permutation := #v[5, 6, 7]

theorem decompose_refuses_undefinedRow :
    undefinedRow.decompose.1 = .error .singular ∧
      (undefinedRow.decompose.1 = .error .singular ↔ ∃ i, undefinedRow.matrix.Blank i) ∧
      undefinedRow.Refused undefinedRow.decompose.2 1 ∧
      undefinedRow.decompose.2.scale = #v[1 / 4, 8, 9] := by
  have singular : undefinedRow.decompose.1 = .error .singular := by decide +kernel
  obtain ⟨refuses, leaves⟩ := decompose_refuses undefinedRow
  obtain ⟨_, first, refused⟩ := leaves _ singular
  have blank : undefinedRow.matrix.Blank 1 := by decide +kernel
  have full : ¬ undefinedRow.matrix.Blank 0 := by decide +kernel
  have upTo : ¬ 1 < first := fun before => refused.earlier 1 before blank
  have onward : first ≠ 0 := fun same => full (same ▸ refused.blank)
  obtain rfl : first = 1 := by omega
  exact ⟨singular, refuses, refused, by decide +kernel⟩

end Workspace

end Descent

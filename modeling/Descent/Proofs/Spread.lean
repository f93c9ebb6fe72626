import Mathlib.Data.List.Perm.Basic
import Descent.Parallel
import Descent.Proofs.Lawful

/-!
Spreading an operation over tasks changes nothing but the grouping of sums. The spans of a cut
cover every index once, so the entries written by all tasks together are those of one loop, and
every slot of a reduction is stored once, whatever the order of the runner.
-/

namespace Descent

theorem Span.cut_indices (start rest count : Nat) (some : 0 < count) :
    (Span.cut start rest count).flatMap Span.indices = List.range' start rest := by
  induction count generalizing start rest with
  | zero => exact absurd some (Nat.lt_irrefl 0)
  | succ count ih =>
    have atMost : rest / (count + 1) ≤ rest := Nat.div_le_self _ _
    have first : (⟨start, start + rest / (count + 1)⟩ : Span).indices =
        List.range' start (rest / (count + 1)) := by
      rw [Span.indices, Span.size, Nat.add_sub_cancel_left]
    rw [Span.cut, List.flatMap_cons, first]
    cases count with
    | zero => simp [Span.cut]
    | succ count =>
      rw [ih _ _ (Nat.succ_pos count), List.range'_append_1, Nat.add_sub_cancel' atMost]

namespace Span

variable {F : Type} {n : Nat}

def write (entry : Fin n → F → F) (v : Vector F n) (index : Nat) : Vector F n :=
  if inside : index < n then v.set index (entry ⟨index, inside⟩ v[index]) else v

theorem assign_eq_foldl (span : Span) (entry : Fin n → F → F) (v : Vector F n) :
    span.assign entry v = span.indices.foldl (write entry) v := rfl

theorem write_get (entry : Fin n → F → F) (v : Vector F n) (index : Nat) (i : Fin n) :
    (write entry v index).get i = if i.1 = index then entry i (v.get i) else v.get i := by
  unfold write
  by_cases inside : index < n
  · rw [dif_pos inside]
    by_cases same : i.1 = index
    · subst same
      rw [if_pos rfl]
      exact Vector.getElem_set_self inside
    · rw [if_neg same]
      exact Vector.getElem_set_ne inside i.isLt (Ne.symm same)
  · have other : i.1 ≠ index := by omega
    rw [dif_neg inside, if_neg other]

theorem foldl_write_get (entry : Fin n → F → F) (indices : List Nat)
    (distinct : indices.Nodup) (v : Vector F n) (i : Fin n) :
    (indices.foldl (write entry) v).get i =
      if i.1 ∈ indices then entry i (v.get i) else v.get i := by
  induction indices generalizing v with
  | nil => simp
  | cons index rest ih =>
    obtain ⟨absent, distinct⟩ := List.nodup_cons.mp distinct
    rw [List.foldl_cons, ih distinct, write_get]
    by_cases same : i.1 = index
    · subst same
      simp [absent]
    · simp [same]

end Span

theorem flatMap_range_getElem? {A B : Type} (parts : List A) (items : A → List B) :
    ((List.range parts.length).flatMap fun index => (parts[index]?.map items).getD []) =
      parts.flatMap items := by
  induction parts with
  | nil => rfl
  | cons part rest ih =>
    rw [List.length_cons, List.range_succ_eq_map, List.flatMap_cons, List.flatMap_map,
      List.flatMap_cons, ← ih]
    rfl

namespace Context

variable {F : Type} [Scalar F] {n : Nat}

/-- In some order of the spans, their entries are written one after the other. -/
theorem spread_eq_foldl (context : Context) (runner : Runner) (update : Update (Vector F n) F)
    (target : Vector F n) :
    ∃ order : List Nat, order.Perm (List.range context.spans.length) ∧
      context.spread runner update target =
        (order.flatMap fun index => (context.spans[index]?.map Span.indices).getD []).foldl
          (Span.write update.entry) target := by
  let tasks := context.spans.toArray.map fun span => span.assign update.entry
  have size : tasks.size = context.spans.length := by simp [tasks]
  refine ⟨runner.order update.operation tasks target, ?_, ?_⟩
  · rw [← size]
    exact runner.complete update.operation tasks target
  · rw [List.foldl_flatMap, spread, Runner.run]
    congr 1
    funext v index
    cases found : context.spans[index]? with
    | none => simp [found]
    | some span => simp [found, Span.assign_eq_foldl]

/-- An assignment by tasks writes what the assignment itself writes. -/
theorem spread_eq_apply (context : Context) (runner : Runner) (some : 0 < context.threads)
    (update : Update (Vector F context.length) F) (target : Vector F context.length) :
    context.spread runner update target = update.apply target := by
  obtain ⟨order, complete, spread⟩ := context.spread_eq_foldl runner update target
  have once : (order.flatMap fun index =>
      (context.spans[index]?.map Span.indices).getD []).Perm (List.range' 0 context.length) := by
    rw [← Span.cut_indices 0 context.length context.threads some]
    exact (complete.flatMap_right _).trans
      (List.Perm.of_eq (flatMap_range_getElem? context.spans Span.indices))
  have distinct := once.nodup_iff.mpr List.nodup_range'
  apply Vector.ext
  intro i inside
  have named := once.mem_iff.mpr (List.mem_range'_1.mpr ⟨Nat.zero_le i, by omega⟩)
  have written := Span.foldl_write_get update.entry _ distinct target ⟨i, inside⟩
  rw [if_pos named] at written
  rw [spread, Update.apply, Vector.getElem_ofFn]
  exact written

omit [Scalar F] in
-- Every slot is stored once, so the order of the stores does not show.
theorem foldl_store_getElem? (parts : List F) (order : List Nat) (distinct : order.Nodup)
    (slots : Array F) (size : slots.size = parts.length) (i : Nat) :
    (order.foldl (fun slots index => match parts[index]? with
      | some part => slots.setIfInBounds index part
      | none => slots) slots)[i]? = if i ∈ order then parts[i]? else slots[i]? := by
  induction order generalizing slots with
  | nil => simp
  | cons index rest ih =>
    obtain ⟨absent, distinct⟩ := List.nodup_cons.mp distinct
    rw [List.foldl_cons]
    cases found : parts[index]? with
    | none =>
      rw [ih distinct slots size]
      by_cases same : i = index
      · subst same
        have outside : parts.length ≤ i := List.getElem?_eq_none_iff.mp found
        have beyond : slots[i]? = none := Array.getElem?_eq_none (by omega)
        simp [absent, found, beyond]
      · simp [same]
    | some part =>
      rw [ih distinct _ (by simpa using size), Array.getElem?_setIfInBounds]
      by_cases same : i = index
      · subst same
        obtain ⟨inside, stored⟩ := List.getElem?_eq_some_iff.mp found
        simp [absent, size, inside, stored]
      · simp [same, Ne.symm same]

/-- A reduction adds the parts in span order. -/
theorem reduce_eq_foldl (context : Context) (runner : Runner) (operation : Operation)
    (part : Span → F) :
    context.reduce runner operation part = (context.spans.map part).foldl (· + ·) 0 := by
  let tasks := context.spans.toArray.mapIdx fun slot span (slots : Array F) =>
    slots.setIfInBounds slot (part span)
  have size : tasks.size = context.spans.length := by simp [tasks]
  have once := runner.complete operation tasks (Array.replicate context.spans.length 0)
  rw [size] at once
  have slots : runner.run operation tasks (Array.replicate context.spans.length 0) =
      (context.spans.map part).toArray := by
    rw [Runner.run]
    apply Array.ext_getElem?
    intro i
    have stored := foldl_store_getElem? (context.spans.map part) _
      (once.nodup_iff.mpr List.nodup_range) (Array.replicate context.spans.length 0)
      (by simp) i
    refine Eq.trans ?_ (stored.trans ?_)
    · congr 2
      funext slots index
      cases found : context.spans[index]? <;> simp [tasks, found]
    · refine Eq.trans ?_ List.getElem?_toArray.symm
      by_cases inside : i < context.spans.length
      · exact if_pos (once.mem_iff.mpr (List.mem_range.mpr inside))
      · have beyond : context.spans.length ≤ i := Nat.le_of_not_lt inside
        simp [beyond]
  change (runner.run operation tasks (Array.replicate tasks.size 0)).foldl (· + ·) 0 = _
  rw [size, slots, List.foldl_toArray]

end Context

/-! Squares of norms. Only the squares of the entries count. -/

section Squares

variable {F : Type} [Scalar F] {n : Nat}

def squares (v : Vector F n) : Vector F n := v.map fun x => x * x

theorem slice_squares (span : Span) (v : Vector F n) :
    squares (span.slice v) = span.slice (squares v) := by
  apply Vector.ext
  intro i inside
  simp [squares, Span.slice]

theorem spreadNormSquared_eq_foldl (context : Context) (runner : Runner) (v : Vector F n) :
    context.spreadNormSquared runner v =
      (context.spans.map fun span => Kernel.sum (span.slice (squares v))).foldl (· + ·) 0 := by
  rw [Context.spreadNormSquared, Context.reduce_eq_foldl]
  congr 2
  funext span
  exact congrArg Kernel.sum (slice_squares span v)

namespace Kernels

theorem shared_normSquared_congr (threads : Nat) (runner : Runner) {u v : Vector F n}
    (same : squares u = squares v) :
    (Kernels.shared F n threads runner).normSquared u =
      (Kernels.shared F n threads runner).normSquared v := by
  simp only [shared]
  split
  · exact congrArg Kernel.sum same
  · refine (spreadNormSquared_eq_foldl _ runner u).trans ?_
    rw [same]
    exact (spreadNormSquared_eq_foldl _ runner v).symm

theorem shared_update (threads : Nat) (runner : Runner) (some : 0 < threads) :
    (Kernels.shared F n threads runner).update = Update.apply := by
  simp only [shared]
  split
  · rfl
  · funext update target
    exact Context.spread_eq_apply { threads, length := n } runner some update target

end Kernels

end Squares

section Laws

variable {F : Type} [Unbounded F] [Lawful F] {n : Nat}

theorem squares_turned (v : Vector F n) :
    squares ((Update.scale (-1) : Update (Vector F n) F).apply v) = squares v := by
  apply Vector.ext
  intro i inside
  simp only [squares, Update.apply, Update.entry, Vector.getElem_map, Vector.getElem_ofFn]
  exact Lawful.square_neg v[i]

theorem foldl_zeros (parts : List F) (none : ∀ part ∈ parts, part = 0) :
    parts.foldl (· + ·) 0 = 0 := by
  induction parts with
  | nil => rfl
  | cons part rest ih =>
    rw [List.foldl_cons, none part List.mem_cons_self, Lawful.zero_add_zero]
    exact ih fun other member => none other (List.mem_cons_of_mem _ member)

theorem sum_zeros (v : Vector F n) (none : ∀ x ∈ v, x = 0) : Kernel.sum v = 0 := by
  have entries : ∀ x ∈ v.toList, x = 0 := fun x member => none x (by simpa using member)
  rw [Kernel.sum, ← Vector.foldl_toList]
  exact foldl_zeros v.toList entries

theorem Kernels.shared_normSquared_zeros (threads : Nat) (runner : Runner) :
    (Kernels.shared F n threads runner).normSquared (Kernel.zeros n) = 0 := by
  have none : ∀ x ∈ squares (Kernel.zeros n : Vector F n), x = 0 := by
    intro x member
    simp [squares, Kernel.zeros, Lawful.zero_mul_zero] at member
    exact member.2
  simp only [shared]
  split
  · exact sum_zeros _ none
  · refine (spreadNormSquared_eq_foldl _ runner _).trans (foldl_zeros _ ?_)
    intro part member
    obtain ⟨span, _, rfl⟩ := List.mem_map.mp member
    apply sum_zeros
    intro x member
    obtain ⟨i, inside, rfl⟩ := Vector.getElem_of_mem member
    rw [Span.slice, Vector.getElem_extract]
    exact none _ (Vector.getElem_mem _)

theorem Kernels.shared_normSquared_turned (threads : Nat) (runner : Runner) (some : 0 < threads)
    (v : Vector F n) :
    (Kernels.shared F n threads runner).normSquared
        ((Kernels.shared F n threads runner).update (.scale (-1)) v) =
      (Kernels.shared F n threads runner).normSquared v := by
  rw [Kernels.shared_update threads runner some]
  exact Kernels.shared_normSquared_congr threads runner (squares_turned v)

end Laws

end Descent

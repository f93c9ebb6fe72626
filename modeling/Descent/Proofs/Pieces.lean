import Descent.Proofs.Threads

/-!
Vector operations by tasks are the serial ones on pieces. The target is cut by taking as many
entries off its front as each span has, the operands are read between the ends of the span; both
cuts meet, so every task works on corresponding entries, and the pieces together are the whole.
Reductions add what the serial ones find on the pieces, in the order of the spans.
-/

namespace Descent

open Scalar

/-! Two ways to cut. -/

namespace Span

variable {A : Type}

def part (span : Span) (items : Array A) : Array A := items.extract span.start span.stop

def split : List Span → Array A → List (Array A)
  | [], _ => []
  | span :: rest, items =>
      items.extract 0 span.size :: split rest (items.extract span.size items.size)

-- The front moves on by the size of a span, which is where the next span starts.
theorem split_cut (items : Array A) (start rest count : Nat)
    (inside : start + rest ≤ items.size) :
    split (cut start rest count) (items.extract start items.size) =
      (cut start rest count).map (·.part items) := by
  induction count generalizing start rest with
  | zero => rfl
  | succ count ih =>
    have atMost : rest / (count + 1) ≤ rest := Nat.div_le_self _ _
    have onward : start + rest / (count + 1) + (rest - rest / (count + 1)) ≤ items.size := by
      omega
    have size : (⟨start, start + rest / (count + 1)⟩ : Span).size = rest / (count + 1) :=
      Nat.add_sub_cancel_left _ _
    rw [cut, split, List.map_cons, size, Array.extract_extract, ← ih _ _ onward]
    congr 1
    · rw [part, Nat.add_zero, Nat.min_eq_left (by omega)]
    · congr 1
      rw [Array.extract_extract, Array.size_extract]
      congr 1
      omega

end Span

namespace Update

variable {V W F : Type} {n : Nat}

def map (f : V → W) : Update V F → Update W F
  | zero => zero
  | copy u => copy (f u)
  | scale r => scale r
  | addScaled u r => addScaled (f u) r
  | addTwoScaled u r v s => addTwoScaled (f u) r (f v) s
  | addThreeScaled u r v s w t => addThreeScaled (f u) r (f v) s (f w) t
  | multiply u => multiply (f u)
  | divide u => divide (f u)

theorem map_map {X : Type} (g : W → X) (f : V → W) (update : Update V F) :
    (update.map f).map g = update.map (g ∘ f) := by
  cases update <;> rfl

theorem operands_map (f : V → W) (update : Update V F) :
    (update.map f).operands = update.operands.map f := by
  cases update <;> rfl

theorem convert_map {fit : W → Except Fault V} {f : V → W} (fits : ∀ u, fit (f u) = .ok u)
    (update : Update V F) : (update.map f).convert fit = .ok update := by
  cases update <;> simp only [map, convert, fits] <;> rfl

theorem exactly_toArray (u : Vector F n) : exactly n u.toArray = .ok u := by
  rw [exactly, dif_pos u.size_toArray]

variable [Scalar F]

theorem checked_map (update : Update (Vector F n) F) (target : Vector F n) :
    (update.map Vector.toArray).checked target.toArray = .ok (update.apply target).toArray := by
  obtain ⟨items, rfl⟩ := target
  rw [checked, convert_map exactly_toArray]
  rfl

/-- An assignment to a piece, with the same piece of every operand, is a piece of the assignment. -/
theorem apply_slice (span : Span) (update : Update (Vector F n) F) (target : Vector F n) :
    (update.map span.slice).apply (span.slice target) = span.slice (update.apply target) := by
  apply Vector.ext
  intro i inside
  have place : span.start + i < n := by omega
  have read (u : Vector F n) : (span.slice u).get ⟨i, inside⟩ = u.get ⟨span.start + i, place⟩ :=
    Vector.getElem_extract inside
  have sliced : (span.slice (update.apply target))[i] = (update.apply target)[span.start + i] :=
    Vector.getElem_extract inside
  rw [sliced, apply, apply, Vector.getElem_ofFn, Vector.getElem_ofFn, read]
  cases update <;> simp only [map, entry, read]

end Update

namespace Kernel

variable {F : Type} [Scalar F] {n : Nat}

theorem dotChecked_toArray (a b : Vector F n) :
    dotChecked a.toArray b.toArray = .ok (dot a b) := by
  obtain ⟨items, rfl⟩ := a
  rw [dotChecked, Update.exactly_toArray]
  rfl

theorem normSquared_toArray (v : Vector F n) :
    normSquared v.toArray.toVector = normSquared v := by
  obtain ⟨items, rfl⟩ := v
  rfl

end Kernel

/-! Tasks. -/

namespace Context

variable {F : Type} [Scalar F]

/-- What the tasks of an assignment make of their pieces of the target: each carries out the
serial assignment, with the parts of the operands in its span. -/
def pieces (context : Context) (update : Update (Array F) F) (target : Array F) :
    Except Fault (List (Array F)) :=
  ((Span.split context.spans target).zip context.spans).mapM fun task =>
    (update.map task.2.part).checked task.1

variable {context : Context}

theorem pieces_eq (update : Update (Vector F context.length) F)
    (target : Vector F context.length) :
    context.pieces (update.map Vector.toArray) target.toArray =
      .ok (context.spans.map fun span => (span.slice (update.apply target)).toArray) := by
  have cut : Span.split context.spans target.toArray =
      context.spans.map fun span => (span.slice target).toArray := by
    have whole := Span.split_cut target.toArray 0 context.length context.threads (by simp)
    rw [Array.extract_size] at whole
    exact whole
  have task (span : Span) :
      ((update.map Vector.toArray).map span.part).checked (span.slice target).toArray =
        .ok (span.slice (update.apply target)).toArray := by
    rw [← Update.apply_slice, ← Update.checked_map, Update.map_map, Update.map_map]
    rfl
  rw [pieces, cut]
  induction context.spans with
  | nil => rfl
  | cons span rest ih =>
    rw [List.map_cons, List.zip_cons_cons, List.mapM_cons, task, ih]
    rfl

omit [Scalar F] in
theorem flatten_pieces (positive : 0 < context.threads) (v : Vector F context.length) :
    ((context.spans.map fun span => (span.slice v).toArray).map Array.toList).flatten =
      v.toList := by
  have whole := Span.cut_pieces v.toList 0 context.length context.threads positive
  rw [List.map_map, ← List.flatMap_def]
  refine Eq.trans ?_ (whole.trans ?_)
  · congr 1
    funext span
    exact Vector.toList_extract
  · simp [List.extract_eq_take_drop]

omit [Scalar F] in
theorem covering_toArray (u : Vector F context.length) :
    covering context.length u.toArray = .ok u := by
  rw [covering, dif_pos (by simp)]
  congr 1
  apply Vector.ext
  intro i inside
  simp

theorem update_spread (runner : Runner) (shared : context.isSerial = false)
    (update : Update (Vector F context.length) F) (target : Vector F context.length) :
    (context.update runner (update.map Vector.toArray) target.toArray).result =
      .ok (context.spread runner update target).toArray := by
  have lengths : (update.map Vector.toArray).operands.any (·.size != context.length) = false := by
    simp [Update.operands_map]
  rw [Context.update, shared, if_neg Bool.false_ne_true, lengths, Bool.and_false,
    if_neg Bool.false_ne_true, dif_pos (by simp), Update.convert_map covering_toArray]
  rfl

theorem update_result (runner : Runner) (positive : 0 < context.threads)
    (update : Update (Vector F context.length) F) (target : Vector F context.length) :
    (context.update runner (update.map Vector.toArray) target.toArray).result =
      .ok (update.apply target).toArray := by
  cases shared : context.isSerial with
  | true =>
    rw [Context.update, if_pos shared]
    exact Update.checked_map update target
  | false =>
    rw [update_spread runner shared, context.spread_eq_apply runner positive]

section Reductions

variable (runner : Runner) (a b : Vector F context.length)

theorem dot_shared (several : 2 ≤ context.threads) :
    (context.dot runner a.toArray b.toArray).result =
      .ok ((context.spans.map fun span => Kernel.dot (span.slice a) (span.slice b)).foldl
        (· + ·) 0) := by
  have shared : context.isSerial = false := by
    rw [isSerial, beq_eq_false_iff_ne]
    omega
  rw [dot, shared, if_neg Bool.false_ne_true, dif_pos ⟨a.size_toArray, b.size_toArray⟩]
  exact congrArg Except.ok (context.reduce_eq_foldl runner .dot _)

theorem normSquared_shared (several : 2 ≤ context.threads) :
    (context.normSquared runner a.toArray).result =
      .ok ((context.spans.map fun span => Kernel.normSquared (span.slice a)).foldl (· + ·) 0) := by
  have shared : context.isSerial = false := by
    rw [isSerial, beq_eq_false_iff_ne]
    omega
  rw [normSquared, shared, if_neg Bool.false_ne_true, dif_pos a.size_toArray]
  exact congrArg Except.ok (context.reduce_eq_foldl runner .normSquared _)

variable [Regrouping F] (positive : 0 < context.threads)

include positive

/-- Where sums may be regrouped a reduction is the serial one. -/
theorem dot_result : (context.dot runner a.toArray b.toArray).result = .ok (Kernel.dot a b) := by
  by_cases single : context.isSerial = true
  · rw [dot, if_pos single]
    exact Kernel.dotChecked_toArray a b
  · rw [dot, if_neg single, dif_pos ⟨a.size_toArray, b.size_toArray⟩]
    exact congrArg Except.ok (context.spreadDot_eq runner positive a b)

theorem normSquared_result :
    (context.normSquared runner a.toArray).result = .ok (Kernel.normSquared a) := by
  by_cases single : context.isSerial = true
  · rw [normSquared, if_pos single]
    exact congrArg Except.ok (Kernel.normSquared_toArray a)
  · rw [normSquared, if_neg single, dif_pos a.size_toArray]
    exact congrArg Except.ok (context.spreadNormSquared_eq runner positive a)

end Reductions

/-- Every context with a thread carries out the serial operations. An assignment gives what the
serial one gives, with any number of threads and in any order of the tasks: all at once, or piece
by piece as the tasks do. With several threads a reduction adds the serial results on the spans in
their order, which is the serial result where sums may be regrouped. -/
theorem operations_serial (context : Context) (positive : 0 < context.threads)
    (room : reserve context.threads spanBytes = .ok ()) (runner : Runner) :
    create context.threads context.length = .ok context ∧
    partition context.length context.threads = .ok context.spans ∧
    (∀ (update : Update (Vector F context.length) F) (target : Vector F context.length),
      (context.update runner (update.map Vector.toArray) target.toArray).result =
          .ok (update.apply target).toArray ∧
        (update.map Vector.toArray).checked target.toArray = .ok (update.apply target).toArray ∧
        ∃ pieces, context.pieces (update.map Vector.toArray) target.toArray = .ok pieces ∧
          (pieces.map Array.toList).flatten = (update.apply target).toList) ∧
    ∀ a b : Vector F context.length,
      (2 ≤ context.threads →
        (context.dot runner a.toArray b.toArray).result =
            .ok ((context.spans.map fun span =>
              Kernel.dot (span.slice a) (span.slice b)).foldl (· + ·) 0) ∧
          (context.normSquared runner a.toArray).result =
            .ok ((context.spans.map fun span =>
              Kernel.normSquared (span.slice a)).foldl (· + ·) 0)) ∧
      (Regrouping F →
        (context.dot runner a.toArray b.toArray).result = Kernel.dotChecked a.toArray b.toArray ∧
          (context.normSquared runner a.toArray).result =
            .ok (Kernel.normSquared a.toArray.toVector)) := by
  refine ⟨create_ok positive room, partition_ok positive room, ?_, ?_⟩
  · intro update target
    exact ⟨update_result runner positive update target, update.checked_map target, _,
      pieces_eq update target, flatten_pieces positive _⟩
  · intro a b
    constructor
    · intro several
      exact ⟨dot_shared runner a b several, normSquared_shared runner a several⟩
    · intro regrouping
      rw [Kernel.dotChecked_toArray, Kernel.normSquared_toArray]
      exact ⟨dot_result runner a b positive, normSquared_result runner a positive⟩

def crowd : Context := { threads := 3, length := 2 }

theorem operations_serial_crowd :
    0 < crowd.threads ∧ reserve crowd.threads spanBytes = .ok () ∧ 2 ≤ crowd.threads ∧
    create 3 2 = .ok crowd ∧
    (crowd.update .reversed (.addScaled #[3, 5] 2) #[(1 : ℚ), 1]).result = .ok #[7, 11] ∧
    (Update.addScaled #[3, 5] 2).checked #[(1 : ℚ), 1] = .ok #[7, 11] ∧
    (crowd.dot .reversed #[(1 : ℚ), 2] #[3, 4]).result =
      .ok ([0, 3, 8].foldl (· + ·) 0) ∧
    (crowd.dot .reversed #[(1 : ℚ), 2] #[3, 4]).result = Kernel.dotChecked #[1, 2] #[3, 4] := by
  have positive : 0 < crowd.threads := by decide
  have room : reserve crowd.threads spanBytes = .ok () := by decide
  have several : 2 ≤ crowd.threads := by decide
  obtain ⟨created, -, updates, reduces⟩ := operations_serial (F := ℚ) crowd positive room .reversed
  obtain ⟨spread, serial, -⟩ := updates (.addScaled #v[3, 5] 2) #v[1, 1]
  obtain ⟨shared, regrouped⟩ := reduces #v[1, 2] #v[3, 4]
  have moved : ((Update.addScaled #v[3, 5] 2).apply #v[(1 : ℚ), 1]).toArray = #[7, 11] := by
    decide +kernel
  have parts : (crowd.spans.map fun span => Kernel.dot (span.slice #v[(1 : ℚ), 2])
      (span.slice #v[3, 4])) = [0, 3, 8] := by
    decide +kernel
  exact ⟨positive, room, several, created, spread.trans (congrArg Except.ok moved),
    serial.trans (congrArg Except.ok moved),
    (shared several).1.trans (congrArg (fun parts => Except.ok (parts.foldl (· + ·) 0)) parts),
    (regrouped inferInstance).1⟩

/-- There is no room for the spans of so many threads, hence no context to work with. -/
theorem create_overcrowded :
    0 < Nat.pow 2 60 ∧ (Update.zero : Update (Array ℚ) ℚ).checked #[1] = .ok #[0] ∧
      (do (← create (Nat.pow 2 60) 1).update .inOrder .zero #[(1 : ℚ)] |>.result) =
        .error .capacity := by
  refine ⟨by decide, ?_, rfl⟩
  decide +kernel

end Context

end Descent

import Descent.Proofs.Pieces
import Descent.Proofs.Spans

/-!
Operands of other lengths. The serial operations compare every operand with the target. With
several threads only `copy` and `addScaled` do; the others slice their operands along the spans,
and a slice is refused when it ends behind the operand. So a longer operand passes and is read as
far as the target goes. The tasks are cut as they are handed to the runner, each with its piece of
the target and with slices of the operands.
-/

namespace Descent

open Scalar

/-! Operands that may be refused. -/

namespace Update

variable {V W F : Type}

theorem map_congr {f g : V → W} {update : Update V F} (same : ∀ u ∈ update.operands, f u = g u) :
    update.map f = update.map g := by
  cases update <;> simp_all [map, operands]

/-- Where every refusal is the same fault, it does not matter which operand is refused first. -/
theorem convert_eq {fit : V → Except Fault W} {f : V → W} {fault : Fault} {fails : V → Prop}
    [DecidablePred fails]
    (answers : ∀ u, fit u = if fails u then .error fault else .ok (f u)) (update : Update V F) :
    update.convert fit =
      if ∃ u ∈ update.operands, fails u then .error fault else .ok (update.map f) := by
  cases update with
  | zero | scale => simp [convert, operands, map, pure, Except.pure]
  | copy u | addScaled u | multiply u | divide u =>
    simp only [convert, answers, operands, map, List.mem_singleton, exists_eq_left]
    split <;> rfl
  | addTwoScaled u r v s =>
    simp only [convert, answers, operands, map, List.mem_cons, List.not_mem_nil, or_false,
      exists_eq_or_imp, exists_eq_left]
    split
    · next first => simp [first, bind, Except.bind]
    · next first => split <;> simp_all [bind, Except.bind, pure, Except.pure]
  | addThreeScaled u r v s w t =>
    simp only [convert, answers, operands, map, List.mem_cons, List.not_mem_nil, or_false,
      exists_eq_or_imp, exists_eq_left]
    split
    · next first => simp [first, bind, Except.bind]
    · next first =>
      split
      · next second => simp [second, bind, Except.bind]
      · next second => split <;> simp_all [bind, Except.bind, pure, Except.pure]

end Update

section Fitted

variable {F : Type} [Scalar F]

/-- The operand as far as it goes, filled up with zeros. -/
def fitted (length : ℕ) (operand : Array F) : Vector F length :=
  Vector.ofFn fun i => operand[i.val]?.getD 0

theorem fitted_get {length i : ℕ} {operand : Array F} (inside : i < length)
    (stored : i < operand.size) : (fitted length operand)[i] = operand[i] := by
  rw [fitted, Vector.getElem_ofFn, Array.getElem?_eq_getElem stored]
  rfl

theorem exactly_eq (length : ℕ) (operand : Array F) :
    exactly length operand =
      if operand.size ≠ length then .error .lengthMismatch else .ok (fitted length operand) := by
  unfold exactly
  split
  · next fits =>
    rw [if_neg (not_not_intro fits)]
    refine congrArg Except.ok (Vector.ext fun i inside => ?_)
    exact (fitted_get inside (fits ▸ inside)).symm
  · rfl

theorem covering_eq (length : ℕ) (operand : Array F) :
    Context.covering length operand =
      if operand.size < length then .error .outOfBounds else .ok (fitted length operand) := by
  unfold Context.covering
  split
  · next covers =>
    rw [if_neg (Nat.not_lt.mpr covers)]
    refine congrArg Except.ok (Vector.ext fun i inside => ?_)
    rw [fitted_get inside (inside.trans_le covers)]
    exact (Array.getElem_extract _).trans (by simp)
  · next short => exact (if_pos (Nat.not_le.mp short)).symm

theorem fitted_extract (length : ℕ) (operand : Array F) :
    fitted length (operand.extract 0 length) = fitted length operand := by
  refine Vector.ext fun i inside => ?_
  simp only [fitted, Vector.getElem_ofFn, Array.getElem?_extract]
  rw [Nat.zero_add]
  split
  · rfl
  · next beyond => rw [Array.getElem?_eq_none (by omega)]

theorem checked_eq {n : ℕ} (update : Update (Array F) F) (target : Vector F n) :
    update.checked target.toArray =
      if ∃ u ∈ update.operands, u.size ≠ n then .error .lengthMismatch
      else .ok ((update.map (fitted n)).apply target).toArray := by
  obtain ⟨items, rfl⟩ := target
  rw [Update.checked, Update.convert_eq (exactly_eq items.size)]
  split <;> rfl

end Fitted

/-! Slices. -/

namespace Span

variable {spans : List Span} {start stop : ℕ}

theorem Chained.le (chained : Chained start stop spans) : start ≤ stop := by
  induction spans generalizing start with
  | nil => exact chained.le
  | cons span rest ih => exact chained.2.1.trans (ih chained.2.2)

theorem Chained.inside (chained : Chained start stop spans) :
    ∀ span ∈ spans, span.start ≤ span.stop ∧ span.stop ≤ stop := by
  induction spans generalizing start with
  | nil => exact List.forall_mem_nil _
  | cons span rest ih =>
    obtain ⟨rfl, ordered, later⟩ := chained
    exact List.forall_mem_cons.mpr ⟨⟨ordered, later.le⟩, ih later⟩

theorem Chained.last (chained : Chained start stop spans) (some : spans ≠ []) :
    ∃ span ∈ spans, span.stop = stop := by
  induction spans generalizing start with
  | nil => exact absurd rfl some
  | cons span rest ih =>
    obtain ⟨-, -, later⟩ := chained
    cases rest with
    | nil => exact ⟨span, List.mem_singleton_self span, later⟩
    | cons next rest =>
      obtain ⟨last, member, ends⟩ := ih later (List.cons_ne_nil next rest)
      exact ⟨last, List.mem_cons_of_mem span member, ends⟩

def slice? {F : Type} (span : Span) (operand : Array F) : Except Fault (Array F) :=
  if span.start ≤ span.stop ∧ span.stop ≤ operand.size then .ok (span.part operand)
  else .error .outOfBounds

variable {F : Type} {span : Span}

theorem slice?_eq (ordered : span.start ≤ span.stop) (operand : Array F) :
    span.slice? operand =
      if operand.size < span.stop then .error .outOfBounds else .ok (span.part operand) := by
  unfold slice?
  split
  · next covers => exact (if_neg (Nat.not_lt.mpr covers.2)).symm
  · next short => exact (if_pos (Nat.not_le.mp fun ends => short ⟨ordered, ends⟩)).symm

theorem part_eq [Scalar F] {length : ℕ} {operand : Array F} (inside : span.stop ≤ length)
    (covers : span.stop ≤ operand.size) :
    span.part operand = (span.slice (fitted length operand)).toArray := by
  apply Array.ext
  · simp [part, inside, covers]
  · intro i below below'
    have size : (span.part operand).size = span.stop - span.start := by simp [part, covers]
    have place : span.start + i < span.stop := by omega
    have read : (fitted length operand)[span.start + i] = operand[span.start + i] :=
      fitted_get (place.trans_le inside) (place.trans_le covers)
    simp [part, slice, read]

end Span

theorem mapM_eq {A B : Type} {task : A → Except Fault B} {f : A → B} {fault : Fault}
    {fails : A → Prop} [DecidablePred fails] {items : List A}
    (answers : ∀ item ∈ items, task item = if fails item then .error fault else .ok (f item)) :
    items.mapM task =
      if ∃ item ∈ items, fails item then .error fault else .ok (items.map f) := by
  induction items with
  | nil => rfl
  | cons item rest ih =>
    obtain ⟨first, later⟩ := List.forall_mem_cons.mp answers
    rw [List.mapM_cons, first, ih later]
    by_cases failed : fails item
    · have some : ∃ other ∈ item :: rest, fails other := ⟨item, List.mem_cons_self, failed⟩
      rw [if_pos failed, if_pos some]
      rfl
    · rw [if_neg failed]
      by_cases failing : ∃ item ∈ rest, fails item
      · have some : ∃ other ∈ item :: rest, fails other := List.exists_mem_cons_of_exists failing
        rw [if_pos failing, if_pos some]
        rfl
      · have none : ¬ ∃ other ∈ item :: rest, fails other := fun some =>
          (List.or_exists_of_exists_mem_cons some).elim failed failing
        rw [if_neg failing, if_neg none]
        rfl

namespace Context

variable {F : Type} [Scalar F]

/-- What one task does: the serial operation on a piece of the target and on slices. -/
def perform (update : Update (Array F) F) (span : Span) (piece : Array F) :
    Except Fault (Array F) := do
  let slices ← update.convert span.slice?
  slices.checked piece

def byTasks (context : Context) (update : Update (Array F) F) (target : Array F) :
    Except Fault (List (Array F)) :=
  if compares update ∧ ∃ u ∈ update.operands, u.size ≠ context.length then .error .lengthMismatch
  else if target.size ≠ context.length then .error .lengthMismatch
  else ((Span.split context.spans target).zip context.spans).mapM fun task =>
    perform update task.2 task.1

variable {context : Context} {update : Update (Array F) F}

theorem perform_eq {span : Span} (ordered : span.start ≤ span.stop)
    (inside : span.stop ≤ context.length) (target : Vector F context.length) :
    perform update span (span.part target.toArray) =
      if ∃ u ∈ update.operands, u.size < span.stop then .error .outOfBounds
      else .ok
        (span.slice ((update.map (fitted context.length)).apply target)).toArray := by
  rw [perform, Update.convert_eq (Span.slice?_eq ordered)]
  split
  · rfl
  · next covers =>
    have slices : update.map span.part =
        ((update.map (fitted context.length)).map span.slice).map Vector.toArray := by
      rw [Update.map_map, Update.map_map]
      apply Update.map_congr
      intro u member
      exact Span.part_eq inside (Nat.not_lt.mp fun short => covers ⟨u, member, short⟩)
    rw [slices, ← Update.apply_slice span]
    exact Update.checked_map ((update.map (fitted context.length)).map span.slice)
      (span.slice target)

theorem byTasks_eq (positive : 0 < context.threads) (target : Vector F context.length) :
    context.byTasks update target.toArray =
      if compares update ∧ ∃ u ∈ update.operands, u.size ≠ context.length then
        .error .lengthMismatch
      else if ∃ u ∈ update.operands, u.size < context.length then .error .outOfBounds
      else .ok (context.spans.map fun span =>
        (span.slice ((update.map (fitted context.length)).apply target)).toArray) := by
  have chained : Span.Chained 0 context.length context.spans := by
    have cut := Span.cut_chained 0 context.length positive
    rwa [Nat.zero_add] at cut
  have some : context.spans ≠ [] := by
    apply List.ne_nil_of_length_pos
    rwa [spans, Span.cut_length]
  have cut : Span.split context.spans target.toArray =
      context.spans.map (·.part target.toArray) := by
    have whole := Span.split_cut target.toArray 0 context.length context.threads (by simp)
    rwa [Array.extract_size] at whole
  have short :
      (∃ task ∈ context.spans.map fun span => (span.part target.toArray, span),
        ∃ u ∈ update.operands, u.size < task.2.stop) ↔
      ∃ u ∈ update.operands, u.size < context.length := by
    constructor
    · rintro ⟨task, member, u, operand, below⟩
      obtain ⟨span, among, rfl⟩ := List.mem_map.mp member
      exact ⟨u, operand, below.trans_le (chained.inside span among).2⟩
    · rintro ⟨u, operand, below⟩
      obtain ⟨last, among, ends⟩ := chained.last some
      exact ⟨_, List.mem_map_of_mem among, u, operand, below.trans_eq ends.symm⟩
  have answers : ∀ task ∈ context.spans.map fun span => (span.part target.toArray, span),
      perform update task.2 task.1 =
        if ∃ u ∈ update.operands, u.size < task.2.stop then .error .outOfBounds
        else .ok
          (task.2.slice ((update.map (fitted context.length)).apply target)).toArray := by
    intro task member
    obtain ⟨span, among, rfl⟩ := List.mem_map.mp member
    obtain ⟨ordered, inside⟩ := chained.inside span among
    exact perform_eq ordered inside target
  rw [byTasks, if_neg (not_not_intro target.size_toArray), cut, ← List.map_prod_right_eq_zip,
    mapM_eq answers]
  simp only [short, List.map_map]
  rfl

theorem update_eq (several : 2 ≤ context.threads) (runner : Runner)
    (target : Vector F context.length) :
    (context.update runner update target.toArray).result =
      if compares update ∧ ∃ u ∈ update.operands, u.size ≠ context.length then
        .error .lengthMismatch
      else if ∃ u ∈ update.operands, u.size < context.length then .error .outOfBounds
      else .ok ((update.map (fitted context.length)).apply target).toArray := by
  have shared : context.isSerial = false := by
    rw [isSerial, beq_eq_false_iff_ne]
    omega
  rw [Context.update, shared, if_neg Bool.false_ne_true, dif_pos target.size_toArray,
    Update.convert_eq (covering_eq context.length)]
  simp only [Bool.and_eq_true, List.any_eq_true, bne_iff_ne]
  split
  · rfl
  · split
    · rfl
    · exact congrArg (fun moved : Vector F context.length => Except.ok moved.toArray)
        (context.spread_eq_apply runner (by omega) _ _)

def joined (pieces : List (Array F)) : Array F := (pieces.map Array.toList).flatten.toArray

theorem byTasks_joined (several : 2 ≤ context.threads) (runner : Runner)
    (target : Vector F context.length) :
    (context.byTasks update target.toArray).map joined =
      (context.update runner update target.toArray).result := by
  have positive : 0 < context.threads := by omega
  rw [byTasks_eq positive, update_eq several]
  split
  · rfl
  · split
    · rfl
    · have whole := flatten_pieces positive ((update.map (fitted context.length)).apply target)
      exact congrArg Except.ok ((congrArg List.toArray whole).trans Vector.toArray_toList)

/-- What is not refused is the serial result for operands that end with the target. -/
theorem update_cut (several : 2 ≤ context.threads) (runner : Runner)
    (target : Vector F context.length)
    (unequal : ¬ (compares update ∧ ∃ u ∈ update.operands, u.size ≠ context.length))
    (covers : ¬ ∃ u ∈ update.operands, u.size < context.length) :
    (context.update runner update target.toArray).result =
      (update.map fun u => u.extract 0 context.length).checked target.toArray := by
  have sizes : ¬ ∃ u ∈ (update.map fun u => u.extract 0 context.length).operands,
      u.size ≠ context.length := by
    rintro ⟨_, member, other⟩
    rw [Update.operands_map] at member
    obtain ⟨u, operand, rfl⟩ := List.mem_map.mp member
    have atLeast : context.length ≤ u.size := Nat.not_lt.mp fun short => covers ⟨u, operand, short⟩
    exact other (by simp [atLeast])
  have same : (update.map fun u => u.extract 0 context.length).map (fitted context.length) =
      update.map (fitted context.length) := by
    rw [Update.map_map]
    exact Update.map_congr fun u _ => fitted_extract context.length u
  rw [update_eq several, if_neg unequal, if_neg covers, checked_eq, if_neg sizes, same]

/-! Refusals. -/

def Refused {A : Type} (outcome : Except Fault A) : Prop := ∃ fault, outcome = .error fault

theorem refused_ite {A : Type} {condition : Prop} [Decidable condition] {fault : Fault}
    {other : Except Fault A} :
    Refused (if condition then .error fault else other) ↔ condition ∨ Refused other := by
  split
  · next holds => exact ⟨fun _ => .inl holds, fun _ => ⟨fault, rfl⟩⟩
  · next fails => exact ⟨.inr, fun either => either.resolve_left fails⟩

theorem not_refused_ok {A : Type} (answer : A) : ¬ Refused (.ok answer) := nofun

theorem checked_refused {n : ℕ} (target : Vector F n) :
    Refused (update.checked target.toArray) ↔ ∃ u ∈ update.operands, u.size ≠ n := by
  rw [checked_eq, refused_ite, or_iff_left (not_refused_ok _)]

theorem update_refused (several : 2 ≤ context.threads) (runner : Runner)
    (target : Vector F context.length) :
    Refused (context.update runner update target.toArray).result ↔
      (compares update ∧ ∃ u ∈ update.operands, u.size ≠ context.length) ∨
        ∃ u ∈ update.operands, u.size < context.length := by
  rw [update_eq several, refused_ite, refused_ite, or_iff_left (not_refused_ok _)]

theorem agree_iff {compared unequal short : Prop} (atLeast : short → unequal) :
    (compared ∧ unequal ∨ short ↔ unequal) ↔ compared ∨ short ∨ ¬ unequal := by
  tauto

/-- Which lengths are refused. With several threads the tasks slice the operands, so one that ends
before the target is refused and one that goes on behind it is cut, unless the operation compares
all lengths first. The serial operation refuses both, and nothing else. -/
theorem update_lengths {context : Context} (several : 2 ≤ context.threads) (runner : Runner)
    (update : Update (Array F) F) (target : Vector F context.length) :
    let spread := (context.update runner update target.toArray).result
    let serial := update.checked target.toArray
    (context.byTasks update target.toArray).map joined = spread ∧
    (Refused serial ↔ ∃ u ∈ update.operands, u.size ≠ context.length) ∧
    (Refused spread ↔
      (compares update ∧ ∃ u ∈ update.operands, u.size ≠ context.length) ∨
        ∃ u ∈ update.operands, u.size < context.length) ∧
    ((Refused spread ↔ Refused serial) ↔
      compares update ∨ (∃ u ∈ update.operands, u.size < context.length) ∨
        ∀ u ∈ update.operands, u.size = context.length) ∧
    (¬ Refused spread →
      spread = (update.map fun u => u.extract 0 context.length).checked target.toArray) := by
  intro spread serial
  have refusals : Refused serial ↔ ∃ u ∈ update.operands, u.size ≠ context.length :=
    checked_refused target
  have spreading : Refused spread ↔
      (compares update ∧ ∃ u ∈ update.operands, u.size ≠ context.length) ∨
        ∃ u ∈ update.operands, u.size < context.length := update_refused several runner target
  refine ⟨byTasks_joined several runner target, refusals, spreading, ?_, ?_⟩
  · have every : (∀ u ∈ update.operands, u.size = context.length) ↔
        ¬ ∃ u ∈ update.operands, u.size ≠ context.length := by
      simp only [not_exists, not_and, Decidable.not_not]
    have unequal : (∃ u ∈ update.operands, u.size < context.length) →
        ∃ u ∈ update.operands, u.size ≠ context.length :=
      fun ⟨u, operand, short⟩ => ⟨u, operand, short.ne⟩
    rw [spreading, refusals, every]
    exact agree_iff unequal
  · intro accepted
    rw [spreading, not_or] at accepted
    exact update_cut several runner target accepted.1 accepted.2

/-- The first of these factors is multiplied with, the second is passed over. -/
theorem update_lengths_longer :
    let pair : Context := { threads := 2, length := 1 }
    let update : Update (Array ℚ) ℚ := .multiply #[2, 5]
    2 ≤ pair.threads ∧ Refused (update.checked #[3]) ∧
      (pair.update .inOrder update #[3]).result = .ok #[6] := by
  intro pair update
  have several : 2 ≤ pair.threads := by decide
  obtain ⟨-, serial, -, -, -⟩ := update_lengths several .inOrder update #v[3]
  exact ⟨several, serial.mpr ⟨#[2, 5], by decide, by decide⟩, by decide +kernel⟩

/-- Several threads do not refuse the same lengths as one. -/
theorem update_accepts_longer :
    ¬ ∀ (context : Context) (runner : Runner) (update : Update (Array ℚ) ℚ) (target : Array ℚ),
      2 ≤ context.threads → target.size = context.length →
      (Refused (context.update runner update target).result ↔
        ∃ u ∈ update.operands, u.size ≠ context.length) := by
  intro same
  have refused := (same { threads := 2, length := 1 } .inOrder (.multiply #[2, 5]) #[3]
    (by decide) rfl).mpr ⟨#[2, 5], by decide, by decide⟩
  have accepted : ({ threads := 2, length := 1 : Context }.update .inOrder
      (.multiply #[2, 5]) #[(3 : ℚ)]).result = .ok #[6] := by decide +kernel
  rw [accepted] at refused
  exact not_refused_ok _ refused

end Context

end Descent

import Descent.Proofs.Numbers
import Descent.Proofs.Completion
import Descent.Proofs.Journal
import Descent.Proofs.Spread

/-!
The number of threads does not show. Whatever order a runner takes, an assignment writes every
entry once and a reduction adds its parts in span order; so for one number of threads all runners
give the same minimization, to the last bit. Another number of threads only groups the sums in
another way. Where regrouping a sum changes nothing, a minimization is the one with a single
thread, as soon as there is room for the spans.
-/

namespace Descent

open Scalar

/-- Sums may be grouped as one likes. -/
class Regrouping (F : Type) [Scalar F] : Prop where
  add_assoc (x y z : F) : x + y + z = x + (y + z)
  zero_add (x : F) : 0 + x = x
  add_zero (x : F) : x + 0 = x

instance {F : Type} [Field F] [LinearOrder F] [Exact F] : Regrouping F where
  add_assoc := add_assoc
  zero_add := zero_add
  add_zero := add_zero

/-! Sums over spans. -/

theorem Span.cut_pieces {A : Type} (items : List A) (start rest count : Nat) (some : 0 < count) :
    ((Span.cut start rest count).flatMap fun span => items.extract span.start span.stop) =
      items.extract start (start + rest) := by
  induction count generalizing start rest with
  | zero => exact absurd some (Nat.lt_irrefl 0)
  | succ count ih =>
    have atMost : rest / (count + 1) ≤ rest := Nat.div_le_self _ _
    rw [Span.cut, List.flatMap_cons]
    cases count with
    | zero => simp [Span.cut]
    | succ count =>
      rw [ih _ _ (Nat.succ_pos count)]
      simp only [List.extract_eq_take_drop, Nat.add_sub_cancel_left]
      rw [← List.drop_drop, ← List.take_add, Nat.add_sub_cancel' atMost]

section Sums

variable {F : Type} [Scalar F] [Regrouping F] {n : Nat}

theorem foldl_add_start (parts : List F) (start : F) :
    parts.foldl (· + ·) start = start + parts.foldl (· + ·) 0 := by
  induction parts generalizing start with
  | nil => exact (Regrouping.add_zero start).symm
  | cons part rest ih =>
    rw [List.foldl_cons, List.foldl_cons, ih, ih (0 + part), Regrouping.zero_add,
      Regrouping.add_assoc]

theorem foldl_add_flatMap {A : Type} (parts : List A) (items : A → List F) :
    (parts.map fun part => (items part).foldl (· + ·) 0).foldl (· + ·) 0 =
      (parts.flatMap items).foldl (· + ·) 0 := by
  induction parts with
  | nil => rfl
  | cons part rest ih =>
    rw [List.map_cons, List.foldl_cons, foldl_add_start, ih, List.flatMap_cons, List.foldl_append,
      foldl_add_start (rest.flatMap items) (List.foldl _ _ _), Regrouping.zero_add]

theorem sum_slices (context : Context) (some : 0 < context.threads) (v : Vector F context.length) :
    (context.spans.map fun span => Kernel.sum (span.slice v)).foldl (· + ·) 0 = Kernel.sum v := by
  have piece (span : Span) : Kernel.sum (span.slice v) =
      (v.toList.extract span.start span.stop).foldl (· + ·) 0 := by
    rw [Kernel.sum, ← Vector.foldl_toList, Span.slice, Vector.toList_extract]
  simp only [piece]
  rw [foldl_add_flatMap, Context.spans, Span.cut_pieces _ _ _ _ some, Kernel.sum,
    ← Vector.foldl_toList]
  congr 1
  simp [List.extract_eq_take_drop]

omit [Regrouping F] in
theorem slice_zipWith (span : Span) (a b : Vector F n) :
    (span.slice a).zipWith (· * ·) (span.slice b) = span.slice (a.zipWith (· * ·) b) := by
  apply Vector.ext
  intro i inside
  simp [Span.slice]

namespace Context

theorem spreadDot_eq (context : Context) (runner : Runner) (some : 0 < context.threads)
    (a b : Vector F context.length) : context.spreadDot runner a b = Kernel.dot a b := by
  rw [spreadDot, reduce_eq_foldl]
  simp only [Kernel.dot, slice_zipWith]
  exact sum_slices context some _

theorem spreadNormSquared_eq (context : Context) (runner : Runner) (some : 0 < context.threads)
    (v : Vector F context.length) :
    context.spreadNormSquared runner v = Kernel.normSquared v := by
  rw [spreadNormSquared_eq_foldl]
  exact sum_slices context some _

end Context

/-- Any number of threads computes what a single one does. -/
theorem Kernels.shared_eq_serial (threads : Nat) (runner : Runner) (some : 0 < threads) :
    Kernels.shared F n threads runner = Kernels.serial F n := by
  let context : Context := { threads, length := n }
  have update : (context.spread runner : Update (Vector F n) F → Vector F n → Vector F n) =
      Update.apply :=
    funext fun update => funext fun target => context.spread_eq_apply runner some update target
  have dot : (context.spreadDot runner : Vector F n → Vector F n → F) = Kernel.dot :=
    funext fun a => funext fun b => context.spreadDot_eq runner some a b
  have normSquared : (context.spreadNormSquared runner : Vector F n → F) = Kernel.normSquared :=
    funext fun v => context.spreadNormSquared_eq runner some v
  simp only [shared]
  split
  · rfl
  · exact congr (congr (congrArg Kernels.mk update) dot) normSquared

end Sums

/-- For one number of threads the runner does not matter, whatever the arithmetic. -/
theorem Kernels.shared_runner {F : Type} [Scalar F] {n : Nat} (threads : Nat)
    (runner runner' : Runner) (some : 0 < threads) :
    Kernels.shared F n threads runner = Kernels.shared F n threads runner' := by
  let context : Context := { threads, length := n }
  have update : (context.spread runner : Update (Vector F n) F → Vector F n → Vector F n) =
      context.spread runner' :=
    funext fun update => funext fun target =>
      (context.spread_eq_apply runner some update target).trans
        (context.spread_eq_apply runner' some update target).symm
  have reduce (operation : Operation) (part : Span → F) :
      context.reduce runner operation part = context.reduce runner' operation part :=
    (context.reduce_eq_foldl runner operation part).trans
      (context.reduce_eq_foldl runner' operation part).symm
  have dot : (context.spreadDot runner : Vector F n → Vector F n → F) =
      context.spreadDot runner' :=
    funext fun a => funext fun b => reduce _ _
  have normSquared : (context.spreadNormSquared runner : Vector F n → F) =
      context.spreadNormSquared runner' :=
    funext fun v => reduce _ _
  simp only [shared]
  split
  · rfl
  · exact congr (congr (congrArg Kernels.mk update) dot) normSquared

/-! The settings are read for everything but the threads. -/

namespace Minimization

variable {m : Type → Type} [Monad m] [MonadExceptOf Fault m] {F : Type} [Unbounded F] {n : Nat}

theorem run_threads (kernels : Kernels F n) (settings : Settings F) (threads : Nat)
    (caller : Caller m F n) (done : Nat) (state : State F n) :
    run kernels { settings with threads } caller done state =
      run kernels settings caller done state := by
  induction done, state using run.induct settings with
  | case1 done state ih =>
    rw [run, run]
    apply bind_congr
    rintro ⟨termination?, checked⟩
    cases termination? with
    | some termination => rfl
    | none =>
      by_cases goesOn : done < settings.maxIterations
      · simp only [goesOn, if_true]
        apply bind_congr
        intro next
        apply bind_congr
        intro _
        exact ih goesOn next
      · simp only [goesOn, if_false]

theorem discard_ok [LawfulMonad m] {A : Type} (value : A) :
    discard (MonadExcept.ofExcept (.ok value : Except Fault A) : m A) = pure () := by
  simp only [discard, Functor.discard, LawfulFunctor.map_const, MonadExcept.ofExcept]
  exact map_pure _ _

/-- Runners for one number of threads make the same minimization, in any arithmetic. Where sums
may be regrouped it is also the one with a single thread, if there is room for the spans. A runner
may take another order for every operation and every operand. One that would take two orders in
two equal calls does nothing new: each of its calls is that of some runner, and they all agree
there by `Kernels.shared_runner`. -/
theorem minimize_threads [LawfulMonad m] (settings : Settings F) (runner runner' : Runner)
    (caller : Caller m F n) (x : Vector F n) (some : 0 < settings.threads) :
    minimize settings runner caller x = minimize settings runner' caller x ∧
    (Regrouping F → reserve settings.threads spanBytes = .ok () →
      minimize settings runner caller x =
        minimize { settings with threads := 1 } runner' caller x) := by
  constructor
  · rw [minimize, Kernels.shared_runner settings.threads runner runner' some]
    rfl
  · intro regrouping room
    have single : reserve 1 spanBytes = .ok () := by decide
    have kernels : Kernels.shared F n settings.threads runner = Kernels.shared F n 1 runner' :=
      (Kernels.shared_eq_serial settings.threads runner some).trans
        (Kernels.shared_eq_serial 1 runner' Nat.one_pos).symm
    rw [minimize, minimize, create_ok some room, create_ok Nat.one_pos single, kernels]
    simp only [run_threads, discard_ok]
    rfl

/-! A paraboloid over fractions. The five variables are cut into spans of one, two and two. -/

def bowl : Caller (Except Fault) Fraction 5 :=
  .ofFunction fun x => (Kernel.normSquared x, x.map fun entry => entry + entry)

theorem minimize_threads_bowl :
    0 < 3 ∧ reserve 3 spanBytes = .ok () ∧
      minimize { Settings.standard with threads := 3 } .reversed bowl #v[1, 2, 3, 4, 5] =
        minimize { Settings.standard with threads := 3 } .inOrder bowl #v[1, 2, 3, 4, 5] ∧
      minimize { Settings.standard with threads := 3 } .reversed bowl #v[1, 2, 3, 4, 5] =
        minimize { Settings.standard with threads := 1 } .inOrder bowl #v[1, 2, 3, 4, 5] := by
  have some : 0 < 3 := by decide
  have room : reserve 3 spanBytes = .ok () := by decide
  obtain ⟨runners, threads⟩ :=
    minimize_threads { Settings.standard with threads := 3 } .reversed .inOrder bowl
      #v[1, 2, 3, 4, 5] some
  exact ⟨some, room, runners, threads inferInstance room⟩

/-- There is no room for the spans of so many threads, so they are not like a single one. -/
theorem minimize_threads_crowded :
    minimize { Settings.standard with threads := Nat.pow 2 60 } .inOrder bowl #v[1, 2, 3, 4, 5] =
        .error .capacity ∧
      Yields (minimize { Settings.standard with threads := 1 } .inOrder bowl #v[1, 2, 3, 4, 5])
        fun answer => answer.1 = #v[0, 0, 0, 0, 0] := by
  constructor
  · rfl
  · decide +kernel

end Minimization

end Descent

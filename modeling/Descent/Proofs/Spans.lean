import Mathlib.Algebra.Order.Floor.Div
import Descent.Proofs.Completion
import Descent.Proofs.Spread

/-!
How evenly a length is cut. Every span takes its share of what is left, rounded down, so what the
first ones leave is made up for by the last ones: the shares never get smaller, and the remainder of
the whole division is spread over the last spans, one index each. On the way no count leaves the
machine word, no difference goes below zero and nothing is divided by zero.
-/

namespace Descent

/-! Counts in a machine word. -/

namespace Word

def sub? (a b : ℕ) : Option ℕ := if b ≤ a then some (a - b) else none

def div? (a b : ℕ) : Option ℕ := if b = 0 then none else some (a / b)

def add? (a b : ℕ) : Option ℕ := if a + b < Nat.pow 2 64 then some (a + b) else none

variable {a b : ℕ}

theorem sub?_of_le (atMost : b ≤ a) : sub? a b = some (a - b) := if_pos atMost

theorem div?_succ : div? a (b + 1) = some (a / (b + 1)) := if_neg (Nat.succ_ne_zero b)

theorem add?_of_lt (fits : a + b < Nat.pow 2 64) : add? a b = some (a + b) := if_pos fits

end Word

namespace Span

/-- The loop that cuts, with its counts in machine words. The counters count the spans that were
cut before, which cover `assigned` indices. -/
def cutWords (length threads : ℕ) : List ℕ → ℕ → Option (List Span)
  | [], _ => some []
  | done :: later, assigned => do
      let rest ← Word.sub? length assigned
      let remaining ← Word.sub? threads done
      let size ← Word.div? rest remaining
      let stop ← Word.add? assigned size
      let spans ← cutWords length threads later stop
      pure (⟨assigned, stop⟩ :: spans)

-- What the counters leave to be cut is what is left of the length and of the spans.
theorem cutWords_eq {length : ℕ} (addressed : length < Nat.pow 2 64) (done : ℕ) {assigned : ℕ}
    (inside : assigned ≤ length) (count : ℕ) :
    cutWords length (done + count) (List.range' done count) assigned =
      some (cut assigned (length - assigned) count) := by
  induction count generalizing done assigned with
  | zero => rfl
  | succ count ih =>
    have remaining : done + (count + 1) - done = count + 1 := Nat.add_sub_cancel_left _ _
    have share : (length - assigned) / (count + 1) ≤ length - assigned := Nat.div_le_self _ _
    have onward : assigned + (length - assigned) / (count + 1) ≤ length := by omega
    have later := ih (done + 1) onward
    rw [Nat.add_assoc, Nat.add_comm 1, ← Nat.sub_sub] at later
    rw [List.range'_succ, cutWords, Word.sub?_of_le inside, Word.sub?_of_le (Nat.le_add_right _ _),
      remaining]
    simp only [Option.bind_eq_bind, Option.bind_some, Word.div?_succ,
      Word.add?_of_lt (onward.trans_lt addressed), later]
    rfl

/-! Where the spans are. -/

/-- The spans follow one another from `start` to `stop`. -/
def Chained : ℕ → ℕ → List Span → Prop
  | start, stop, [] => start = stop
  | start, stop, span :: rest =>
      span.start = start ∧ start ≤ span.stop ∧ Chained span.stop stop rest

theorem cut_chained (start rest : ℕ) {count : ℕ} (positive : 0 < count) :
    Chained start (start + rest) (cut start rest count) := by
  induction count generalizing start rest with
  | zero => exact absurd positive (Nat.lt_irrefl 0)
  | succ count ih =>
    have atMost : rest / (count + 1) ≤ rest := Nat.div_le_self _ _
    refine ⟨rfl, Nat.le_add_right _ _, ?_⟩
    cases count with
    | zero => simp [cut, Chained]
    | succ count =>
      have later := ih (start + rest / (count + 2)) (rest - rest / (count + 2)) (Nat.succ_pos count)
      rwa [Nat.add_assoc, Nat.add_sub_cancel' atMost] at later

theorem cut_length (start rest count : ℕ) : (cut start rest count).length = count := by
  induction count generalizing start rest with
  | zero => rfl
  | succ count ih => rw [cut, List.length_cons, ih]

/-! How large they are. -/

-- A remainder of one index for each span still to come means that all of them are larger.
theorem cut_sizes (start quotient : ℕ) {count remainder : ℕ} (atMost : remainder ≤ count) :
    (cut start (quotient * count + remainder) count).map size =
      List.replicate (count - remainder) quotient ++
        List.replicate remainder (quotient + 1) := by
  induction count generalizing start remainder with
  | zero =>
    obtain rfl := Nat.le_zero.mp atMost
    rfl
  | succ count ih =>
    have size (share : ℕ) : (⟨start, start + share⟩ : Span).size = share :=
      Nat.add_sub_cancel_left _ _
    rw [cut, List.map_cons, size]
    by_cases every : remainder = count + 1
    · have share : (quotient * (count + 1) + remainder) / (count + 1) = quotient + 1 := by
        rw [every, ← Nat.succ_mul, Nat.mul_div_cancel _ (Nat.succ_pos count)]
      have left : quotient * (count + 1) + remainder - (quotient + 1) =
          quotient * count + count := by
        rw [every, Nat.mul_succ]
        omega
      rw [share, left, ih _ le_rfl, every, Nat.sub_self, Nat.sub_self]
      rfl
    · have fewer : remainder ≤ count := by omega
      have share : (quotient * (count + 1) + remainder) / (count + 1) = quotient := by
        rw [Nat.mul_comm, Nat.mul_add_div (Nat.succ_pos count),
          Nat.div_eq_of_lt (Nat.lt_succ_of_le fewer), Nat.add_zero]
      have left : quotient * (count + 1) + remainder - quotient = quotient * count + remainder := by
        rw [Nat.mul_succ]
        omega
      rw [share, left, ih _ fewer, Nat.succ_sub fewer]
      rfl

end Span

theorem ceilDiv_of_mod_pos {length threads : ℕ} (positive : 0 < threads)
    (unequal : 0 < length % threads) : length ⌈/⌉ threads = length / threads + 1 := by
  have below : length % threads < threads := Nat.mod_lt length positive
  have parts : threads * (length / threads) + length % threads = length := Nat.div_add_mod _ _
  have upper : threads * (length / threads + 1) = threads * (length / threads) + threads :=
    Nat.mul_succ _ _
  have further : threads * (length / threads + 1 + 1) =
      threads * (length / threads + 1) + threads := Nat.mul_succ _ _
  rw [Nat.ceilDiv_eq_add_pred_div]
  apply Nat.div_eq_of_lt_le
  · rw [Nat.mul_comm, upper]
    omega
  · rw [Nat.mul_comm, further, upper]
    omega

/-- A length is cut into as many spans as there are threads, if there is room for them. They follow
one another over the whole length. Their sizes never decrease: as many as the remainder counts are
one larger than the others, and these come last. -/
theorem partition_balanced (length : ℕ) {threads : ℕ} (positive : 0 < threads)
    (room : reserve threads spanBytes = .ok ()) :
    ∃ spans, partition length threads = .ok spans ∧ spans.length = threads ∧
      Span.Chained 0 length spans ∧ spans.flatMap Span.indices = List.range length ∧
      (spans.map Span.size).Pairwise (· ≤ ·) ∧
      (∀ span ∈ spans, span.size = length / threads ∨ span.size = length ⌈/⌉ threads) ∧
      spans.map Span.size =
        List.replicate (threads - length % threads) (length / threads) ++
          List.replicate (length % threads) (length / threads + 1) ∧
      (length < Nat.pow 2 64 →
        Span.cutWords length threads (List.range threads) 0 = some spans) := by
  have sizes : (Span.cut 0 length threads).map Span.size =
      List.replicate (threads - length % threads) (length / threads) ++
        List.replicate (length % threads) (length / threads + 1) := by
    rw [← Span.cut_sizes 0 _ (Nat.mod_lt length positive).le, Nat.div_add_mod']
  refine ⟨_, partition_ok positive room, Span.cut_length _ _ _, ?_, ?_, ?_, ?_, sizes, ?_⟩
  · have chained := Span.cut_chained 0 length positive
    rwa [Nat.zero_add] at chained
  · rw [Span.cut_indices 0 length threads positive, List.range_eq_range']
  · rw [sizes]
    refine List.pairwise_append.mpr ⟨?_, ?_, ?_⟩
    · exact List.pairwise_replicate.mpr (.inr le_rfl)
    · exact List.pairwise_replicate.mpr (.inr le_rfl)
    · intro smaller first larger last
      rw [List.eq_of_mem_replicate first, List.eq_of_mem_replicate last]
      exact Nat.le_succ _
  · intro span member
    have among := List.mem_map_of_mem (f := Span.size) member
    rw [sizes, List.mem_append] at among
    rcases among with smaller | larger
    · exact .inl (List.eq_of_mem_replicate smaller)
    · have unequal : 0 < length % threads :=
        Nat.pos_of_ne_zero (List.mem_replicate.mp larger).1
      have rounded := ceilDiv_of_mod_pos positive unequal
      exact .inr ((List.eq_of_mem_replicate larger).trans rounded.symm)
  · intro addressed
    have words := Span.cutWords_eq addressed 0 (Nat.zero_le length) threads
    rwa [Nat.zero_add, ← List.range_eq_range'] at words

/-- There are more threads than indices, so the first two get none. -/
theorem partition_balanced_crowded :
    0 < 4 ∧ reserve 4 spanBytes = .ok () ∧
      partition 2 4 = .ok [⟨0, 0⟩, ⟨0, 0⟩, ⟨0, 1⟩, ⟨1, 2⟩] ∧
      ∃ spans, partition 2 4 = .ok spans ∧ spans.map Span.size = [0, 0, 1, 1] ∧
        Span.cutWords 2 4 (List.range 4) 0 = some spans := by
  have room : reserve 4 spanBytes = .ok () := by decide
  obtain ⟨spans, cut, -, -, -, -, -, sizes, words⟩ := partition_balanced 2 (by decide) room
  exact ⟨by decide, room, by decide, spans, cut, sizes, words (by decide)⟩

/-- There is no room for the spans of so many threads, hence nothing is cut. -/
theorem partition_overcrowded :
    0 < Nat.pow 2 59 ∧ partition 1 (Nat.pow 2 59) = .error .capacity ∧
      ¬ ∃ spans, partition 1 (Nat.pow 2 59) = .ok spans ∧ spans.length = Nat.pow 2 59 := by
  have refused : partition 1 (Nat.pow 2 59) = .error .capacity := rfl
  refine ⟨by decide, refused, ?_⟩
  rintro ⟨spans, cut, -⟩
  rw [refused] at cut
  exact nomatch cut

end Descent

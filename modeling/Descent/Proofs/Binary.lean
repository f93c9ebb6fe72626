import Mathlib
import Descent.Proofs.Lawful
import Descent.Scalar.Binary

/-!
Both machine formats keep the laws. The comparisons follow a place on a line, `rank`, that an
undefined number does not have. Multiplying by minus one only turns the sign, because a number
that the format can store survives being shifted out and rounded back.
-/

namespace Descent

namespace Binary

open Float.Model Float.Model.UnpackedFloat

/-- Where a number stands in the order; both zeros stand in one place, an undefined number in
none. -/
def rank : UnpackedFloat → Option (ℤ ×ₗ ℤ ×ₗ ℤ)
  | .notANumber => none
  | .infinity .negative => some (toLex (-2, toLex (0, 0)))
  | .finite .negative mantissa exponent _ => some (toLex (-1, toLex (-exponent, -mantissa)))
  | .zero _ => some (toLex (0, toLex (0, 0)))
  | .finite .positive mantissa exponent _ => some (toLex (1, toLex (exponent, mantissa)))
  | .infinity .positive => some (toLex (2, toLex (0, 0)))

theorem compare_neg (e f : ℤ) : compare (-e) (-f) = (compare e f).swap := by
  rw [Int.compare_swap, Int.compare_eq_ite_lt, Int.compare_eq_ite_lt]
  simp only [neg_lt_neg_iff]

theorem compare_natCast (m k : ℕ) : compare (m : ℤ) k = compare m k := by
  simp only [Int.compare_eq_ite_lt, Nat.compare_eq_ite_lt, Nat.cast_lt]

-- Every pair of shapes is compared once here. The order lemmas below only read places.
theorem compare_eq_rank (a b : UnpackedFloat) :
    a.compare b = (rank a).bind fun p => (rank b).map fun q => compare p q := by
  rcases a with (_ | _) | _ | (_ | _) | ⟨_ | _, m, e, _⟩ <;>
  rcases b with (_ | _) | _ | (_ | _) | ⟨_ | _, k, f, _⟩ <;>
  simp [UnpackedFloat.compare, rank, Prod.Lex.compare_def, compareLex, compareOn,
    compare_neg, compare_natCast, Ordering.swap_then]
  all_goals rfl

theorem le_iff_rank (a b : UnpackedFloat) :
    a.le b = true ↔ ∃ p q, rank a = some p ∧ rank b = some q ∧ p ≤ q := by
  rw [UnpackedFloat.le, compare_eq_rank]
  cases rank a <;> cases rank b <;> simp [← Ordering.ne_gt_iff_isLE, compare_le_iff_le]

theorem lt_iff_rank (a b : UnpackedFloat) :
    a.lt b = true ↔ ∃ p q, rank a = some p ∧ rank b = some q ∧ p < q := by
  rw [UnpackedFloat.lt, compare_eq_rank]
  cases rank a <;> cases rank b <;> simp [compare_lt_iff_lt]

theorem beq_iff_rank (a b : UnpackedFloat) :
    a.beq b = true ↔ ∃ p q, rank a = some p ∧ rank b = some q ∧ p = q := by
  rw [UnpackedFloat.beq, compare_eq_rank]
  cases rank a <;> cases rank b <;> simp [compare_eq_iff_eq]
  exact eq_comm

theorem rank_le_top {number : UnpackedFloat} {place : ℤ ×ₗ ℤ ×ₗ ℤ}
    (stands : rank number = some place) : place ≤ toLex (2, toLex (0, 0)) := by
  rcases number with (_ | _) | _ | (_ | _) | ⟨_ | _, m, e, _⟩ <;>
    simp only [rank, Option.some.injEq, reduceCtorEq] at stands <;> subst stands <;>
    simp [Prod.Lex.toLex_le_toLex]

theorem isFinite_iff_rank (number : UnpackedFloat) :
    number.isFinite = true ↔ ∃ place, rank number = some place ∧
      toLex (-2, toLex (0, 0)) < place ∧ place < toLex (2, toLex (0, 0)) := by
  rcases number with (_ | _) | _ | (_ | _) | ⟨_ | _, m, e, _⟩ <;>
    simp [UnpackedFloat.isFinite, rank, Prod.Lex.toLex_lt_toLex]

theorem rank_neg_defined {number : UnpackedFloat} :
    (∃ place, rank number = some place) → ∃ place, rank number.neg = some place := by
  rcases number with (_ | _) | _ | (_ | _) | ⟨_ | _, m, e, _⟩ <;>
    simp [rank, UnpackedFloat.neg]

theorem rank_abs_defined {number : UnpackedFloat} :
    (∃ place, rank number.abs = some place) ↔ ∃ place, rank number = some place := by
  rcases number with (_ | _) | _ | (_ | _) | ⟨_ | _, m, e, _⟩ <;>
    simp [rank, UnpackedFloat.abs]

theorem neg_compare (a b : UnpackedFloat) : a.neg.compare b = b.neg.compare a := by
  rcases a with (_ | _) | _ | (_ | _) | ⟨_ | _, m, e, _⟩ <;>
  rcases b with (_ | _) | _ | (_ | _) | ⟨_ | _, k, f, _⟩ <;>
    simp [UnpackedFloat.compare, UnpackedFloat.neg, Ordering.swap_then, Int.compare_swap,
      Nat.compare_swap]
  all_goals rfl

theorem neg_lt_zero {number : UnpackedFloat}
    (above : (UnpackedFloat.zero .positive).lt number = true) :
    number.neg.lt (.zero .positive) = true := by
  rcases number with (_ | _) | _ | (_ | _) | ⟨_ | _, m, e, _⟩ <;>
    simp [UnpackedFloat.lt, UnpackedFloat.compare, UnpackedFloat.neg] at above ⊢

theorem abs_le_zero_iff (number : UnpackedFloat) :
    number.abs.le (.zero .positive) = true ↔ number.beq (.zero .positive) = true := by
  rcases number with (_ | _) | _ | (_ | _) | ⟨_ | _, m, e, _⟩ <;>
    simp [UnpackedFloat.le, UnpackedFloat.beq, UnpackedFloat.compare, UnpackedFloat.abs]

/-! Numbers that a format can store. -/

section Format

variable (format : Format)

def Fits : UnpackedFloat → Prop
  | .finite _ mantissa exponent _ =>
      mantissa < 2 ^ format.mantissaBits ∧ format.minExponent ≤ exponent ∧
        exponent ≤ format.exponentBias - format.mantissaBitsWithoutImplicit ∧
        (2 ^ format.mantissaBitsWithoutImplicit ≤ mantissa ∨ exponent = format.minExponent)
  | _ => True

theorem two_pow_exponentBits : 2 ^ format.exponentBits = 2 * format.exponentBias + 2 := by
  obtain ⟨bits, same⟩ := Nat.exists_eq_succ_of_ne_zero (Nat.pos_iff_ne_zero.mp format.he)
  have positive : 0 < 2 ^ bits := by positivity
  simp only [Format.exponentBias, same, Nat.succ_eq_add_one, Nat.add_sub_cancel, pow_succ]
  omega

theorem minExponent_eq :
    format.minExponent =
      1 - (format.exponentBias : ℤ) - format.mantissaBitsWithoutImplicit := by
  have positive : 0 < 2 ^ (format.exponentBits - 1) := by positivity
  simp only [Format.minExponent, Format.exponentBias, Format.mantissaBits]
  push_cast [Nat.cast_sub positive]
  ring

theorem toNat_full {bits : ℕ} : (-1#_ : BitVec bits).toNat = 2 ^ bits - 1 := by
  rw [BitVec.neg_one_eq_allOnes, BitVec.toNat_allOnes]

theorem ofNat_ne_full {bits value : ℕ} (below : value + 1 < 2 ^ bits) :
    BitVec.ofNat bits value ≠ -1#_ := by
  rw [BitVec.toNat_ne, toNat_full, BitVec.toNat_ofNat, Nat.mod_eq_of_lt (by omega)]
  omega

theorem ofNat_ne_zero {bits value : ℕ} (positive : 0 < value) (below : value < 2 ^ bits) :
    BitVec.ofNat bits value ≠ 0#_ := by
  rw [BitVec.toNat_ne, BitVec.toNat_zero, BitVec.toNat_ofNat, Nat.mod_eq_of_lt below]
  omega

theorem toNat_implicit {bits : ℕ} (fraction : BitVec bits) :
    (1#1 ++ fraction).toNat = 2 ^ bits + fraction.toNat := by
  rw [BitVec.toNat_append, ← Nat.shiftLeft_add_eq_or_of_lt fraction.isLt]
  simp [Nat.shiftLeft_eq]

theorem fits_unpack (wide : 1 < format.exponentBits) (word : BitVec format.numBits) :
    Fits format (unpack format word) := by
  have room := two_pow_exponentBits format
  have least := minExponent_eq format
  have four : 2 ^ 2 ≤ 2 ^ format.exponentBits := Nat.pow_le_pow_right (by omega) wide
  have double : 2 ^ format.mantissaBits = 2 ^ format.mantissaBitsWithoutImplicit * 2 := by
    rw [Format.mantissaBits, add_comm, pow_succ]
  generalize exponentIs : (unpackExponent word : BitVec format.exponentBits) = exponent
  generalize fractionIs :
    (unpackMantissa word : BitVec format.mantissaBitsWithoutImplicit) = fraction
  have below := fraction.isLt
  have exponentBelow := exponent.isLt
  simp only [UnpackedFloat.unpack, exponentIs, fractionIs]
  split_ifs with full empty low empty
  · trivial
  · trivial
  · trivial
  · simp only [Fits, low, BitVec.toNat_zero]
    exact ⟨by omega, by omega, by omega, by omega⟩
  · have nonzero : exponent.toNat ≠ 0 := fun same =>
      low (BitVec.eq_of_toNat_eq (by simpa using same))
    have notFull : exponent.toNat ≠ 2 ^ format.exponentBits - 1 := fun same =>
      full (BitVec.eq_of_toNat_eq (by simpa [BitVec.neg_one_eq_allOnes] using same))
    simp only [Fits, toNat_implicit]
    exact ⟨by omega, by omega, by omega, by omega⟩

theorem unpackSign_packComponents (sign : Sign) (exponent : BitVec format.exponentBits)
    (fraction : BitVec format.mantissaBitsWithoutImplicit) :
    unpackSign (packComponents format sign exponent fraction) = sign.toBitVec := by
  apply BitVec.eq_of_getLsbD_eq
  intro index below
  obtain rfl : index = 0 := by omega
  simp [unpackSign, packComponents, BitVec.getLsbD_append, BitVec.getElem_append]

theorem sign_ofBitVec (sign : Sign) : Sign.ofBitVec sign.toBitVec = sign := by
  cases sign <;> rfl

theorem unpack_packComponents (sign : Sign) (exponent : BitVec format.exponentBits)
    (fraction : BitVec format.mantissaBitsWithoutImplicit) :
    UnpackedFloat.unpack format (packComponents format sign exponent fraction) =
      if exponent = -1#_ then if fraction = 0#_ then .infinity sign else .notANumber
      else if exponent = 0#_ then
        if filled : fraction = 0#_ then .zero sign
        else
          .finite sign fraction.toNat
            (1 - (format.exponentBias + format.mantissaBitsWithoutImplicit : ℤ))
            (by simpa [BitVec.toNat_pos, BitVec.pos_iff_ne_zero] using filled)
      else
        .finite sign (1#1 ++ fraction).toNat
          (exponent.toNat - (format.exponentBias + format.mantissaBitsWithoutImplicit : ℤ))
          (by simp) := by
  simp only [UnpackedFloat.unpack, unpackExponent_packComponents, unpackMantissa_packComponents,
    unpackSign_packComponents, sign_ofBitVec]
  split_ifs with full empty low empty
  · rfl
  · rfl
  · rfl
  · simp only [low, BitVec.toNat_zero]
    congr 1
    push_cast
    ring
  · rfl

theorem unpack_pack_finite (sign : Sign) (mantissa : ℕ) (exponent : ℤ) (positive : 0 < mantissa)
    (fits : Fits format (.finite sign mantissa exponent positive)) :
    UnpackedFloat.unpack format
        (UnpackedFloat.pack format (.finite sign mantissa exponent positive)) =
      .finite sign mantissa exponent positive := by
  obtain ⟨short, low, high, full⟩ := fits
  have room := two_pow_exponentBits format
  have least := minExponent_eq format
  have double : 2 ^ format.mantissaBits = 2 * 2 ^ format.mantissaBitsWithoutImplicit := by
    rw [Format.mantissaBits, pow_add, pow_one]
  have log : mantissa.log2 + 1 = format.mantissaBits ↔
      2 ^ format.mantissaBitsWithoutImplicit ≤ mantissa := by
    have upper := (Nat.log2_lt positive.ne').mpr short
    have lower : format.mantissaBitsWithoutImplicit ≤ mantissa.log2 ↔ _ :=
      Nat.le_log2 positive.ne'
    rw [← lower]
    rw [Format.mantissaBits] at upper ⊢
    omega
  have fitting : ¬ 2 ^ format.exponentBits ≤
      (exponent + format.exponentBias + format.mantissaBitsWithoutImplicit).toNat + 1 := by omega
  rw [UnpackedFloat.pack]
  simp only [fitting, if_false, log]
  generalize biasedIs : (exponent + format.exponentBias +
    format.mantissaBitsWithoutImplicit).toNat = biased at fitting ⊢
  have biasedValue : (BitVec.ofNat format.exponentBits biased).toNat = biased :=
    Nat.mod_eq_of_lt (by omega)
  split_ifs with normal
  · have once : mantissa % 2 ^ format.mantissaBitsWithoutImplicit =
        mantissa - 2 ^ format.mantissaBitsWithoutImplicit := by
      rw [Nat.mod_eq_sub_mod normal, Nat.mod_eq_of_lt (by omega)]
    have notFull : BitVec.ofNat format.exponentBits biased ≠ -1#_ := ofNat_ne_full (by omega)
    have notLow : BitVec.ofNat format.exponentBits biased ≠ 0#_ :=
      ofNat_ne_zero (by omega) (by omega)
    simp only [unpack_packComponents, notFull, notLow, if_false, toNat_implicit, biasedValue,
      BitVec.toNat_ofNat, once]
    rw [finite.injEq]
    exact ⟨rfl, by omega, by omega⟩
  · -- a short mantissa is stored as it is, with the lowest exponent
    have fraction : (BitVec.ofNat format.mantissaBitsWithoutImplicit mantissa).toNat = mantissa :=
      Nat.mod_eq_of_lt (by omega)
    have filled : BitVec.ofNat format.mantissaBitsWithoutImplicit mantissa ≠ 0#_ :=
      ofNat_ne_zero positive (by omega)
    have notFull : (0#_ : BitVec format.exponentBits) ≠ -1#_ := ofNat_ne_full (by omega)
    have atLeast : exponent = format.minExponent := full.resolve_left normal
    simp only [unpack_packComponents, notFull, filled, if_false, if_true, dite_false, fraction]
    rw [finite.injEq]
    exact ⟨rfl, rfl, by omega⟩

theorem unpack_pack (wide : 1 < format.exponentBits) (number : UnpackedFloat)
    (fits : Fits format number) :
    UnpackedFloat.unpack format (UnpackedFloat.pack format number) = number := by
  have four : 2 ^ 2 ≤ 2 ^ format.exponentBits := Nat.pow_le_pow_right (by omega) wide
  have notFull : (0#_ : BitVec format.exponentBits) ≠ -1#_ := ofNat_ne_full (by omega)
  cases number with
  | infinity sign => simp [UnpackedFloat.pack, packedInfinity, unpack_packComponents]
  | zero sign => simp [UnpackedFloat.pack, packedZero, unpack_packComponents, notFull]
  | finite sign mantissa exponent positive =>
    exact unpack_pack_finite format sign mantissa exponent positive fits
  | notANumber =>
    have filled : ((1#_ : BitVec format.mantissaBitsWithoutImplicit) <<<
        (format.mantissaBitsWithoutImplicit - 1)) ≠ 0#_ := by
      intro same
      have := congrArg BitVec.toNat same
      have some := format.hm
      rw [BitVec.toNat_shiftLeft, BitVec.toNat_zero, BitVec.toNat_ofNat,
        Nat.mod_eq_of_lt (Nat.one_lt_two_pow (by omega)), Nat.shiftLeft_eq, one_mul,
        Nat.mod_eq_of_lt (Nat.pow_lt_pow_right (by omega) (by omega))] at this
      exact absurd this (by positivity)
    simp [UnpackedFloat.pack, packedNaN, unpack_packComponents, filled]

theorem fits_neg (number : UnpackedFloat) (fits : Fits format number) :
    Fits format number.neg := by
  cases number <;> exact fits

theorem fits_abs (number : UnpackedFloat) (fits : Fits format number) :
    Fits format number.abs := by
  cases number <;> exact fits

-- Bits that were shifted in are shifted out again, and none of them was set.
theorem repeat_shiftRightOne (mantissa count : ℕ) :
    count.repeat ExtendedMantissa.shiftRightOne ⟨mantissa * 2 ^ count, false, false⟩ =
      ⟨mantissa, false, false⟩ := by
  induction count generalizing mantissa with
  | zero => simp [Nat.repeat]
  | succ count step =>
    have halved := step (mantissa * 2)
    rw [mul_assoc, ← pow_succ'] at halved
    rw [Nat.repeat, halved]
    simp [ExtendedMantissa.shiftRightOne]

theorem log2_mul_two_pow (mantissa count : ℕ) (positive : 0 < mantissa) :
    (mantissa * 2 ^ count).log2 = mantissa.log2 + count := by
  induction count with
  | zero => simp
  | succ count step =>
    have filled : mantissa * 2 ^ count ≠ 0 := by positivity
    rw [pow_succ', mul_left_comm, Nat.log2_two_mul filled, step]
    rfl

-- A product with a power of two asks for the exponent that the other factor had.
theorem targetExponent_of_fits (sign : Sign) (mantissa count : ℕ) (exponent : ℤ)
    (positive : 0 < mantissa) (fits : Fits format (.finite sign mantissa exponent positive)) :
    format.targetExponent (totalExponent (mantissa * 2 ^ count) (exponent - count)) = exponent := by
  obtain ⟨short, low, high, full⟩ := fits
  have log : (mantissa * 2 ^ count).log2 = mantissa.log2 + count :=
    log2_mul_two_pow mantissa count positive
  have upper := (Nat.log2_lt positive.ne').mpr short
  have lower : format.mantissaBitsWithoutImplicit ≤ mantissa.log2 ↔ _ :=
    Nat.le_log2 positive.ne'
  rw [← lower] at full
  rw [Format.targetExponent, totalExponent, log]
  rw [Format.mantissaBits] at upper ⊢
  push_cast
  omega

theorem shift_of_fits (sign : Sign) (mantissa count : ℕ) (exponent : ℤ)
    (positive : 0 < mantissa) (fits : Fits format (.finite sign mantissa exponent positive)) :
    shiftToTargetExponent format (mantissa * 2 ^ count) (exponent - count) .exact =
      (⟨mantissa, false, false⟩, exponent) := by
  have amount : (exponent - (exponent - (count : ℤ))).toNat = count := by omega
  simp only [shiftToTargetExponent, shiftToExponent,
    targetExponent_of_fits format sign mantissa count exponent positive fits, amount,
    ExtendedMantissa.ofMantissaAndAccuracy, sub_add_cancel]
  exact congrArg (·, exponent) (repeat_shiftRightOne mantissa count)

theorem round_of_fits (sign other : Sign) (mantissa count : ℕ) (exponent : ℤ)
    (positive : 0 < mantissa) (fits : Fits format (.finite sign mantissa exponent positive)) :
    roundWithAccuracy format other (mantissa * 2 ^ count) (exponent - count) .exact =
      .finite other mantissa exponent positive := by
  have again := shift_of_fits format sign mantissa 0 exponent positive fits
  simp only [pow_zero, mul_one, Nat.cast_zero, sub_zero] at again
  simp only [roundWithAccuracy, shift_of_fits format sign mantissa count exponent positive fits,
    ExtendedMantissa.roundedMantissa, ExtendedMantissa.accuracy, Accuracy.roundToNearestEven, again,
    positive.ne', dite_false]

def minusOne : UnpackedFloat :=
  .finite .negative (2 ^ format.mantissaBitsWithoutImplicit)
    (-format.mantissaBitsWithoutImplicit) (by positivity)

theorem mul_minusOne (number : UnpackedFloat) (fits : Fits format number) :
    number.mul format (minusOne format) = number.neg := by
  have turned (sign : Sign) : sign * .negative = -sign := by cases sign <;> rfl
  cases number with
  | infinity sign => simp [UnpackedFloat.mul, minusOne, UnpackedFloat.neg, turned]
  | zero sign => simp [UnpackedFloat.mul, minusOne, UnpackedFloat.neg, turned]
  | notANumber => rfl
  | finite sign mantissa exponent positive =>
    simp only [UnpackedFloat.mul, minusOne, UnpackedFloat.neg, turned]
    exact round_of_fits format sign _ mantissa _ exponent positive fits

theorem mul_neg_neg (number : UnpackedFloat) :
    number.neg.mul format number.neg = number.mul format number := by
  have turned (sign : Sign) : -sign * -sign = sign * sign := by cases sign <;> rfl
  cases number <;> simp [UnpackedFloat.mul, UnpackedFloat.neg, turned]

end Format

/-- A scalar type whose numbers are those of a format, with operations that unpack their
operands and pack what they find. -/
structure Stores (F : Type) [Unbounded F] (format : Format) (unpack : F → UnpackedFloat)
    (pack : UnpackedFloat → F) : Prop where
  fits (x : F) : Fits format (unpack x)
  unpack_pack {number : UnpackedFloat} : Fits format number → unpack (pack number) = number
  le_iff (x y : F) : x ≤ y ↔ (unpack x).le (unpack y) = true
  lt_iff (x y : F) : x < y ↔ (unpack x).lt (unpack y) = true
  beq_eq (x y : F) : (x == y) = (unpack x).beq (unpack y)
  neg_eq (x : F) : -x = pack (unpack x).neg
  abs_eq (x : F) : Scalar.abs x = pack (unpack x).abs
  mul_eq (x y : F) : x * y = pack ((unpack x).mul format (unpack y))
  minusOne : unpack (-1) = minusOne format
  zero : unpack 0 = .zero .positive
  infinity : unpack Unbounded.infinity = .infinity .positive
  isFinite_infinity : Scalar.isFinite (Unbounded.infinity : F) = false
  zero_add_zero : (0 : F) + 0 = 0
  zero_mul_zero : (0 : F) * 0 = 0
  sqrt_zero : Scalar.sqrt (0 : F) = 0

namespace Stores

variable {F : Type} [Unbounded F] {format : Format} {unpack : F → UnpackedFloat}
variable {pack : UnpackedFloat → F} (stores : Stores F format unpack pack)
include stores

theorem le_iff_rank (x y : F) :
    x ≤ y ↔ ∃ p q, rank (unpack x) = some p ∧ rank (unpack y) = some q ∧ p ≤ q := by
  rw [stores.le_iff, Binary.le_iff_rank]

theorem defined_iff (x : F) : x ≤ x ↔ ∃ p, rank (unpack x) = some p := by
  rw [stores.le_iff_rank]
  constructor
  · rintro ⟨p, _, left, _⟩
    exact ⟨p, left⟩
  · rintro ⟨p, left⟩
    exact ⟨p, p, left, left, le_refl p⟩

theorem unpack_neg (x : F) : unpack (-x) = (unpack x).neg := by
  rw [stores.neg_eq, stores.unpack_pack (fits_neg format _ (stores.fits x))]

theorem unpack_abs (x : F) : unpack (Scalar.abs x) = (unpack x).abs := by
  rw [stores.abs_eq, stores.unpack_pack (fits_abs format _ (stores.fits x))]

theorem unpack_mul_minusOne (x : F) : unpack (x * (-1)) = (unpack x).neg := by
  rw [stores.mul_eq, stores.minusOne, mul_minusOne format _ (stores.fits x),
    stores.unpack_pack (fits_neg format _ (stores.fits x))]

theorem lawful : Lawful F where
  defined_of_le {x y} := by
    rw [stores.le_iff_rank, stores.defined_iff, stores.defined_iff]
    rintro ⟨p, q, left, right, _⟩
    exact ⟨⟨p, left⟩, ⟨q, right⟩⟩
  le_trans {x y z} := by
    simp only [stores.le_iff_rank]
    rintro ⟨p, q, left, middle, below⟩ ⟨q', r, middle', right, below'⟩
    obtain rfl : q = q' := Option.some.inj (middle.symm.trans middle')
    exact ⟨p, r, left, right, le_trans below below'⟩
  le_total {x y} := by
    simp only [stores.defined_iff, stores.le_iff_rank]
    rintro ⟨p, left⟩ ⟨q, right⟩
    rcases le_total p q with below | above
    · exact Or.inl ⟨p, q, left, right, below⟩
    · exact Or.inr ⟨q, p, right, left, above⟩
  lt_iff {x y} := by
    rw [stores.lt_iff, Binary.lt_iff_rank, stores.le_iff_rank, stores.le_iff_rank]
    constructor
    · rintro ⟨p, q, left, right, below⟩
      refine ⟨⟨p, q, left, right, below.le⟩, ?_⟩
      rintro ⟨q', p', right', left', above⟩
      rw [left, Option.some.injEq] at left'
      rw [right, Option.some.injEq] at right'
      subst left' right'
      exact absurd above below.not_ge
    · rintro ⟨⟨p, q, left, right, _⟩, apart⟩
      exact ⟨p, q, left, right, lt_of_not_ge fun above => apart ⟨q, p, right, left, above⟩⟩
  beq_iff {x y} := by
    rw [stores.beq_eq, Binary.beq_iff_rank, stores.le_iff_rank, stores.le_iff_rank]
    constructor
    · rintro ⟨p, _, left, right, rfl⟩
      exact ⟨⟨p, p, left, right, le_refl p⟩, ⟨p, p, right, left, le_refl p⟩⟩
    · rintro ⟨⟨p, q, left, right, below⟩, ⟨q', p', right', left', above⟩⟩
      rw [left, Option.some.injEq] at left'
      rw [right, Option.some.injEq] at right'
      subst left' right'
      exact ⟨p, q, left, right, le_antisymm below above⟩
  le_infinity {x} := by
    rw [stores.defined_iff, stores.le_iff_rank, stores.infinity]
    rintro ⟨p, left⟩
    exact ⟨p, _, left, rfl, rank_le_top left⟩
  isFinite_infinity := stores.isFinite_infinity
  zero_defined := by
    rw [stores.defined_iff, stores.zero]
    exact ⟨_, rfl⟩
  neg_defined {x} := by
    rw [stores.defined_iff, stores.defined_iff, stores.unpack_neg]
    exact rank_neg_defined
  neg_le_of_neg_le {x y} := by
    rw [stores.le_iff, stores.le_iff, stores.unpack_neg, stores.unpack_neg,
      UnpackedFloat.le, neg_compare, UnpackedFloat.le]
    exact id
  abs_defined_iff {x} := by
    rw [stores.defined_iff, stores.defined_iff, stores.unpack_abs]
    exact rank_abs_defined
  zero_add_zero := stores.zero_add_zero
  zero_mul_zero := stores.zero_mul_zero
  sqrt_zero := stores.sqrt_zero
  square_neg x := by
    rw [stores.mul_eq (x * (-1)), stores.unpack_mul_minusOne, mul_neg_neg, ← stores.mul_eq]

theorem opposing : Opposing F where
  neg_lt_zero {x} above := by
    rw [stores.lt_iff, stores.zero] at above ⊢
    rw [stores.unpack_neg]
    exact Binary.neg_lt_zero above

theorem magnitudes : Magnitudes F where
  abs_le_zero_iff {x} := by
    rw [stores.le_iff, stores.unpack_abs, Scalar.isZero, stores.beq_eq, stores.zero]
    exact Binary.abs_le_zero_iff (unpack x)

theorem enclosed (finite : ∀ x : F, Scalar.isFinite x = (unpack x).isFinite) : Enclosed F where
  isFinite_iff {x} := by
    rw [finite, isFinite_iff_rank, stores.lt_iff, stores.lt_iff, Binary.lt_iff_rank,
      Binary.lt_iff_rank, stores.unpack_neg, stores.infinity]
    constructor
    · rintro ⟨place, stands, above, below⟩
      exact ⟨⟨_, place, rfl, stands, above⟩, ⟨place, _, stands, rfl, below⟩⟩
    · rintro ⟨⟨_, place, bottom, stands, above⟩, ⟨place', _, stands', top, below⟩⟩
      cases bottom
      cases top
      obtain rfl : place = place' := Option.some.inj (stands.symm.trans stands')
      exact ⟨place, stands, above, below⟩

end Stores

end Binary

open Binary Float.Model

theorem binary64_stores :
    Stores Float .binary64 (fun x => x.toModel.unpack) (fun number => .ofModel (.pack number)) where
  fits x := fits_unpack .binary64 (by decide) x.toModel.toBits.toBitVec
  unpack_pack fits := unpack_pack .binary64 (by decide) _ fits
  le_iff x y := decide_eq_true_iff
  lt_iff x y := decide_eq_true_iff
  beq_eq x y := rfl
  neg_eq x := rfl
  abs_eq x := rfl
  mul_eq x y := rfl
  minusOne := rfl
  zero := rfl
  infinity := rfl
  isFinite_infinity := by decide +kernel
  zero_add_zero := by decide +kernel
  zero_mul_zero := by decide +kernel
  sqrt_zero := by decide +kernel

theorem binary32_stores :
    Stores Float32 .binary32 (fun x => x.toModel.unpack)
      (fun number => .ofModel (.pack number)) where
  fits x := fits_unpack .binary32 (by decide) x.toModel.toBits.toBitVec
  unpack_pack fits := unpack_pack .binary32 (by decide) _ fits
  le_iff x y := decide_eq_true_iff
  lt_iff x y := decide_eq_true_iff
  beq_eq x y := rfl
  neg_eq x := rfl
  abs_eq x := rfl
  mul_eq x y := rfl
  minusOne := rfl
  zero := rfl
  infinity := rfl
  isFinite_infinity := by decide +kernel
  zero_add_zero := by decide +kernel
  zero_mul_zero := by decide +kernel
  sqrt_zero := by decide +kernel

instance : Lawful Float := binary64_stores.lawful

instance : Lawful Float32 := binary32_stores.lawful

instance : Opposing Float := binary64_stores.opposing

instance : Opposing Float32 := binary32_stores.opposing

instance : Forward Float where
  zero_lt_one := by decide +kernel

instance : Forward Float32 where
  zero_lt_one := by decide +kernel

instance : Magnitudes Float := binary64_stores.magnitudes

instance : Magnitudes Float32 := binary32_stores.magnitudes

instance : Enclosed Float := binary64_stores.enclosed fun _ => rfl

instance : Enclosed Float32 := binary32_stores.enclosed fun _ => rfl

end Descent

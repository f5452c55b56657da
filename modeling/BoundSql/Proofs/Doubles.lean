import BoundSql.Proofs.Decimals
import Mathlib.Data.Rat.Lemmas

/-!
The double that a decimal is read as. It is the finite one nearest to the exact value, a tie going
to the even pattern, and there is one unless the value is so great that the nearest would be an
infinity, or so near to zero that it would be a zero.
-/

namespace BoundSql

open Text Binary

-- Powers are the built-in ones, whatever else is imported.
attribute [local instance (high)] instPowNat

namespace Numeral

variable {t : Text}

theorem toNat_digit {c : UInt8} (digit : isDigit c = true) : 48 ≤ c.toNat ∧ c.toNat ≤ 57 := by
  simp only [isDigit, Bool.and_eq_true, decide_eq_true_eq, UInt8.le_iff_toNat_le] at digit
  exact digit

theorem digitValue_lt {c : UInt8} (digit : isDigit c = true) : digitValue c < 10 := by
  have bounds := toNat_digit digit
  rw [digitValue]
  omega

theorem value_lt (digits : ∀ c ∈ t, isDigit c = true) : value t < 10 ^ t.length := by
  induction t with
  | nil => decide
  | cons c t ih =>
      have rest := ih fun c member => digits c (List.mem_cons_of_mem _ member)
      have small := digitValue_lt (digits c List.mem_cons_self)
      have front : digitValue c * 10 ^ t.length ≤ 9 * 10 ^ t.length :=
        Nat.mul_le_mul_right _ (Nat.le_of_lt_succ small)
      rw [value_cons, List.length_cons, Nat.pow_succ]
      omega

theorem value_dropWhile (t : Text) : value (t.dropWhile (· == zero)) = value t := by
  induction t with
  | nil => rfl
  | cons c t ih =>
      by_cases same : c = zero
      · subst same
        rw [List.dropWhile_cons_of_pos (by simp), ih]
        exact (value_zeros 1 t).symm
      · rw [List.dropWhile_cons_of_neg (by simpa using same)]

/-- How great a number is shows in how many digits it has without leading zeros. -/
theorem value_bounds (digits : ∀ c ∈ t, isDigit c = true) (some : value t ≠ 0) :
    10 ^ (t.dropWhile (· == zero)).length ≤ 10 * value t ∧
      value t < 10 ^ (t.dropWhile (· == zero)).length := by
  have digits' : ∀ c ∈ t.dropWhile (· == zero), isDigit c = true :=
    fun c member => digits c ((List.dropWhile_sublist _).mem member)
  rw [← value_dropWhile t] at some ⊢
  refine ⟨?_, value_lt digits'⟩
  have first := List.head?_dropWhile_not (· == zero) t
  cases stripped : t.dropWhile (· == zero) with
  | nil =>
      rw [stripped] at some
      exact absurd rfl some
  | cons c rest =>
      rw [stripped] at first digits'
      have digit := toNat_digit (digits' c List.mem_cons_self)
      have other : c.toNat ≠ 48 := by
        intro same
        have : c = zero := UInt8.toNat_inj.mp same
        simp [this] at first
      have front : 1 * 10 ^ rest.length ≤ digitValue c * 10 ^ rest.length :=
        Nat.mul_le_mul_right _ (by rw [digitValue]; omega)
      rw [value_cons, List.length_cons, Nat.pow_succ]
      omega

end Numeral

namespace Decimal

variable {d : Decimal}

theorem quotient_eq (d : Decimal) :
    (d.quotient.1 / d.quotient.2 : ℚ) = Numeral.value d.digits * 10 ^ d.exponent := by
  obtain ⟨n, whole | places⟩ := d.exponent.eq_nat_or_neg
  · simp [quotient, whole]
  · simp [quotient, places, div_eq_mul_inv]

theorem quotient_pos (d : Decimal) : 0 < d.quotient.2 := Nat.pow_pos (by decide)

theorem rational_eq (d : Decimal) :
    d.rational = withSign d.negative (d.quotient.1 / d.quotient.2) := by
  rw [rational, Rat.mkRat_eq_div, withSign]
  cases d.negative <;> simp [neg_div]

theorem abs_rational (d : Decimal) : |d.rational| = d.quotient.1 / d.quotient.2 := by
  rw [rational_eq]
  exact abs_withSign d.negative (by positivity)

theorem rational_eq_zero : d.rational = 0 ↔ Numeral.value d.digits = 0 := by
  have power : (10 : ℚ) ^ d.exponent ≠ 0 := zpow_ne_zero _ (by norm_num)
  rw [← abs_eq_zero, abs_rational, quotient_eq, mul_eq_zero, or_iff_left power]
  exact Nat.cast_eq_zero

/-- What has a nearest double that is finite, and is no zero unless the number is zero. -/
def InRange (x : ℚ) : Prop := x = 0 ∨ 1 / 2 ^ 1075 < |x| ∧ |x| < 2 ^ 1024 - 2 ^ 970

theorem order_bounds (digits : ∀ c ∈ d.digits, isDigit c = true) (some : d.rational ≠ 0) :
    10 ^ d.order ≤ 10 * |d.rational| ∧ |d.rational| < 10 ^ d.order := by
  obtain ⟨least, most⟩ := Numeral.value_bounds digits (mt rational_eq_zero.mpr some)
  have ten : (10 : ℚ) ≠ 0 := by norm_num
  have power : (0 : ℚ) < 10 ^ d.exponent := zpow_pos (by norm_num) _
  rw [abs_rational, quotient_eq, order, zpow_add₀ ten, zpow_natCast, ← mul_assoc]
  constructor
  · exact mul_le_mul_of_nonneg_right (by exact_mod_cast least) power.le
  · exact mul_lt_mul_of_pos_right (by exact_mod_cast most) power

/-- The power of ten decides only about numbers that are out of range. -/
theorem inReach_of_inRange (digits : ∀ c ∈ d.digits, isDigit c = true) (some : d.rational ≠ 0)
    (inRange : InRange d.rational) : d.inReach = true := by
  obtain ⟨large, small⟩ := inRange.resolve_left some
  obtain ⟨least, most⟩ := order_bounds digits some
  rw [inReach, Bool.and_eq_true, decide_eq_true_eq, decide_eq_true_eq]
  have one : (1 : ℚ) ≤ 10 := by norm_num
  constructor
  · by_contra low
    have power : (10 : ℚ) ^ d.order ≤ 10 ^ (-324 : ℤ) := zpow_le_zpow_right₀ one (by omega)
    have tiny : (10 : ℚ) ^ (-324 : ℤ) ≤ 1 / 2 ^ 1075 := by
      have whole : 2 ^ 1075 ≤ 10 ^ 324 := by decide +kernel
      rw [zpow_neg, ← one_div]
      exact one_div_le_one_div_of_le (by positivity) (by exact_mod_cast whole)
    exact absurd large (not_lt.mpr ((most.le.trans power).trans tiny))
  · by_contra high
    have power : (10 : ℚ) ^ (310 : ℤ) ≤ 10 ^ d.order := zpow_le_zpow_right₀ one (by omega)
    have huge : (10 * 2 ^ 1024 : ℚ) ≤ 10 ^ (310 : ℤ) := by
      have whole : 10 * 2 ^ 1024 ≤ 10 ^ 310 := by decide +kernel
      exact_mod_cast whole
    have reach : (2 : ℚ) ^ 1024 ≤ |d.rational| :=
      le_of_mul_le_mul_left (huge.trans (power.trans least)) (by norm_num)
    have below : (2 : ℚ) ^ 1024 - 2 ^ 970 < 2 ^ 1024 := sub_lt_self _ (by positivity)
    exact absurd (small.trans below) (not_lt.mpr reach)

/-- Half of the last place of the greatest number above it, in units. -/
theorem overflow_units : ((2 * double.implicitBit - 1 / 2) * 2 ^ 2045 : ℚ) =
    (2 ^ 1024 - 2 ^ 970) * 2 ^ 1074 := by
  have bit : (2 * double.implicitBit : ℚ) = 2 ^ 53 := by norm_num [Format.implicitBit, double]
  have whole : (2 : ℚ) ^ 1024 * 2 ^ 1074 = 2 ^ 53 * 2 ^ 2045 := by rw [← pow_add, ← pow_add]
  have part : (2 : ℚ) ^ 970 * 2 ^ 1074 = 2 ^ 2044 := by rw [← pow_add]
  have half : (1 / 2 : ℚ) * 2 ^ 2045 = 2 ^ 2044 := by
    rw [show (2 : ℚ) ^ 2045 = 2 * 2 ^ 2044 from pow_succ' 2 2044, ← mul_assoc,
      one_div_mul_cancel two_ne_zero, one_mul]
  rw [bit, sub_mul, sub_mul, whole, part, half]

theorem inRange_iff {x : ℚ} {m : Magnitude} (nearby : Nearby double (x * 2 ^ double.depth) m) :
    isFinite double m = true ∧ m.significand ≠ 0 ↔ 1 / 2 ^ 1075 < x ∧ x < 2 ^ 1024 - 2 ^ 970 := by
  have depth : double.depth = 1074 := rfl
  have fields : double.topField = 2045 + 2 := rfl
  have unit : (0 : ℚ) < 2 ^ 1074 := by positivity
  have half : (1 : ℚ) / 2 ^ 1075 = 1 / 2 / 2 ^ 1074 := by
    rw [show (2 : ℚ) ^ 1075 = 2 ^ 1074 * 2 from pow_succ 2 1074, div_div, mul_comm]
  rw [nearby.isFinite_iff fields, nearby.significand_ne_zero_iff, depth, overflow_units, half,
    mul_lt_mul_iff_left₀ unit, div_lt_iff₀ unit, and_comm]

theorem nearest_zero (f : Format) (den : Nat) : nearest f 0 den = ⟨0, 0⟩ := by
  simp [nearest, Rounding.halfEven]

/-- The pattern that rounding finds, whether or not it is in range. -/
def rounded (d : Decimal) : Nat :=
  Binary.signed double d.negative (nearest double d.quotient.1 d.quotient.2)

theorem nearestDouble_of_inRange (digits : ∀ c ∈ d.digits, isDigit c = true)
    (inRange : InRange d.rational) :
    isFinite double (nearest double d.quotient.1 d.quotient.2) = true ∧
      d.nearestDouble? = some d.rounded.toUInt64 := by
  by_cases none : Numeral.value d.digits = 0
  · have zero : d.quotient.1 = 0 := by simp [quotient, none]
    rw [rounded, nearestDouble?, if_pos none, zero, nearest_zero]
    exact ⟨rfl, rfl⟩
  · have some := mt rational_eq_zero.mp none
    have reach := inReach_of_inRange digits some inRange
    have nearby := nearest_nearby double d.quotient.1 d.quotient_pos
    rw [← abs_rational] at nearby
    obtain ⟨finite, nonzero⟩ := (inRange_iff nearby).mpr (inRange.resolve_left some)
    rw [nearestDouble?, if_neg none, if_pos reach]
    simp [finite, nonzero, rounded]

theorem nearestDouble_of_not_inRange (outside : ¬InRange d.rational) :
    d.nearestDouble? = none := by
  have some : d.rational ≠ 0 := fun zero => outside (.inl zero)
  have nearby := nearest_nearby double d.quotient.1 d.quotient_pos
  rw [← abs_rational] at nearby
  have refused := mt (inRange_iff nearby).mp fun inside => outside (.inr inside)
  rw [nearestDouble?, if_neg (mt rational_eq_zero.mpr some)]
  split
  · simpa using refused
  · rfl

/-- A double that a decimal is read as. -/
structure IsNearestDouble (d : Decimal) (bits : UInt64) : Prop where
  inRange : InRange d.rational
  sign : ∃ m, decode double bits.toNat = .finite d.negative m
  rounds : Rounds double d.rational bits.toNat

theorem nearestDouble_eq_some (digits : ∀ c ∈ d.digits, isDigit c = true) {bits : UInt64} :
    d.nearestDouble? = some bits ↔ IsNearestDouble d bits := by
  have width : 2 * double.signBit = 2 ^ 64 := rfl
  by_cases inRange : InRange d.rational
  · obtain ⟨finite, found⟩ := nearestDouble_of_inRange digits inRange
    obtain ⟨decoded, rounds⟩ := rounds_nearest d.quotient_pos (by decide) finite d.negative
    rw [← rational_eq] at rounds
    have small : d.rounded < 2 ^ 64 := width ▸ signed_lt (of_decide_eq_true finite)
    have kept : d.rounded.toUInt64.toNat = d.rounded := UInt64.toNat_ofNat_of_lt' small
    rw [found, Option.some.injEq]
    constructor
    · rintro rfl
      constructor
      · exact inRange
      · rw [kept]
        exact ⟨_, decoded⟩
      · rwa [kept]
    · rintro ⟨-, ⟨m, sign⟩, rounds'⟩
      have same : d.rounded = bits.toNat :=
        rounds_unique rounds rounds' decoded sign (width ▸ small) (width ▸ bits.toNat_lt)
      apply UInt64.toNat_inj.mp
      rw [kept, same]
  · rw [nearestDouble_of_not_inRange inRange]
    constructor
    · intro found
      cases found
    · intro nearest
      exact absurd nearest.inRange inRange

end Decimal

end BoundSql

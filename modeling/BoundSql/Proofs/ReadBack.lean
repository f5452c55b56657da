import BoundSql.Formatter
import BoundSql.Proofs.Arguments
import BoundSql.Proofs.Positional
import BoundSql.Proofs.ShortestDigits

/-!
Numbers that are copied from what is shown. The text of an integer is read as that integer. The
text of a double is read as that double, or as an integer if it has no point and is in the range of
integers, and the integer is shown by the same text. Only negative zero is read as something that is
shown differently.
-/

namespace BoundSql.Argument

open Text Binary
open Template (IsNumber)

-- Powers are the built-in ones, whatever else is imported.
attribute [local instance (high)] instPowNat

section Integers

variable {t : Text} {j k : Int}

theorem IsInteger.unique (one : IsInteger t j) (other : IsInteger t k) : j = k :=
  Option.some.inj ((integer_eq_some.mpr one).symm.trans (integer_eq_some.mpr other))

theorem IsInteger.member (integer : IsInteger t k) :
    ∀ c ∈ t, c = minus ∨ isDigit c = true := by
  intro c member
  cases integer with
  | plain number => exact .inr (number.digits c member)
  | negative number => exact (List.mem_cons.mp member).imp id (number.digits c)

theorem isInteger_ofInt (k : Int) : IsInteger (Numeral.ofInt k) k := by
  have number := Numeral.number_ofNat k.natAbs
  rcases Int.lt_or_le k 0 with below | above
  · have integer := IsInteger.negative number
    rw [Numeral.value_ofNat, Int.ofNat_natAbs_of_nonpos below.le, Int.neg_neg] at integer
    rwa [Numeral.ofInt, if_pos below]
  · have integer := IsInteger.plain number
    rw [Numeral.value_ofNat, Int.natAbs_of_nonneg above] at integer
    rwa [Numeral.ofInt, if_neg (not_lt.mpr above)]

theorem isInt64_ofInt (n : Int64) : IsInt64 (Numeral.ofInt n.toInt) n :=
  ⟨n.toInt, isInteger_ofInt _, n.le_toInt, Int.le_sub_one_of_lt n.toInt_lt,
    (Int64.ofInt_toInt n).symm⟩

end Integers

section Doubles

open Shortest Shortest.Interval

variable {bits : UInt64} {negative : Bool} {m : Magnitude} {k : Int}

theorem doubleText_finite (finite : decode double bits.toNat = .finite negative m) :
    doubleText bits = (decimal double negative m).positional :=
  text_finite finite

theorem isNearestDouble_congr {d other : Decimal} (sign : other.negative = d.negative)
    (value : other.rational = d.rational) (nearest : d.IsNearestDouble bits) :
    other.IsNearestDouble bits :=
  ⟨value ▸ nearest.inRange, sign ▸ nearest.sign, value ▸ nearest.rounds⟩

theorem finite_of_isDouble {word : Text} (read : IsDouble word bits) :
    ∃ negative m, decode double bits.toNat = .finite negative m := by
  obtain ⟨d, -, nearest⟩ := read
  exact ⟨d.negative, nearest.sign⟩

/-- What a double is shown as is read as the double. -/
theorem isDouble_doubleText (finite : decode double bits.toNat = .finite negative m) :
    IsDouble (doubleText bits) bits := by
  obtain ⟨d, written, sign, value⟩ :=
    Decimal.written_positional (number_decimal double negative m)
  rw [doubleText_finite finite]
  exact ⟨d, written, isNearestDouble_congr sign value (isNearestDouble_decimal finite)⟩

/-- A text without a point has no places. -/
theorem exponent_of_isInteger {d : Decimal} (integer : IsInteger d.positional k) :
    0 ≤ d.exponent := by
  by_contra fraction
  rcases integer.member _ (Decimal.point_mem_positional (not_le.mp fraction)) with sign | digit
  · exact absurd sign (by decide)
  · exact absurd digit (by decide)

def signedInt (negative : Bool) (n : Nat) : Int := if negative then -n else n

theorem isInteger_signedInt {digits : Text} (negative : Bool) (number : IsNumber digits) :
    IsInteger (Decimal.sign negative ++ digits) (signedInt negative (Numeral.value digits)) := by
  cases negative with
  | false => exact .plain number
  | true => exact .negative number

theorem ofInt_signedInt {n : Nat} (plain : negative = true → n ≠ 0) :
    Numeral.ofInt (signedInt negative n) = Decimal.sign negative ++ Numeral.ofNat n := by
  cases negative with
  | false =>
      have above : ¬ ((n : Int) < 0) := by omega
      simp [signedInt, Numeral.ofInt, Decimal.sign, above]
  | true =>
      simp [signedInt, Numeral.ofInt, Decimal.sign, plain rfl]

/-- A power of ten that is not a fraction gives the text of an integer. -/
theorem doubleText_coarsest {count power : Nat}
    (finite : decode double bits.toNat = .finite negative m) (some : m.significand ≠ 0)
    (coarsest : Coarsest (ofMagnitude double m) count power) (whole : places double ≤ power) :
    doubleText bits =
      Decimal.sign negative ++ Numeral.ofNat (count * 10 ^ (power - places double)) := by
  have inside := pos_of_holds (proper_ofMagnitude some) coarsest.inside
  have natural : (0 : Int) ≤ power - places double := by omega
  rw [doubleText_finite finite, decimal_of_coarsest some coarsest, Decimal.positional,
    Decimal.unsigned_behind (Numeral.number_ofNat count) natural,
    Numeral.ofNat_mul_pow (Nat.pos_of_mul_pos_right inside), ← Int.toNat_sub]
  rfl

/-- A double without places is shown as an integer is, and it is zero just if that is. -/
theorem doubleText_natural (finite : decode double bits.toNat = .finite negative m)
    (natural : 0 ≤ (decimal double negative m).exponent) : ∃ n,
    doubleText bits = Decimal.sign negative ++ Numeral.ofNat n ∧ (n = 0 → m.significand = 0) := by
  by_cases none : m.significand = 0
  · obtain ⟨_, shift⟩ := m
    obtain rfl : _ = 0 := none
    have single : Numeral.ofNat 0 = [zero] := by rw [Numeral.ofNat]; rfl
    exact ⟨0, by rw [doubleText_finite finite, decimal_zero, single]; rfl, fun _ => rfl⟩
  · obtain ⟨count, power, coarsest, same⟩ := @decimal_coarsest double m none
    have inside := pos_of_holds (proper_ofMagnitude none) coarsest.inside
    have some : 0 < count := Nat.pos_of_mul_pos_right inside
    rw [same negative] at natural
    refine ⟨_, doubleText_coarsest finite none coarsest (by simp only at natural; omega), ?_⟩
    intro zero
    exact absurd zero (Nat.mul_pos some (ten_pos _)).ne'

/-- The integer that a double's text is read as has that text. -/
theorem ofInt_of_isInteger (finite : decode double bits.toNat = .finite negative m)
    (plain : negative = true → m.significand ≠ 0) (integer : IsInteger (doubleText bits) k) :
    Numeral.ofInt k = doubleText bits := by
  have natural := exponent_of_isInteger (doubleText_finite finite ▸ integer)
  obtain ⟨n, shown, zero⟩ := doubleText_natural finite natural
  have written := isInteger_signedInt negative (Numeral.number_ofNat n)
  rw [Numeral.value_ofNat, ← shown] at written
  rw [integer.unique written, ofInt_signedInt fun sign => mt zero (plain sign), shown]

def negativeZero : UInt64 := 0x8000000000000000

theorem significand_ne_zero (finite : decode double bits.toNat = .finite true m)
    (other : bits ≠ negativeZero) : m.significand ≠ 0 := by
  intro none
  have standing := standing_of_decode finite
  have shift : m.shift = 0 := by
    apply standing.canonical.normal.resolve_right
    rw [none]
    exact not_le.mpr double.implicitBit_pos
  have whole := standing.whole bits.toNat_lt
  rw [signed, Magnitude.pattern, none, shift] at whole
  exact other (UInt64.toNat_inj.mp whole)

end Doubles

section Shown

variable {f : Formatter} {home : Zone} {escaper : Text}

/-- What a number is shown as is read as an integer or as the same double, and that is shown as
before. -/
structure ReadsBack (f : Formatter) (home : Zone) (escaper : Text) (v : Value) : Prop where
  number : (∃ n, value (f.format home v escaper) = .int n) ∨
    ∃ bits, v = .double bits ∧ value (f.format home v escaper) = .double bits
  same : f.format home (value (f.format home v escaper)) escaper =
    f.format home v escaper

theorem format_int (n : Int64) :
    f.format home (.int n) escaper = Numeral.ofInt n.toInt := rfl

theorem format_double (bits : UInt64) :
    f.format home (.double bits) escaper = Shortest.doubleText bits := rfl

theorem int_readsBack (n : Int64) : ReadsBack f home escaper (.int n) := by
  have read := value_of_int64 (isInt64_ofInt n)
  constructor
  · exact .inl ⟨n, read⟩
  · rw [format_int, read, format_int]

theorem double_readsBack {bits : UInt64} {negative : Bool} {m : Magnitude}
    (finite : decode double bits.toNat = .finite negative m) (other : bits ≠ negativeZero) :
    ReadsBack f home escaper (.double bits) := by
  have plain : negative = true → m.significand ≠ 0 := by
    rintro rfl
    exact significand_ne_zero finite other
  by_cases int : ∃ n, IsInt64 (Shortest.doubleText bits) n
  · obtain ⟨n, int⟩ := int
    have read := value_of_int64 int
    obtain ⟨k, integer, low, high, rfl⟩ := int
    constructor
    · exact .inl ⟨_, read⟩
    · have exactly : (Int64.ofInt k).toInt = k := Int64.toInt_ofInt_of_le low (by omega)
      rw [format_double, read, format_int, exactly, ofInt_of_isInteger finite plain integer]
  · have read := value_of_double (not_exists.mp int) (isDouble_doubleText finite)
    constructor
    · exact .inr ⟨bits, rfl, read⟩
    · rw [format_double, read, format_double]

theorem finite_of_value {word : Text} {bits : UInt64} (read : value word = .double bits) :
    ∃ negative m, decode double bits.toNat = .finite negative m := by
  cases value_eq.mp read with
  | keyword keyword => simp [keywords] at keyword
  | double _ _ double => exact finite_of_isDouble double

/-- A number in a word, and every finite double, is read back from what it is shown as; of all of
them only negative zero is not shown as before. -/
theorem numbers_read_back (f : Formatter) (home : Zone) (escaper : Text) :
    (∀ word, (∃ n, value word = .int n) ∨
        (∃ bits, value word = .double bits ∧ bits ≠ negativeZero) →
      ReadsBack f home escaper (value word)) ∧
    (∀ bits negative m, decode double bits.toNat = .finite negative m → bits ≠ negativeZero →
      ReadsBack f home escaper (.double bits)) ∧
    f.format home (.double negativeZero) escaper = ascii "-0" ∧
    value (ascii "-0") = .int 0 ∧
    ¬ ReadsBack f home escaper (.double negativeZero) := by
  have finite : decode double negativeZero.toNat = .finite true ⟨0, 0⟩ := rfl
  have zero : f.format home (.double negativeZero) escaper = ascii "-0" := by
    rw [format_double, doubleText_finite finite, Shortest.decimal_zero]
    rfl
  have read : value (ascii "-0") = .int 0 := rfl
  refine ⟨?_, fun _ _ _ => double_readsBack, zero, read, fun back => ?_⟩
  · rintro word (⟨n, same⟩ | ⟨bits, same, other⟩)
    · rw [same]
      exact int_readsBack n
    · obtain ⟨negative, m, finite⟩ := finite_of_value same
      rw [same]
      exact double_readsBack finite other
  · have same := back.same
    have plain : Numeral.ofInt (Int64.toInt 0) = ascii "0" := by decide +kernel
    rw [zero, read, format_int, plain] at same
    exact absurd same (by decide)

/-- The double of `2 ^ 63`, which is the first integer beyond 64 bits. -/
def beyond : UInt64 := 0x43E0000000000000

theorem doubleText_beyond : Shortest.doubleText beyond = ascii "9223372036854776000" := by
  have finite : decode double beyond.toNat = .finite false ⟨2 ^ 52, 1085⟩ := rfl
  have some : (Magnitude.mk (2 ^ 52) 1085).significand ≠ 0 := by decide
  have found : (Shortest.Interval.ofMagnitude double ⟨2 ^ 52, 1085⟩).coarsest 1080 =
      (9223372036854776, 1079) := by decide +kernel
  have coarsest := Shortest.Interval.coarsest_of_upTo
    (Shortest.Interval.proper_ofMagnitude some) found (by decide)
  rw [doubleText_coarsest finite some coarsest (by decide)]
  decide +kernel

theorem value_beyond : value (ascii "9223372036854775808") = .double beyond := by
  have read : double? (ascii "9223372036854775808") = some beyond := by decide +kernel
  rw [value, read]
  rfl

theorem numbers_read_back_beyond : value (ascii "9223372036854775808") = .double beyond ∧
    ({} : Formatter).format Zone.universal (.double beyond) [39] =
      ascii "9223372036854776000" ∧
    ReadsBack {} Zone.universal [39] (value (ascii "9223372036854775808")) := by
  have other : beyond ≠ negativeZero := by decide
  exact ⟨value_beyond, doubleText_beyond,
    (numbers_read_back _ _ _).1 _ (.inr ⟨beyond, value_beyond, other⟩)⟩

end Shown

end BoundSql.Argument

import BoundSql.Number.Scientific
import BoundSql.Proofs.FixedPlaces
import BoundSql.Proofs.Lossless

/-!
Two notations of one number. Where scientific notation is spread out, the sign stays in front, the
value is the same, and the digits are those of the mantissa, in order, with zeros only before the
first or behind the last, as long as a word counts the digits. So it is with what is shown of
doubles and singles, which have few digits and small powers of ten. A number with more digits than
that can come out as another one.
-/

namespace BoundSql

open Text Binary
open Decimal (digits_zeros)
open Template (IsNumber)

-- Powers are the built-in ones, whatever else is imported.
attribute [local instance (high)] instPowNat

namespace Scientific

section Points

variable {d : Decimal} {t rest : Text} {c : UInt8}

theorem withoutPoint_append : withoutPoint (t ++ rest) = withoutPoint t ++ withoutPoint rest :=
  List.filter_append ..

theorem withoutPoint_point : withoutPoint (point :: t) = withoutPoint t :=
  List.filter_cons_of_neg (by simp)

theorem withoutPoint_digits (digits : ∀ c ∈ t, isDigit c = true) : withoutPoint t = t := by
  refine List.filter_eq_self.mpr fun c member => bne_iff_ne.mpr ?_
  rintro rfl
  cases digits _ member

/-- Without its point a positional notation is the digits with zeros at one end at most. -/
theorem withoutPoint_unsigned (number : IsNumber d.digits) : withoutPoint d.unsigned =
    Decimal.zeros (1 - d.wholeDigits).toNat ++ (d.digits ++ Decimal.zeros d.exponent.toNat) := by
  have none : Decimal.zeros 0 = [] := rfl
  rcases Decimal.unsigned_cases number with ⟨before, fraction, same⟩ | ⟨inside, fraction, same⟩ |
    ⟨inside, -, same⟩ <;> rw [same]
  · have front : (1 - d.wholeDigits).toNat = (-d.wholeDigits).toNat + 1 := by omega
    have back : d.exponent.toNat = 0 := by omega
    rw [front, back, none, List.append_nil, withoutPoint_append, withoutPoint_point,
      withoutPoint_digits (number.after (digits_zeros _)).digits,
      withoutPoint_digits Template.number_zero.digits, Decimal.zeros, Decimal.zeros,
      List.replicate_succ]
    rfl
  · have front : (1 - d.wholeDigits).toNat = 0 := by omega
    have back : d.exponent.toNat = 0 := by omega
    rw [front, back, none, List.append_nil, List.nil_append, withoutPoint_append,
      withoutPoint_point, ← withoutPoint_append, List.take_append_drop,
      withoutPoint_digits number.digits]
  · have front : (1 - d.wholeDigits).toNat = 0 := by omega
    rw [front, none, List.nil_append, withoutPoint_digits (number.append (digits_zeros _)).digits]

theorem mem_withoutPoint (apart : c ≠ point) : c ∈ withoutPoint t ↔ c ∈ t := by
  rw [withoutPoint, List.mem_filter, bne_iff_ne]
  exact and_iff_left apart

theorem not_mem_unsigned (number : IsNumber d.digits) (other : isDigit c = false)
    (apart : c ≠ point) : c ∉ d.unsigned := by
  rw [← mem_withoutPoint apart, withoutPoint_unsigned number]
  exact ((number.append (digits_zeros _)).after (digits_zeros _)).not_mem other

end Points

/-- A minus sign or none, a digit, perhaps a point and more digits, and then the letter, a sign and
the digits of the power. -/
inductive Layout : Text → Bool → Text → Int → Prop
  | parts {negative downward first places power} (front : isDigit first = true)
      (others : ∀ c ∈ places, isDigit c = true) (number : IsNumber power) :
      Layout (Decimal.sign negative ++ (first :: pointed places ++ letter :: mark downward :: power))
        negative (first :: places)
        (if downward then -(Numeral.value power : Int) else Numeral.value power)

section Reading

variable {t digits places : Text} {negative downward : Bool} {first c : UInt8} {power : Int}

theorem withoutMinus_sign (bare : ∀ c ∈ t.head?, c ≠ minus) :
    withoutMinus (Decimal.sign negative ++ t) = (negative, t) := by
  cases negative with
  | true => rfl
  | false =>
      have none : after? [minus] t = none := by
        cases t with
        | nil => rfl
        | cons c t => simp [after?, (bare c rfl).symm]
      simp [withoutMinus, Decimal.sign, none]

theorem power_mark (number : IsNumber t)
    (same : power = if downward then -(Numeral.value t : Int) else Numeral.value t)
    (small : |power| < 2 ^ 31 - 1) : power? (mark downward :: t) = some power := by
  have read := Decimal.digits_eq_some.mpr ⟨number, rfl⟩
  have bare := Decimal.number_bare number []
  rw [List.append_nil] at bare
  have front : withoutMinus ((after? [plus] (mark downward :: t)).getD (mark downward :: t)) =
      (downward, t) := by
    cases downward with
    | false => exact @withoutMinus_sign t false fun c member => (bare c member).1
    | true => rfl
  have inside : (decide (Int32.minValue.toInt ≤ power) &&
      decide (power ≤ Int32.maxValue.toInt)) = true := by
    have least : Int32.minValue.toInt = -2 ^ 31 := rfl
    have most : Int32.maxValue.toInt = 2 ^ 31 - 1 := rfl
    obtain ⟨low, high⟩ := abs_lt.mp small
    rw [Bool.and_eq_true, decide_eq_true_eq, decide_eq_true_eq]
    omega
  simp only [power?, front, read, Option.bind_eq_bind, Option.bind_some, ← same, inside, if_true]

theorem withoutPoint_mantissa (front : isDigit first = true)
    (others : ∀ c ∈ places, isDigit c = true) :
    withoutPoint (first :: pointed places) = first :: places := by
  have single := withoutPoint_digits (List.forall_mem_singleton.mpr front)
  rw [← List.singleton_append, withoutPoint_append, single, pointed]
  split
  · next none =>
      rw [none]
      rfl
  · rw [withoutPoint_point, withoutPoint_digits others, List.singleton_append]

/-- Where the digits are not too many to be counted, the point goes where the decimal has it. -/
theorem withPoint_few (few : digits.length < 2 ^ 31) (whole : Int) : withPoint digits whole =
    (Decimal.mk negative digits (whole - digits.length)).unsigned := by
  have count : (Int32.ofNat digits.length).toInt = digits.length := Int32.toInt_ofNat_of_lt few
  have point : (Decimal.mk negative digits (whole - digits.length)).wholeDigits = whole := by
    simp only [Decimal.wholeDigits]
    omega
  simp only [withPoint, Decimal.unsigned, count, point, sub_nonneg]

/-- A text is spread out as its sign and its digits, with the point where the power says. -/
theorem positional_layout (layout : Layout t negative digits power)
    (small : |power| < 2 ^ 31 - 1) :
    positional t = Decimal.sign negative ++ withPoint digits (power + 1) := by
  obtain @⟨negative, downward, first, places, power, front, others, number⟩ := layout
  have absent : letter ∉ first :: pointed places := by
    rw [← mem_withoutPoint (by decide), withoutPoint_mantissa front others]
    exact IsNumber.not_mem ⟨by simp, List.forall_mem_cons.mpr ⟨front, others⟩⟩ rfl
  have bytes : ∀ c ∈ first :: pointed places, (c != letter) = true := by
    intro c member
    exact bne_iff_ne.mpr fun same => absent (same ▸ member)
  have bare : ∀ c ∈ (first :: pointed places ++ letter :: mark downward :: power).head?,
      c ≠ minus := by
    rintro _ ⟨⟩ rfl
    cases front
  have stop (rest : Text) : (letter :: rest).takeWhile (· != letter) = [] := by simp
  have stay (rest : Text) : (letter :: rest).dropWhile (· != letter) = letter :: rest := by simp
  simp only [positional, withoutMinus_sign bare, List.takeWhile_append_of_pos bytes,
    List.dropWhile_append_of_pos bytes, stop, stay, List.append_nil,
    withoutPoint_mantissa front others, power_mark number rfl small, Option.map_some,
    Option.getD_some]

theorem written_layout (layout : Layout t negative digits power) :
    Decimal.Written t ⟨negative, digits, power + 1 - digits.length⟩ := by
  obtain @⟨negative, downward, first, places, power, front, others, number⟩ := layout
  have single : IsNumber [first] := ⟨by simp, List.forall_mem_singleton.mpr front⟩
  have mantissa : Decimal.IsMantissa (first :: pointed places) [first] places := by
    unfold pointed
    split
    · next none =>
        rw [none]
        exact .whole single
    · exact .places single others
  have sign : Decimal.IsSign [mark downward] downward := by
    cases downward with
    | false => exact .plus
    | true => exact .minus
  have written := Decimal.Written.parts (Decimal.isSign_sign negative) mantissa
    (.power (.inl rfl) sign number)
  rwa [List.singleton_append, ← add_sub_add_right_eq_sub _ _ 1] at written

end Reading

/-- What spreading out leaves as it was. -/
structure Spreads (t result : Text) (negative : Bool) (digits : Text) (power : Int) : Prop where
  value : ∃ d d', Decimal.Written t d ∧ Decimal.Written result d' ∧ d'.rational = d.rational
  plain : letter ∉ result
  parts : ∃ body, result = Decimal.sign negative ++ body ∧ minus ∉ body ∧
    withoutPoint body = Decimal.zeros (-power).toNat ++
      (digits ++ Decimal.zeros (power + 1 - digits.length).toNat)

section Spreading

variable {t digits : Text} {negative : Bool} {power : Int}

theorem Layout.number (layout : Layout t negative digits power) : IsNumber digits := by
  obtain @⟨_, _, first, places, _, front, others, _⟩ := layout
  exact ⟨List.cons_ne_nil _ _, List.forall_mem_cons.mpr ⟨front, others⟩⟩

theorem spreads_positional (layout : Layout t negative digits power)
    (small : |power| < 2 ^ 31 - 1) (few : digits.length < 2 ^ 31) :
    Spreads t (positional t) negative digits power := by
  let d : Decimal := ⟨negative, digits, power + 1 - digits.length⟩
  have number : IsNumber d.digits := layout.number
  obtain ⟨d', written, -, same⟩ := Decimal.written_positional number
  have text : positional t = d.positional := by
    rw [positional_layout layout small, withPoint_few few, Decimal.positional]
  rw [text]
  constructor
  · exact ⟨d, d', written_layout layout, written, same⟩
  · have sign : letter ∉ Decimal.sign negative := by cases negative <;> decide
    exact List.not_mem_append sign (not_mem_unsigned number rfl (by decide))
  · refine ⟨_, rfl, not_mem_unsigned number rfl (by decide), ?_⟩
    have count : 1 - d.wholeDigits = -power := by
      simp only [Decimal.wholeDigits, d]
      omega
    rw [withoutPoint_unsigned number, count]

end Spreading

section Writing

variable {d : Decimal}

theorem layout_scientific (number : IsNumber d.digits) :
    Layout d.scientific d.negative d.digits (d.wholeDigits - 1) := by
  obtain ⟨first, places, parts⟩ := List.exists_cons_of_ne_nil number.nonempty
  have digits := number.digits
  rw [parts] at digits
  obtain ⟨front, others⟩ := List.forall_mem_cons.mp digits
  have layout := @Layout.parts d.negative (d.wholeDigits - 1 < 0) first places _ front others
    (Numeral.number_padded 2 (d.wholeDigits - 1).natAbs)
  have signed : (if decide (d.wholeDigits - 1 < 0) = true then
      -((d.wholeDigits - 1).natAbs : Int) else (d.wholeDigits - 1).natAbs) =
        d.wholeDigits - 1 := by
    by_cases below : d.wholeDigits - 1 < 0
    · rw [if_pos (decide_eq_true below)]
      omega
    · rw [if_neg (by simpa using below)]
      omega
  rw [Numeral.value_padded, signed] at layout
  rw [Decimal.scientific, parts, List.append_assoc, List.append_assoc]
  exact layout

theorem positional_scientific (number : IsNumber d.digits)
    (small : |d.wholeDigits - 1| < 2 ^ 31 - 1) (few : d.digits.length < 2 ^ 31) :
    positional d.scientific = d.positional := by
  have count : d.wholeDigits - 1 + 1 - d.digits.length = d.exponent := by
    rw [Decimal.wholeDigits]
    omega
  rw [positional_layout (layout_scientific number) small, withPoint_few few, count]
  rfl

end Writing

end Scientific

namespace Shortest

open Scientific BoundSql.Shortest.Interval

variable {f : Format} {bits width : Nat} {negative : Bool} {m : Magnitude}

theorem high_le (some : m.significand ≠ 0) :
    (ofMagnitude f m).high ≤ 6 * m.units * 5 ^ places f := by
  have step : 2 ^ m.shift ≤ m.significand * 2 ^ m.shift :=
    Nat.le_mul_of_pos_left _ (Nat.pos_of_ne_zero some)
  apply Nat.mul_le_mul_right
  rw [Magnitude.units, Nat.mul_assoc 4]
  omega

/-- The greatest number of a format says how many digits there are, and how many of them stand
before the point. -/
theorem width_decimal (standing : Standing f bits negative m) (proper : f.Proper)
    (positive : 0 < width)
    (fits : 6 * (f.implicitBit * 2 ^ (f.topField - 1)) * 5 ^ places f ≤ 10 ^ width) :
    1 - places f ≤ (decimal f negative m).wholeDigits ∧
      (decimal f negative m).wholeDigits ≤ width ∧
      (decimal f negative m).digits.length ≤ width := by
  by_cases none : m.significand = 0
  · have single : (decimal f negative m).wholeDigits = 1 ∧
        (decimal f negative m).digits.length = 1 := by
      rw [decimal, if_pos none]
      exact ⟨rfl, rfl⟩
    omega
  · obtain ⟨count, power, coarsest, same⟩ := @decimal_coarsest f m none
    have inside := coarsest.inside
    have some : 0 < count :=
      Nat.pos_of_mul_pos_right (pos_of_holds (proper_ofMagnitude none) inside)
    have below : count * 10 ^ power < 10 ^ width := by
      have units := standing.units_lt proper
      refine (bounds_of_holds inside).2.trans_lt ((high_le none).trans_lt ?_)
      refine (Nat.mul_lt_mul_of_pos_right ?_ (Nat.pow_pos (by decide))).trans_le fits
      omega
    have length := Numeral.length_ofNat_le positive below
    rw [Numeral.ofNat_mul_pow some, List.length_append, List.length_replicate] at length
    have first := List.length_pos_iff.mpr (Numeral.number_ofNat count).nonempty
    simp only [same, Decimal.wholeDigits]
    omega

/-- A text that the scientific notation of a number's shortest digits is spread out to. -/
def IsSpread (f : Format) (negative : Bool) (m : Magnitude) (t : Text) : Prop :=
  let d := decimal f negative m
  ∃ power, Layout d.scientific negative d.digits power ∧ |power| < 2 ^ 31 - 1 ∧
    d.digits.length < 2 ^ 31 ∧ t = positional d.scientific

theorem isSpread_text (finite : decode f bits = .finite negative m) (proper : f.Proper)
    (positive : 0 < width) (small : width < 2 ^ 31 - 1) (few : places f < 2 ^ 31 - 1)
    (fits : 6 * (f.implicitBit * 2 ^ (f.topField - 1)) * 5 ^ places f ≤ 10 ^ width) :
    IsSpread f negative m (text f bits) := by
  have number := number_decimal f negative m
  have layout := layout_scientific number
  rw [decimal_negative] at layout
  obtain ⟨least, most, length⟩ :=
    width_decimal (standing_of_decode finite) proper positive fits
  have near : |(decimal f negative m).wholeDigits - 1| < 2 ^ 31 - 1 := by
    rw [abs_lt]
    omega
  have counted : (decimal f negative m).digits.length < 2 ^ 31 := by omega
  refine ⟨_, layout, near, counted, ?_⟩
  rw [text_finite finite, positional_scientific number near counted]

end Shortest

namespace Scientific

open Shortest

/-- Spreading out scientific notation leaves the sign, the exact value and the digits as they were,
and adds zeros at one end at most, if a word counts the digits. Doubles and singles are shown by
spreading out their shortest digits. -/
theorem positional_faithful :
    (∀ t negative digits power, Layout t negative digits power → |power| < 2 ^ 31 - 1 →
      digits.length < 2 ^ 31 → Spreads t (positional t) negative digits power) ∧
    (∀ (bits : UInt64) negative m, decode double bits.toNat = .finite negative m →
      IsSpread double negative m (doubleText bits)) ∧
    ∀ (bits : UInt32) negative m, decode single bits.toNat = .finite negative m →
      IsSpread single negative m (singleText bits) := by
  refine ⟨fun t negative digits power => spreads_positional, ?_, ?_⟩
  · intro bits negative m finite
    have fits : 6 * (double.implicitBit * 2 ^ (double.topField - 1)) * 5 ^ Interval.places double ≤
        10 ^ (1400 : Nat) := by decide +kernel
    exact isSpread_text finite proper_double (by decide) (by decide) (by decide) fits
  · intro bits negative m finite
    have fits : 6 * (single.implicitBit * 2 ^ (single.topField - 1)) * 5 ^ Interval.places single ≤
        10 ^ (1400 : Nat) := by decide +kernel
    exact isSpread_text finite proper_single (by decide) (by decide) (by decide) fits

/-- The point right before the first digit and right behind the last one, and the nearest to a
tenth at both widths. -/
theorem positional_faithful_edges :
    (Layout (ascii "-1.25e-01") true (ascii "125") (-1) ∧
      Spreads (ascii "-1.25e-01") (ascii "-0.125") true (ascii "125") (-1)) ∧
    (Layout (ascii "1.25e+02") false (ascii "125") 2 ∧
      Spreads (ascii "1.25e+02") (ascii "125") false (ascii "125") 2) ∧
    (decode double doubleTenth.toNat = .finite false ⟨7205759403792794, 1018⟩ ∧
      IsSpread double false ⟨7205759403792794, 1018⟩ (doubleText doubleTenth)) ∧
    decode single singleTenth.toNat = .finite false ⟨13421773, 122⟩ ∧
      IsSpread single false ⟨13421773, 122⟩ (singleText singleTenth) := by
  obtain ⟨spreads, doubles, singles⟩ := positional_faithful
  have before : Layout (ascii "-1.25e-01") true (ascii "125") (-1) :=
    @Layout.parts true true 49 [50, 53] [48, 49] rfl (List.all_eq_true.mp rfl)
      ⟨by decide, List.all_eq_true.mp rfl⟩
  have behind : Layout (ascii "1.25e+02") false (ascii "125") 2 :=
    @Layout.parts false false 49 [50, 53] [48, 50] rfl (List.all_eq_true.mp rfl)
      ⟨by decide, List.all_eq_true.mp rfl⟩
  have text : positional (ascii "-1.25e-01") = ascii "-0.125" := by decide +kernel
  have text' : positional (ascii "1.25e+02") = ascii "125" := by decide +kernel
  refine ⟨⟨before, ?_⟩, ⟨behind, ?_⟩, ⟨rfl, doubles _ _ _ rfl⟩, rfl, singles _ _ _ rfl⟩
  · rw [← text]
    exact spreads _ _ _ _ before (by decide) (by decide)
  · rw [← text']
    exact spreads _ _ _ _ behind (by decide) (by decide)

-- A power that is no word of 32 bits, and the sign is lost.
example : positional (ascii "-1e+2147483648") = ascii "1e+2147483648" := by decide +kernel

section Uncounted

/-- Ten, with so many zeros behind the point. -/
def ten (count : Nat) : Text := 49 :: point :: (Decimal.zeros count ++ ascii "e+01")

variable {count : Nat}

theorem layout_ten (some : 0 < count) : Layout (ten count) false (49 :: Decimal.zeros count) 1 := by
  have shown : pointed (Decimal.zeros count) = point :: Decimal.zeros count := by
    apply if_neg
    rw [Decimal.zeros, List.replicate_eq_nil_iff]
    exact Nat.pos_iff_ne_zero.mp some
  have layout := @Layout.parts false false 49 (Decimal.zeros count) [48, 49] rfl
    (digits_zeros count) ⟨by decide, List.all_eq_true.mp rfl⟩
  rw [shown] at layout
  exact layout

/-- A zero too many is added, as the word that counts the digits stands for one. -/
theorem positional_ten (some : 0 < count) (wraps : (Int32.ofNat (count + 1)).toInt = 1) :
    positional (ten count) = 49 :: Decimal.zeros count ++ [zero] := by
  have length : (49 :: Decimal.zeros count).length = count + 1 := by
    rw [List.length_cons, Decimal.zeros, List.length_replicate]
  rw [positional_layout (layout_ten some) (by decide), withPoint, length, wraps]
  rfl

theorem value_ten (count : Nat) : Numeral.value (49 :: Decimal.zeros count) = 10 ^ count := by
  have value := Numeral.value_mul_pow [49] count
  rwa [show Numeral.value [49] = 1 from rfl, Nat.one_mul] at value

theorem rational_ten {d : Decimal} (some : 0 < count) (written : Decimal.Written (ten count) d) :
    d.rational = 10 := by
  have exponent : (1 + 1 - (49 :: Decimal.zeros count).length : ℤ) = 1 - count := by
    rw [List.length_cons, Decimal.zeros, List.length_replicate]
    push_cast
    ring
  rw [(written_layout (layout_ten some)).unique written, Decimal.rational_eq, Decimal.quotient_eq,
    value_ten, exponent, zpow_sub₀ (by norm_num), zpow_natCast, withSign]
  push_cast
  field_simp

theorem written_positional_ten (some : 0 < count)
    (wraps : (Int32.ofNat (count + 1)).toInt = 1) :
    Decimal.Written (positional (ten count)) ⟨false, 49 :: Decimal.zeros count ++ [zero], 0⟩ := by
  have number : IsNumber (49 :: Decimal.zeros count ++ [zero]) :=
    (layout_ten some).number.append (digits_zeros 1)
  have written := Decimal.Written.parts .none (.whole number) .none
  rw [List.append_nil, List.nil_append] at written
  rw [positional_ten some wraps]
  exact written

theorem rational_positional_ten {d : Decimal} (some : 0 < count)
    (wraps : (Int32.ofNat (count + 1)).toInt = 1)
    (written : Decimal.Written (positional (ten count)) d) : d.rational = 10 ^ (count + 1) := by
  have value : Numeral.value (49 :: Decimal.zeros count ++ [zero]) = 10 ^ (count + 1) := by
    rw [pow_succ, ← value_ten count]
    exact Numeral.value_mul_pow (49 :: Decimal.zeros count) 1
  rw [(written_positional_ten some wraps).unique written, Decimal.rational_eq,
    Decimal.quotient_eq, value, withSign]
  simp

/-- With one digit more than a word has values a number becomes another one, so that spreading out
is not faithful there. -/
theorem positional_changes_ten :
    Layout (ten 4294967296) false (49 :: Decimal.zeros 4294967296) 1 ∧ |(1 : Int)| < 2 ^ 31 - 1 ∧
      (∃ d d', Decimal.Written (ten 4294967296) d ∧
        Decimal.Written (positional (ten 4294967296)) d' ∧ d'.rational ≠ d.rational) ∧
      ¬ Spreads (ten 4294967296) (positional (ten 4294967296)) false
        (49 :: Decimal.zeros 4294967296) 1 := by
  have some : 0 < 4294967296 := by decide
  have wraps : (Int32.ofNat (4294967296 + 1)).toInt = 1 := by decide
  have changed {d d' : Decimal} (written : Decimal.Written (ten 4294967296) d)
      (written' : Decimal.Written (positional (ten 4294967296)) d') :
      d'.rational ≠ d.rational := by
    rw [rational_ten some written, rational_positional_ten some wraps written']
    exact (lt_self_pow₀ (by norm_num) (by decide)).ne'
  have before := written_layout (layout_ten some)
  have after := written_positional_ten some wraps
  refine ⟨layout_ten some, by decide, ⟨_, _, before, after, changed before after⟩, ?_⟩
  rintro ⟨⟨d, d', written, written', same⟩, -, -⟩
  exact changed written written' same

end Uncounted

end Scientific

end BoundSql

import BoundSql.Proofs.Positional
import BoundSql.Proofs.RoundingOrder
import BoundSql.Proofs.TextOrder

/-!
Numbers with a set count of decimal places. Such a text is a sign, a whole number, a point and the
places. It is the only one that is read as the multiple of the last place nearest to the number, the
even one of two. The greatest double has 309 digits before its point, so with six places no finite
double takes more than 317 bytes.
-/

namespace BoundSql

open Text Binary Rounding
open Template (IsNumber)

-- Powers are the built-in ones, whatever else is imported.
attribute [local instance (high)] instPowNat

namespace Rounding

theorem halfEven_le {num den k : Nat} (positive : 0 < den) (small : num ≤ k * den) :
    halfEven num den ≤ k := by
  have scale : (0 : ℚ) < den := by exact_mod_cast positive
  have quotient : (num / den : ℚ) ≤ k := (div_le_iff₀ scale).mpr (by exact_mod_cast small)
  apply Nat.lt_succ_iff.mp
  apply (halfEven_rounded positive).lt_of_lt
  push_cast
  linarith

end Rounding

namespace Numeral

variable {t t' : Text}

theorem digit_digitValue {c : UInt8} (digits : isDigit c = true) : digit (digitValue c) = c := by
  have bounds := toNat_digit digits
  rw [digitValue, digit, ← UInt8.toNat_inj]
  simp only [UInt8.toNat_add, UInt8.toNat_ofNat', Nat.toUInt8]
  simp
  omega

/-- What comes before the last digit begins with no zero at all. -/
theorem proper_front {front : Text} {c : UInt8} (proper : Json.Proper (front ++ [c])) (rest : Text) :
    front ≠ zero :: rest := by
  rintro rfl
  have none := proper (rest ++ [c]) rfl
  simp at none

/-- Without a zero in front that could be left out, a number is written in one way. -/
theorem ofNat_value (number : IsNumber t) (proper : Json.Proper t) : ofNat (value t) = t := by
  induction t using List.reverseRecOn with
  | nil => exact absurd rfl number.nonempty
  | append_singleton front c ih =>
      have last := number.digits c (List.mem_append_right _ List.mem_cons_self)
      have small := digitValue_lt last
      rw [value_append_digit]
      by_cases single : front = []
      · subst single
        simp [value, ofNat, small, digit_digitValue last]
      · have earlier := ih ⟨single, fun b member => number.digits b (List.mem_append_left _ member)⟩
          fun rest same => absurd same (proper_front proper rest)
        have some : value front ≠ 0 := by
          intro none
          rw [none, ofNat, if_pos (by decide)] at earlier
          exact proper_front proper [] earlier.symm
        have quotient : (10 * value front + digitValue c) / 10 = value front := by omega
        have remainder : (10 * value front + digitValue c) % 10 = digitValue c := by omega
        rw [ofNat, if_neg (by omega), quotient, remainder, earlier, digit_digitValue last]

theorem value_injective (digits : ∀ c ∈ t, isDigit c = true) (digits' : ∀ c ∈ t', isDigit c = true)
    (length : t.length = t'.length) (same : value t = value t') : t = t' := by
  apply eq_of_not_lt
  · rw [value_lt_iff digits digits' length]
    exact same.not_lt
  · rw [value_lt_iff digits' digits length.symm]
    exact same.not_gt

end Numeral

/-- Every finite number is less than the power of two after the greatest one. -/
theorem Binary.Standing.units_lt {f : Format} {bits : Nat} {negative : Bool} {m : Magnitude}
    (standing : Standing f bits negative m) (proper : f.Proper) :
    m.units < f.implicitBit * 2 ^ (f.topField - 1) := by
  apply standing.canonical.units_lt_place
  have fields := proper.fields
  rcases standing.canonical.normal with least | full
  · omega
  · have inside : (m.shift + 1) * f.implicitBit < f.topField * f.implicitBit := by
      have pattern := standing.inside
      rw [Magnitude.pattern, Format.infinity] at pattern
      rw [Nat.succ_mul]
      omega
    have below := Nat.lt_of_mul_lt_mul_right inside
    omega

namespace FixedPoint

/-- A sign, digits without a zero in front that could be left out, a point and the places. -/
inductive Layout (places : Nat) (negative : Bool) : Text → Prop
  | parts {whole fraction} (number : IsNumber whole) (proper : Json.Proper whole)
      (decimals : IsNumber fraction) (count : fraction.length = places) :
      Layout places negative (Decimal.sign negative ++ (whole ++ point :: fraction))

/-- The text writes the multiple of its last place that is nearest to the number, the even one of
two. The sign is told apart, since zeros have one as well. -/
structure Shows (places : Nat) (negative : Bool) (x : ℚ) (t : Text) : Prop where
  layout : Layout places negative t
  value : ∃ (d : Decimal) (n : ℤ), Decimal.Written t d ∧ d.rational = (n / 10 ^ places : ℚ) ∧
    Whole (x * 10 ^ places) n

section Layouts

variable {places : Nat} (some : 0 < places) {negative : Bool} {t t' : Text} {x : ℚ}

/-- A count of the last place. -/
def ofCount (places : Nat) (negative : Bool) (n : Nat) : Text :=
  Decimal.sign negative ++ (Numeral.ofNat (n / 10 ^ places) ++
    point :: Numeral.padded places (n % 10 ^ places))

theorem ofQuotient_eq (num den : Nat) : ofQuotient places negative num den =
    ofCount places negative (halfEven (num * 10 ^ places) den) := by
  simp only [ofQuotient, ofCount, List.append_assoc]

include some

theorem written_ofCount (negative : Bool) (n : Nat) :
    ∃ d, Decimal.Written (ofCount places negative n) d ∧
      d.rational = withSign negative n / 10 ^ places := by
  have mantissa := Decimal.IsMantissa.places (Numeral.number_ofNat (n / 10 ^ places))
    (Numeral.number_padded places (n % 10 ^ places)).digits
  have written := Decimal.Written.parts (Decimal.isSign_sign negative) mantissa .none
  rw [List.append_nil] at written
  refine ⟨_, written, ?_⟩
  rw [Decimal.rational_eq, Decimal.quotient_eq, Numeral.value_places some,
    Numeral.length_places some, zero_sub, zpow_neg, zpow_natCast, ← div_eq_mul_inv, withSign_div]

theorem layout_iff : Layout places negative t ↔ ∃ n, t = ofCount places negative n := by
  constructor
  · intro layout
    obtain @⟨whole, fraction, number, proper, decimals, rfl⟩ := layout
    have small := Numeral.value_lt decimals.digits
    have power : 0 < 10 ^ fraction.length := Nat.pow_pos (by decide)
    have front : Numeral.value (whole ++ fraction) / 10 ^ fraction.length =
        Numeral.value whole := by
      rw [Numeral.value_append, Nat.add_comm, Nat.add_mul_div_right _ _ power,
        Nat.div_eq_of_lt small, Nat.zero_add]
    have back : Numeral.value (whole ++ fraction) % 10 ^ fraction.length =
        Numeral.value fraction := by
      rw [Numeral.value_append, Nat.mul_add_mod', Nat.mod_eq_of_lt small]
    have filled : Numeral.padded fraction.length (Numeral.value fraction) = fraction :=
      Numeral.value_injective (Numeral.number_padded _ _).digits decimals.digits
        (Numeral.length_padded some small) (Numeral.value_padded _ _)
    refine ⟨Numeral.value (whole ++ fraction), ?_⟩
    rw [ofCount, front, back, Numeral.ofNat_value number proper, filled]
  · rintro ⟨n, rfl⟩
    exact .parts (Numeral.number_ofNat _) (Json.proper_ofNat _) (Numeral.number_padded _ _)
      (Numeral.length_places some _)

theorem Shows.whole {n : Nat} (shows : Shows places negative x (ofCount places negative n)) :
    ∃ k : ℤ, Whole (x * 10 ^ places) k ∧ withSign negative n = k := by
  obtain ⟨d, k, written, value, whole⟩ := shows.value
  obtain ⟨e, figured, size⟩ := written_ofCount some negative n
  obtain rfl := written.unique figured
  have power : (10 : ℚ) ^ places ≠ 0 := by positivity
  exact ⟨k, whole, (div_left_inj' power).mp (size.symm.trans value)⟩

theorem Shows.unique (one : Shows places negative x t) (other : Shows places negative x t') :
    t' = t := by
  obtain ⟨n, rfl⟩ := (layout_iff some).mp one.layout
  obtain ⟨n', rfl⟩ := (layout_iff some).mp other.layout
  obtain ⟨k, whole, size⟩ := one.whole some
  obtain ⟨k', whole', size'⟩ := other.whole some
  have same : k' = k := le_antisymm (whole'.mono whole le_rfl) (whole.mono whole' le_rfl)
  have sizes := congrArg abs (size'.trans (same ▸ size.symm))
  rw [abs_withSign _ (Nat.cast_nonneg _), abs_withSign _ (Nat.cast_nonneg _)] at sizes
  rw [Nat.cast_injective sizes]

variable (negative) (num den : Nat)

theorem shows_ofQuotient (positive : 0 < den) : Shows places negative
    (withSign negative (num / den)) (ofQuotient places negative num den) := by
  rw [ofQuotient_eq]
  obtain ⟨d, written, value⟩ := written_ofCount some negative (halfEven (num * 10 ^ places) den)
  refine ⟨(layout_iff some).mpr ⟨_, rfl⟩, d, _, written, ?_,
    whole_quotient num positive places negative⟩
  rw [value]
  cases negative <;> simp [withSign]

theorem length_ofQuotient_le (positive : 0 < den) {most width : Nat} (small : num ≤ most * den)
    (digits : 0 < width) (fits : most < 10 ^ width) :
    (ofQuotient places negative num den).length ≤ width + places + 2 := by
  have scaled : num * 10 ^ places ≤ most * 10 ^ places * den := by
    rw [Nat.mul_right_comm]
    exact Nat.mul_le_mul_right _ small
  have whole : halfEven (num * 10 ^ places) den / 10 ^ places < 10 ^ width := by
    refine Nat.lt_of_le_of_lt (Nat.div_le_of_le_mul ?_) fits
    exact (halfEven_le positive scaled).trans_eq (Nat.mul_comm _ _)
  have front := Numeral.length_ofNat_le digits whole
  have sign : (Decimal.sign negative).length ≤ 1 := by cases negative <;> decide
  rw [ofQuotient_eq, ofCount, List.length_append, List.length_append, List.length_cons,
    Numeral.length_places some]
  omega

end Layouts

section Doubles

variable {bits : UInt64} {negative : Bool} {m : Magnitude}

theorem six_finite (finite : decode double bits.toNat = .finite negative m) :
    six bits = ofQuotient 6 negative m.units (2 ^ double.depth) := by
  rw [six, finite]
  rfl

theorem length_six_le (finite : decode double bits.toNat = .finite negative m) :
    (six bits).length ≤ 317 := by
  have power : 0 < 2 ^ double.depth := Nat.two_pow_pos _
  have split : double.implicitBit * 2 ^ (double.topField - 1) =
      2 ^ (1024 : Nat) * 2 ^ double.depth := by
    have exponents : double.fractionBits + (double.topField - 1) = 1024 + double.depth := by decide
    rw [Format.implicitBit, ← Nat.pow_add, exponents, Nat.pow_add]
  have below := (standing_of_decode finite).units_lt proper_double
  have fits : 2 ^ (1024 : Nat) < 10 ^ (309 : Nat) := by decide +kernel
  rw [split] at below
  rw [six_finite finite]
  exact length_ofQuotient_le (by decide) negative m.units _ power below.le (by decide) fits

end Doubles

/-- The text of a finite double with six places is the one that shows the nearest multiple of a
millionth, with a minus sign just if the highest bit is set, and it has at most 317 bytes. -/
theorem six_rounded {bits : UInt64} {x : ℚ} (stands : rational? double bits.toNat = some x) :
    (∀ t, Shows 6 (2 ^ 63 ≤ bits.toNat) x t ↔ t = six bits) ∧ (six bits).length ≤ 317 := by
  obtain ⟨negative, m, finite, rfl⟩ := rational_eq_some.mp stands
  have sign : decide (2 ^ 63 ≤ bits.toNat) = negative := sign_of_finite finite bits.toNat_lt
  have some : 0 < 6 := by decide
  have shows := shows_ofQuotient some negative m.units _ (Nat.two_pow_pos double.depth)
  rw [← six_finite finite, withSign_div, Nat.cast_pow, Nat.cast_ofNat] at shows
  rw [sign]
  refine ⟨fun t => ⟨fun other => shows.unique some other, ?_⟩, length_six_le finite⟩
  rintro rfl
  exact shows

/-- A tie that goes to the even digit, and the sign of a negative number. -/
theorem six_tie : rational? double (0xBF80000000000000 : UInt64).toNat = some (-1 / 2 ^ 7) ∧
    Shows 6 true (-1 / 2 ^ 7) (ascii "-0.007812") := by
  have stands : rational? double (0xBF80000000000000 : UInt64).toNat = some (-1 / 2 ^ 7) := by
    decide +kernel
  have text : six 0xBF80000000000000 = ascii "-0.007812" := by decide +kernel
  exact ⟨stands, ((six_rounded stands).1 _).mpr text.symm⟩

-- The negative double of the greatest magnitude takes all the bytes.
example : (six 0xFFEFFFFFFFFFFFFF).length = 317 := by decide +kernel

end FixedPoint

end BoundSql

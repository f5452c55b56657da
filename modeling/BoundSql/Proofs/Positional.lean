import BoundSql.Proofs.Doubles

/-!
Positional notation is read as the number that it writes: the point may stand before, among or
behind the digits, and the reader finds the same exact value. A number with a power of ten that is
not negative is written as an integer, and without a leading zero it is written like that integer.
-/

namespace BoundSql

open Text
open Template (IsNumber)

-- Powers are the built-in ones, whatever else is imported.
attribute [local instance (high)] instPowNat

namespace Numeral

theorem ofNat_ten_mul {n : Nat} (positive : 0 < n) : ofNat (n * 10) = ofNat n ++ [zero] := by
  have last : digit 0 = zero := by decide
  rw [ofNat, if_neg (by omega), Nat.mul_div_cancel n (by decide), Nat.mul_mod_left, last]

/-- Zeros at the end of a number that has a digit before them. -/
theorem ofNat_mul_pow {n : Nat} (positive : 0 < n) (count : Nat) :
    ofNat (n * 10 ^ count) = ofNat n ++ List.replicate count zero := by
  induction count with
  | zero => rw [Nat.pow_zero, Nat.mul_one, List.replicate_zero, List.append_nil]
  | succ count ih =>
      have some : 0 < n * 10 ^ count := Nat.mul_pos positive (Nat.pow_pos (by decide))
      rw [Nat.pow_succ, ← Nat.mul_assoc, ofNat_ten_mul some, ih, List.append_assoc,
        List.replicate_succ']

theorem value_mul_pow (t : Text) (count : Nat) :
    value (t ++ List.replicate count zero) = value t * 10 ^ count := by
  have none := value_zeros count []
  rw [List.append_nil] at none
  rw [value_append, none, List.length_replicate]
  rfl

end Numeral

namespace Decimal

variable {d : Decimal}

theorem length_pos (number : IsNumber d.digits) : 0 < d.digits.length :=
  List.length_pos_iff.mpr number.nonempty

section Layouts

theorem unsigned_before (before : d.wholeDigits ≤ 0) :
    d.unsigned = [zero] ++ point :: (zeros (-d.wholeDigits).toNat ++ d.digits) := by
  simp only [unsigned, if_pos before]
  rfl

theorem unsigned_behind (number : IsNumber d.digits) (natural : 0 ≤ d.exponent) :
    d.unsigned = d.digits ++ zeros d.exponent.toNat := by
  have longer := length_pos number
  have inside : ¬ d.wholeDigits ≤ 0 := by
    rw [wholeDigits]
    omega
  simp only [unsigned, if_neg inside, if_pos natural]

theorem unsigned_among (inside : 0 < d.wholeDigits) (fraction : d.exponent < 0) :
    d.unsigned = d.digits.take d.wholeDigits.toNat ++
      point :: d.digits.drop d.wholeDigits.toNat := by
  simp only [unsigned, if_neg (not_le.mpr inside), if_neg (not_le.mpr fraction)]

/-- The point stands before, among or behind the digits. -/
theorem unsigned_cases (number : IsNumber d.digits) :
    (d.wholeDigits ≤ 0 ∧ d.exponent < 0 ∧
      d.unsigned = [zero] ++ point :: (zeros (-d.wholeDigits).toNat ++ d.digits)) ∨
    (0 < d.wholeDigits ∧ d.exponent < 0 ∧ d.unsigned =
      d.digits.take d.wholeDigits.toNat ++ point :: d.digits.drop d.wholeDigits.toNat) ∨
    (0 < d.wholeDigits ∧ 0 ≤ d.exponent ∧ d.unsigned = d.digits ++ zeros d.exponent.toNat) := by
  have longer := length_pos number
  have count : d.wholeDigits = d.digits.length + d.exponent := rfl
  rcases Int.lt_or_le 0 d.wholeDigits with inside | before
  · rcases Int.lt_or_le d.exponent 0 with fraction | natural
    · exact .inr (.inl ⟨inside, fraction, unsigned_among inside fraction⟩)
    · exact .inr (.inr ⟨inside, natural, unsigned_behind number natural⟩)
  · exact .inl ⟨before, by omega, unsigned_before before⟩

end Layouts

/-- Only a fraction has a point. -/
theorem point_mem_positional (fraction : d.exponent < 0) : point ∈ d.positional := by
  apply List.mem_append_right
  rcases Int.lt_or_le 0 d.wholeDigits with inside | before
  · rw [unsigned_among inside fraction]
    exact List.mem_append_right _ List.mem_cons_self
  · rw [unsigned_before before]
    exact List.mem_append_right _ List.mem_cons_self

theorem rational_congr {other : Decimal} (sign : other.negative = d.negative)
    (size : (Numeral.value other.digits * 10 ^ other.exponent : ℚ) =
      Numeral.value d.digits * 10 ^ d.exponent) : other.rational = d.rational := by
  rw [rational_eq, rational_eq, quotient_eq, quotient_eq, sign, size]

theorem isSign_sign (negative : Bool) : IsSign (sign negative) negative := by
  cases negative with
  | false => exact .none
  | true => exact .minus

theorem digits_drop (number : IsNumber d.digits) (n : Nat) :
    ∀ c ∈ d.digits.drop n, isDigit c = true :=
  fun c member => number.digits c (List.mem_of_mem_drop member)

theorem written_unsigned (number : IsNumber d.digits) : ∃ whole places,
    IsMantissa d.unsigned whole places ∧
      (Numeral.value (whole ++ places) * 10 ^ (0 - places.length : ℤ) : ℚ) =
        Numeral.value d.digits * 10 ^ d.exponent := by
  rcases unsigned_cases number with ⟨before, -, same⟩ | ⟨inside, fraction, same⟩ |
    ⟨-, natural, same⟩ <;> rw [same]
  · have places : (0 - (zeros (-d.wholeDigits).toNat ++ d.digits).length : ℤ) = d.exponent := by
      rw [List.length_append, zeros, List.length_replicate]
      rw [wholeDigits] at before ⊢
      push_cast
      omega
    have value : Numeral.value ([zero] ++ (zeros (-d.wholeDigits).toNat ++ d.digits)) =
        Numeral.value d.digits :=
      (Numeral.value_zeros 1 _).trans (Numeral.value_zeros _ _)
    refine ⟨_, _, .places Template.number_zero (number.after (digits_zeros _)).digits, ?_⟩
    rw [value, places]
  · -- The digits are those of the decimal, and as many stand behind the point as it has places.
    have fewer : d.wholeDigits.toNat ≤ d.digits.length := by
      rw [wholeDigits]
      omega
    have front : IsNumber (d.digits.take d.wholeDigits.toNat) := by
      refine ⟨?_, fun c member => number.digits c (List.mem_of_mem_take member)⟩
      have some : d.wholeDigits.toNat ≠ 0 := by omega
      simp [some, number.nonempty]
    have places : (0 - (d.digits.drop d.wholeDigits.toNat).length : ℤ) = d.exponent := by
      rw [List.length_drop, wholeDigits]
      rw [wholeDigits] at inside
      omega
    refine ⟨_, _, .places front (digits_drop number _), ?_⟩
    rw [List.take_append_drop, places]
  · refine ⟨_, _, .whole (number.append (digits_zeros _)), ?_⟩
    obtain ⟨count, power⟩ := Int.eq_ofNat_of_zero_le natural
    rw [List.append_nil, zeros, Numeral.value_mul_pow, power]
    simp

/-- A decimal is read back from its notation, with its sign and its exact value. -/
theorem written_positional (number : IsNumber d.digits) : ∃ other,
    Written d.positional other ∧ other.negative = d.negative ∧ other.rational = d.rational := by
  obtain ⟨whole, places, mantissa, size⟩ := written_unsigned number
  have written := Written.parts (isSign_sign d.negative) mantissa .none
  rw [List.append_nil] at written
  exact ⟨_, written, rfl, rational_congr rfl size⟩

end Decimal

end BoundSql

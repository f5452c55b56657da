import BoundSql.Proofs.TrailingZeros

/-!
The digits of a decimal that count are those between its first and its last digit that are no zero.
How many there are is known from the value alone, so no other way to write the number has fewer.
Fixed notation has no zero that could be left out.
-/

namespace BoundSql

open Text
open Template (IsNumber)

-- Powers are the built-in ones, whatever else is imported.
attribute [local instance (high)] instPowNat

namespace Numeral

variable {t : Text}

theorem value_mod_ten (number : IsNumber t) : value t % 10 = 0 ↔ t.getLast? = some zero := by
  obtain ⟨front, c, rfl⟩ := List.eq_nil_or_concat t |>.resolve_left number.nonempty
  have digit := toNat_digit (number.digits c (by simp))
  have same : c = zero ↔ digitValue c = 0 := by
    rw [← UInt8.toNat_inj, digitValue]
    have : zero.toNat = 48 := rfl
    omega
  rw [List.concat_eq_append, value_append_digit, List.getLast?_concat, Option.some.injEq, same]
  rw [digitValue]
  omega

/-- Without zeros at either end. -/
def trimmed (t : Text) : Text := Formatter.trimZeros (t.dropWhile (· == zero))

theorem trimmed_zeros (t : Text) : ∃ count, value t = value (trimmed t) * 10 ^ count ∧
    (t.dropWhile (· == zero)).length = (trimmed t).length + count := by
  obtain ⟨count, parts⟩ := Formatter.trimZeros_zeros (t.dropWhile (· == zero))
  refine ⟨count, ?_, ?_⟩
  · rw [← value_mul_pow, trimmed, ← parts, value_dropWhile]
  · conv_lhs => rw [parts, List.length_append, List.length_replicate]
    rfl

theorem digits_trimmed (digits : ∀ c ∈ t, isDigit c = true) :
    ∀ c ∈ trimmed t, isDigit c = true := by
  intro c member
  exact digits c ((List.dropWhile_sublist _).mem (Formatter.mem_trimZeros member))

/-- What is left has a last digit that is no zero, and its first digit is none either. -/
theorem trimmed_full (digits : ∀ c ∈ t, isDigit c = true) (some : trimmed t ≠ []) :
    value (trimmed t) % 10 ≠ 0 ∧ 10 ^ (trimmed t).length ≤ 10 * value (trimmed t) := by
  have last := mt (value_mod_ten ⟨some, digits_trimmed digits⟩).mp (Formatter.trimZeros_last _)
  obtain ⟨count, value_eq, length⟩ := trimmed_zeros t
  have scale : 0 < 10 ^ count := Nat.pow_pos (by decide)
  have positive : value t ≠ 0 := by
    rw [value_eq]
    refine Nat.mul_ne_zero (fun zero => last ?_) scale.ne'
    rw [zero]
  have bound := (value_bounds digits positive).1
  rw [length, value_eq, Nat.pow_add, ← Nat.mul_assoc] at bound
  exact ⟨last, Nat.le_of_mul_le_mul_right bound scale⟩

end Numeral

namespace Decimal

variable {d : Decimal}

/-- How many digits there are from the first that is no zero to the last. -/
def significant (d : Decimal) : Nat := (Numeral.trimmed d.digits).length

theorem mul_pow_of_zpow {v n more : Nat} {power : Int}
    (same : (v * 10 ^ (power + more) : ℚ) = n * 10 ^ power) : v * 10 ^ more = n := by
  have ten : (10 : ℚ) ≠ 0 := by norm_num
  have scale : (10 : ℚ) ^ power ≠ 0 := zpow_ne_zero _ ten
  rw [zpow_add₀ ten, mul_comm ((10 : ℚ) ^ power), ← mul_assoc, mul_left_inj' scale, zpow_natCast]
    at same
  exact_mod_cast same

/-- What does not end in a zero is no greater than any other multiple of a power of ten that is
the same number. -/
theorem le_of_mul_zpow {v n : Nat} {a b : Int} (last : v % 10 ≠ 0)
    (same : (v * 10 ^ a : ℚ) = n * 10 ^ b) : v ≤ n := by
  rcases Int.le_total b a with fine | coarse
  · obtain ⟨more, rfl⟩ := Int.le.dest fine
    rw [← mul_pow_of_zpow same]
    exact Nat.le_mul_of_pos_right _ (Nat.pow_pos (by decide))
  · obtain ⟨more, rfl⟩ := Int.le.dest coarse
    have whole := mul_pow_of_zpow same.symm
    cases more with
    | zero => exact whole.ge.trans (Nat.mul_one n).le
    | succ more =>
        rw [Nat.pow_succ, ← Nat.mul_assoc] at whole
        exact absurd (whole ▸ Nat.mul_mod_left _ 10) last

/-- A number has so many significant digits if it is a smaller multiple of a power of ten. -/
theorem significant_le_iff (number : IsNumber d.digits) {count : Nat} : d.significant ≤ count ↔
    ∃ (n : Nat) (power : Int), n < 10 ^ count ∧ |d.rational| = n * 10 ^ power := by
  obtain ⟨zeros, value, -⟩ := Numeral.trimmed_zeros d.digits
  have ten : (10 : ℚ) ≠ 0 := by norm_num
  have size : |d.rational| =
      Numeral.value (Numeral.trimmed d.digits) * 10 ^ (zeros + d.exponent : ℤ) := by
    rw [abs_rational, quotient_eq, value, zpow_add₀ ten, zpow_natCast, ← mul_assoc]
    push_cast
    rfl
  constructor
  · intro few
    have small := Numeral.value_lt (Numeral.digits_trimmed number.digits)
    exact ⟨_, _, small.trans_le (Nat.pow_le_pow_right (by decide) few), size⟩
  · rintro ⟨n, power, small, same⟩
    by_cases none : Numeral.trimmed d.digits = []
    · rw [significant, none]
      exact Nat.zero_le _
    · obtain ⟨last, full⟩ := Numeral.trimmed_full number.digits none
      have least := le_of_mul_zpow last (size.symm.trans same)
      have power : 10 ^ d.significant < 10 ^ (count + 1) := by
        rw [Nat.pow_succ]
        exact full.trans_lt (by omega)
      exact Nat.lt_succ_iff.mp ((Nat.pow_lt_pow_iff_right (by decide)).mp power)

/-- A sign, digits with no zero before another one, and perhaps places that end in no zero. -/
inductive IsFixed (negative : Bool) : Text → Prop
  | parts {whole places} (number : IsNumber whole) (proper : Json.Proper whole)
      (fraction : IsPlaces places) : IsFixed negative (sign negative ++ (whole ++ places))

theorem proper_of_first {t : Text} (first : t.head? ≠ some zero) : Json.Proper t := by
  rintro rest rfl
  exact absurd rfl first

theorem fixed_positional (number : IsNumber d.digits) (first : d.digits.head? ≠ some zero)
    (last : d.exponent < 0 → d.digits.getLast? ≠ some zero) :
    IsFixed d.negative d.positional := by
  rw [positional]
  rcases unsigned_cases number with ⟨before, fraction, same⟩ | ⟨inside, fraction, same⟩ |
    ⟨-, natural, same⟩ <;> rw [same]
  · have last := last fraction
    refine .parts Template.number_zero ?_ (.places (number.after (digits_zeros _)) ?_)
    · exact fun rest same => (List.cons.inj same).2.symm
    · rwa [List.getLast?_append_of_ne_nil _ number.nonempty]
  · have last := last fraction
    have some : d.wholeDigits.toNat ≠ 0 := by omega
    have fewer : d.wholeDigits.toNat < d.digits.length := by
      rw [wholeDigits] at inside ⊢
      omega
    refine .parts ⟨?_, ?_⟩ (proper_of_first ?_) (.places ⟨?_, digits_drop number _⟩ ?_)
    · simp [some, number.nonempty]
    · exact fun c member => number.digits c (List.mem_of_mem_take member)
    · rwa [List.head?_take, if_neg some]
    · simpa using fewer
    · rwa [List.getLast?_drop, if_neg (not_le.mpr fewer)]
  · rw [← List.append_nil (d.digits ++ _)]
    refine .parts (number.append (digits_zeros _)) (proper_of_first ?_) .none
    rwa [List.head?_append_of_ne_nil _ number.nonempty]

end Decimal

end BoundSql

import BoundSql.Proofs.Chronology

/-!
Time literals are in the order of time. The places of a second are compared as decimal fractions
whether or not the zeros at their end are trimmed, so the texts may have different lengths; and
places that were cut off do not count.
-/

namespace BoundSql

open Text

-- Powers are the built-in ones, whatever else is imported.
attribute [local instance (high)] instPowNat

section Places

variable {a b : Text}

theorem pointed_lt_iff : pointed a < pointed b ↔ a < b := by
  cases a with
  | nil =>
      cases b with
      | nil => rfl
      | cons y b => simp [pointed]
  | cons x a =>
      cases b with
      | nil => simp [pointed]
      | cons y b =>
          simp only [pointed, List.cons_ne_nil, if_false]
          exact List.cons_lt_cons_self

theorem trimZeros_cons_eq (x : UInt8) (a : Text) : Formatter.trimZeros (x :: a) =
    if x = zero ∧ Formatter.trimZeros a = [] then [] else x :: Formatter.trimZeros a := by
  simp only [Formatter.trimZeros, List.reverse_cons, List.dropWhile_append, List.isEmpty_iff,
    List.reverse_eq_nil_iff]
  by_cases gone : a.reverse.dropWhile (· == zero) = []
  · by_cases same : x = zero
    · simp [gone, same]
    · simp [gone, same]
  · simp [gone]

theorem zero_lt_or_eq {x : UInt8} (digit : isDigit x = true) : zero < x ∨ x = zero := by
  simp only [isDigit, Bool.and_eq_true, decide_eq_true_eq] at digit
  rcases UInt8.lt_or_eq_of_le digit.1 with above | same
  · exact .inl above
  · exact .inr same.symm

/-- Zeros that are trimmed from places of one number do not change their order. -/
theorem trimZeros_lt_iff (digits : ∀ c ∈ a, isDigit c = true) (digits' : ∀ c ∈ b, isDigit c = true)
    (length : a.length = b.length) :
    Formatter.trimZeros a < Formatter.trimZeros b ↔ a < b := by
  induction a generalizing b with
  | nil =>
      obtain rfl := List.eq_nil_of_length_eq_zero length.symm
      rfl
  | cons x a ih =>
      obtain ⟨y, b, rfl⟩ := List.exists_cons_of_length_eq_add_one length.symm
      rw [List.forall_mem_cons] at digits digits'
      have rest := ih digits.2 digits'.2 (Nat.succ.inj length)
      rw [trimZeros_cons_eq, trimZeros_cons_eq, List.cons_lt_cons_iff, ← rest]
      -- A text is gone as a whole if nothing but zeros is left of it.
      split
      · next gone =>
          rw [gone.1, gone.2]
          split
          · next gone' => simp [gone'.1, gone'.2]
          · next kept' =>
              rcases zero_lt_or_eq digits'.1 with above | rfl
              · simp [above]
              · simpa [nil_lt_iff] using kept'
      · split
        · next kept gone' =>
            rw [gone'.1, gone'.2]
            rcases zero_lt_or_eq digits.1 with above | rfl
            · simp [UInt8.lt_asymm above, (UInt8.ne_of_lt above).symm]
            · simp
        · rw [List.cons_lt_cons_iff]

end Places

namespace Instant

variable (t t' : Instant) {count : Nat}

theorem nanoseconds_div (few : count ≤ 9) : t.nanoseconds.toInt / 10 ^ (9 - count) =
    t.seconds * (10 ^ count : Nat) + (t.fraction / 10 ^ (9 - count) : Nat) := by
  have nine : (1000000000 : Int) = 10 ^ count * 10 ^ (9 - count) := by
    rw [← pow_add, Nat.add_sub_cancel' few]
    rfl
  have unit : (10 : Int) ^ (9 - count) ≠ 0 := by positivity
  rw [t.nanoseconds_eq, nine, ← mul_assoc, add_comm, Int.add_mul_ediv_right _ _ unit, add_comm]
  push_cast
  rfl

theorem firstDigits_lt_iff (few : count ≤ 9) : t.firstDigits count < t'.firstDigits count ↔
    t.fraction / 10 ^ (9 - count) < t'.fraction / 10 ^ (9 - count) := by
  have length : (t.firstDigits count).length = (t'.firstDigits count).length := by
    rw [t.length_firstDigits few, t'.length_firstDigits few]
  rw [Numeral.value_lt_iff (t.digits_firstDigits count) (t'.digits_firstDigits count) length,
    t.value_firstDigits, t'.value_firstDigits]

theorem fraction_div_lt (few : count ≤ 9) : t.fraction / 10 ^ (9 - count) < 10 ^ count := by
  apply Nat.div_lt_of_lt_mul
  rw [← Nat.pow_add, Nat.sub_add_cancel few]
  exact t.fraction_lt

end Instant

namespace Formatter

variable {f : Formatter}

theorem fractionDigits_lt_iff (f : Formatter) (t t' : Instant) :
    f.fractionDigitsOf t < f.fractionDigitsOf t' ↔
      t.fraction / 10 ^ (9 - min f.fractionDigits 9) <
        t'.fraction / 10 ^ (9 - min f.fractionDigits 9) := by
  have few := Nat.min_le_right f.fractionDigits 9
  have cut := t.firstDigits_lt_iff t' few
  rw [← cut]
  simp only [fractionDigitsOf]
  split
  · apply trimZeros_lt_iff (t.digits_firstDigits _) (t'.digits_firstDigits _)
    rw [t.length_firstDigits few, t'.length_firstDigits few]
  · rfl

section Usual

variable (usual : f.timePattern = TimePattern.usual) (universal : f.clock = .universal)
  (home : Zone) (t t' : Instant)

include usual universal

theorem timeText_lt_iff : f.timeText home t < f.timeText home t' ↔
    t.nanoseconds.toInt / 10 ^ (9 - min f.fractionDigits 9) <
      t'.nanoseconds.toInt / 10 ^ (9 - min f.fractionDigits 9) := by
  have few := Nat.min_le_right f.fractionDigits 9
  have places := Numeral.places_lt_iff (m := t.seconds) (n := t'.seconds) (t.fraction_div_lt few)
    (t'.fraction_div_lt few)
  simp only [timeText_written _ usual universal, Instant.wall, List.append_assoc, List.cons_append]
  refine (t.shown_lt_iff t' [blank]).trans ?_
  rw [pointed_lt_iff, fractionDigits_lt_iff, t.nanoseconds_div few, t'.nanoseconds_div few, places]

end Usual

end Formatter

end BoundSql

import BoundSql.Text

/-!
Letter case and hexadecimal digits, byte by byte. A byte is brought to a small letter from that
letter and its capital only, and a digit of either case has the value that its small form writes.
-/

namespace BoundSql.Text

theorem toNat_lower (c : UInt8) :
    (lower c).toNat = if 65 ≤ c.toNat ∧ c.toNat ≤ 90 then c.toNat + 32 else c.toNat := by
  have upper : isUpper c = true ↔ 65 ≤ c.toNat ∧ c.toNat ≤ 90 := by
    simp [isUpper, UInt8.le_iff_toNat_le]
  unfold lower
  split
  · next held =>
      have range := upper.mp held
      rw [if_pos range, UInt8.toNat_add]
      exact Nat.mod_eq_of_lt (by simp; omega)
  · next missed => rw [if_neg (mt upper.mpr missed)]

theorem lower_eq_letter {c b : UInt8} (letter : 97 ≤ b.toNat ∧ b.toNat ≤ 122) :
    lower c = b ↔ c = b ∨ c = b - 32 := by
  have capital : (b - 32).toNat = b.toNat - 32 := by
    apply UInt8.toNat_sub_of_le
    rw [UInt8.le_iff_toNat_le]
    exact Nat.le_trans (by decide) letter.1
  rw [← UInt8.toNat_inj, ← UInt8.toNat_inj, ← UInt8.toNat_inj, toNat_lower, capital]
  split <;> omega

theorem lower_eq_small {c b : UInt8} (small : b.toNat < 65) : lower c = b ↔ c = b := by
  rw [← UInt8.toNat_inj, ← UInt8.toNat_inj, toNat_lower]
  split <;> omega

theorem toNat_hexDigit {n : Nat} (small : n < 16) :
    (hexDigit n).toNat = if n < 10 then 48 + n else 87 + n := by
  have digit : n.toUInt8.toNat = n := UInt8.toNat_ofNat_of_lt' (by simp [UInt8.size]; omega)
  unfold hexDigit
  split
  · rw [UInt8.toNat_add, digit]
    exact Nat.mod_eq_of_lt (by simp; omega)
  · rw [UInt8.toNat_add, digit]
    exact Nat.mod_eq_of_lt (by simp; omega)

theorem hexValue_ranges {c : UInt8} {n : Nat} : hexValue? c = some n ↔
    48 ≤ c.toNat ∧ c.toNat ≤ 57 ∧ c.toNat = 48 + n ∨
    65 ≤ c.toNat ∧ c.toNat ≤ 70 ∧ c.toNat = 55 + n ∨
    97 ≤ c.toNat ∧ c.toNat ≤ 102 ∧ c.toNat = 87 + n := by
  unfold hexValue?
  simp only [isDigit, Bool.and_eq_true, decide_eq_true_eq, UInt8.le_iff_toNat_le,
    UInt8.reduceToNat]
  repeat' split
  all_goals simp only [Option.some.injEq, reduceCtorEq, false_iff]
  all_goals omega

theorem hexValue_eq_some {c : UInt8} {n : Nat} :
    hexValue? c = some n ↔ n < 16 ∧ lower c = hexDigit n := by
  rw [hexValue_ranges]
  constructor
  · intro range
    have small : n < 16 := by omega
    refine ⟨small, ?_⟩
    rw [← UInt8.toNat_inj, toNat_lower, toNat_hexDigit small]
    split <;> split <;> omega
  · rintro ⟨small, same⟩
    rw [← UInt8.toNat_inj, toNat_lower, toNat_hexDigit small] at same
    split at same <;> split at same <;> omega

/-- The digits that are written are small. -/
theorem lower_hexDigit {n : Nat} (small : n < 16) : lower (hexDigit n) = hexDigit n := by
  rw [← UInt8.toNat_inj, toNat_lower, toNat_hexDigit small]
  split <;> split <;> omega

end BoundSql.Text

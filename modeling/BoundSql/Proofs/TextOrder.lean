import BoundSql.Proofs.Doubles

/-!
The order of texts, byte by byte. Texts of one length are compared field by field, and digits in
such fields as the numbers that they write, so a text of filled numbers is in the order of its
numbers, the first one first.
-/

namespace BoundSql

open Text

-- Powers are the built-in ones, whatever else is imported.
attribute [local instance (high)] instPowNat

namespace Text

variable {a b c d : Text}

theorem append_lt_append_iff (same : a.length = b.length) :
    a ++ c < b ++ d ↔ a < b ∨ a = b ∧ c < d := by
  induction a generalizing b with
  | nil =>
      obtain rfl := List.eq_nil_of_length_eq_zero same.symm
      simp
  | cons x a ih =>
      obtain ⟨y, b, rfl⟩ := List.exists_cons_of_length_eq_add_one same.symm
      have shorter : a.length = b.length := Nat.succ.inj same
      simp only [List.cons_append, List.cons_lt_cons_iff, ih shorter, List.cons.injEq]
      tauto

theorem nil_lt_iff : [] < a ↔ a ≠ [] := by
  cases a <;> simp

theorem eq_of_not_lt (notBelow : ¬ a < b) (notAbove : ¬ b < a) : a = b :=
  List.le_antisymm notAbove notBelow

/-- What two texts begin with alike does not count. -/
@[simp]
theorem append_lt_append_left_iff (a : Text) : a ++ c < a ++ d ↔ c < d := by
  rw [append_lt_append_iff rfl]
  simp

end Text

namespace Numeral

variable {t t' : Text}

theorem digitValue_lt_iff {x y : UInt8} (digit : isDigit x = true) (digit' : isDigit y = true) :
    digitValue x < digitValue y ↔ x < y := by
  simp only [isDigit, Bool.and_eq_true, decide_eq_true_eq, UInt8.le_iff_toNat_le] at digit digit'
  have zero : (48 : UInt8).toNat = 48 := rfl
  rw [digitValue, digitValue, UInt8.lt_iff_toNat_lt]
  omega

theorem digitValue_inj {x y : UInt8} (digit : isDigit x = true) (digit' : isDigit y = true) :
    digitValue x = digitValue y ↔ x = y := by
  have below := digitValue_lt_iff digit digit'
  have above := digitValue_lt_iff digit' digit
  rw [UInt8.lt_iff_toNat_lt] at below above
  rw [← UInt8.toNat_inj]
  omega

/-- The first place decides, and the others only where it is the same. -/
theorem places_lt_iff {m n : Int} {p x y : Nat} (less : x < p) (less' : y < p) :
    m * p + x < n * p + y ↔ m < n ∨ m = n ∧ x < y := by
  have apart {k l : Int} (below : k < l) : k * p + p ≤ l * p := by
    have step := Int.mul_le_mul_of_nonneg_right (Int.add_one_le_of_lt below) (Int.natCast_nonneg p)
    rwa [Int.add_mul, Int.one_mul] at step
  rcases Int.lt_trichotomy m n with below | rfl | above
  · have step := apart below
    omega
  · omega
  · have step := apart above
    omega

/-- Digits of one length are in the order of what they write. -/
theorem value_lt_iff (digits : ∀ c ∈ t, isDigit c = true) (digits' : ∀ c ∈ t', isDigit c = true)
    (length : t.length = t'.length) : t < t' ↔ value t < value t' := by
  induction t generalizing t' with
  | nil =>
      obtain rfl := List.eq_nil_of_length_eq_zero length.symm
      simp
  | cons x t ih =>
      obtain ⟨y, t', rfl⟩ := List.exists_cons_of_length_eq_add_one length.symm
      rw [List.forall_mem_cons] at digits digits'
      have shorter : t.length = t'.length := Nat.succ.inj length
      have places := places_lt_iff (m := digitValue x) (n := digitValue y)
        (shorter ▸ value_lt digits.2) (value_lt digits'.2)
      norm_cast at places
      rw [value_cons, value_cons, shorter, places, digitValue_lt_iff digits.1 digits'.1,
        digitValue_inj digits.1 digits'.1, List.cons_lt_cons_iff, ih digits.2 digits'.2 shorter]

section Padded

variable {count n n' : Nat} {rest rest' : Text}

/-- Filled numbers are compared as numbers, and what follows them where they are the same. -/
theorem padded_lt_iff (positive : 0 < count) (small : n < 10 ^ count) (small' : n' < 10 ^ count) :
    padded count n ++ rest < padded count n' ++ rest' ↔ n < n' ∨ n = n' ∧ rest < rest' := by
  have length : (padded count n).length = (padded count n').length := by
    rw [length_padded positive small, length_padded positive small']
  have order := value_lt_iff (number_padded count n).digits (number_padded count n').digits length
  have same : padded count n = padded count n' ↔ n = n' := by
    constructor
    · intro equal
      have values := congrArg value equal
      rwa [value_padded, value_padded] at values
    · exact congrArg (padded count)
  rw [value_padded, value_padded] at order
  rw [append_lt_append_iff length, order, same]

end Padded

end Numeral

end BoundSql

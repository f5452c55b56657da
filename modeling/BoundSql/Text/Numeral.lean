import BoundSql.Text

/-!
Decimal numerals. `ofNat` writes a number without leading zeros and `value` reads any run of
digits, so `value (ofNat n) = n`; the value of a numeral does not depend on its length.
-/

namespace BoundSql.Numeral

open Text

def digit (n : Nat) : UInt8 := 48 + n.toUInt8

def ofNat (n : Nat) : Text :=
  if n < 10 then [digit n] else ofNat (n / 10) ++ [digit (n % 10)]
termination_by n

def ofInt (n : Int) : Text :=
  if n < 0 then minus :: ofNat n.natAbs else ofNat n.natAbs

def digitValue (c : UInt8) : Nat := c.toNat - 48

def value (t : Text) : Nat := t.foldl (fun n c => 10 * n + digitValue c) 0

/-- A numeral of at least `width` digits, filled with zeros. -/
def padded (width n : Nat) : Text := List.leftpad width zero (ofNat n)

theorem value_append_digit (t : Text) (c : UInt8) :
    value (t ++ [c]) = 10 * value t + digitValue c := by
  simp [value]

theorem digitValue_digit {n : Nat} (small : n < 10) : digitValue (digit n) = n := by
  have fits : n % 256 = n := Nat.mod_eq_of_lt (by omega)
  simp only [digitValue, digit, UInt8.toNat_add, UInt8.toNat_ofNat', Nat.toUInt8]
  simp
  omega

theorem value_ofNat (n : Nat) : value (ofNat n) = n := by
  induction n using ofNat.induct with
  | case1 n small =>
      rw [ofNat, if_pos small]
      simp [value, digitValue_digit small]
  | case2 n large ih =>
      rw [ofNat, if_neg large, value_append_digit, ih, digitValue_digit (Nat.mod_lt _ (by omega))]
      omega

end BoundSql.Numeral

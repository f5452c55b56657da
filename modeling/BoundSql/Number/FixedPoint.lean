import BoundSql.Number.Decimal

/-!
Numbers with a set count of decimal places, rounded from the exact value with a half going to the
even last digit. The sign is that of the number before rounding, so a small negative number shows
as a negative zero.
-/

namespace BoundSql.FixedPoint

open Text Binary

-- Powers are the built-in ones, whatever else is imported.
attribute [local instance (high)] instPowNat

def ofQuotient (places : Nat) (negative : Bool) (num den : Nat) : Text :=
  let n := Rounding.halfEven (num * 10 ^ places) den
  Decimal.sign negative ++ Numeral.ofNat (n / 10 ^ places) ++
    point :: Numeral.padded places (n % 10 ^ places)

def ofMagnitude (places : Nat) (f : Format) (negative : Bool) (m : Magnitude) : Text :=
  ofQuotient places negative m.units (2 ^ f.depth)

def six (bits : UInt64) : Text :=
  (decode double bits.toNat).text (ofMagnitude 6 double)

end BoundSql.FixedPoint

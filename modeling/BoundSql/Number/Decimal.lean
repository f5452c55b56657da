import BoundSql.Number.Binary
import BoundSql.Text.Numeral

/-!
Decimal numbers as a sign, digits and a power of ten, and their positional notation, which never
uses an exponent. The point falls before, after or among the digits, and zeros fill the gap.
-/

namespace BoundSql

open Text

-- Powers are the built-in ones, whatever else is imported.
attribute [local instance (high)] instPowNat

/-- Plus or minus `digits * 10 ^ exponent`. -/
structure Decimal where
  negative : Bool
  digits : Text
  exponent : Int
  deriving DecidableEq

namespace Decimal

def sign (negative : Bool) : Text := if negative then [minus] else []

def zeros (count : Nat) : Text := List.replicate count zero

/-- How many digits stand before the point; none or a gap of zeros if not positive. -/
def wholeDigits (d : Decimal) : Int := d.digits.length + d.exponent

def unsigned (d : Decimal) : Text :=
  let whole := d.wholeDigits
  if whole ≤ 0 then zero :: point :: zeros (-whole).toNat ++ d.digits
  else if 0 ≤ d.exponent then d.digits ++ zeros d.exponent.toNat
  else d.digits.take whole.toNat ++ point :: d.digits.drop whole.toNat

def positional (d : Decimal) : Text := sign d.negative ++ d.unsigned

/-- The quotient of two natural numbers that is the unsigned value. -/
def quotient (d : Decimal) : Nat × Nat :=
  (Numeral.value d.digits * 10 ^ d.exponent.toNat, 10 ^ (-d.exponent).toNat)

end Decimal

/-- Words for what is not finite, and a chosen notation for what is. -/
def Binary.Datum.text (finite : Bool → Binary.Magnitude → Text) : Binary.Datum → Text
  | .nan => ascii "NaN"
  | .infinite negative => if negative then ascii "-Inf" else ascii "+Inf"
  | .finite negative m => finite negative m

end BoundSql

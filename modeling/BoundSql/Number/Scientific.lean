import BoundSql.Number.Decimal.Reader

/-!
Scientific notation: one digit, a point and the other digits if there are any, and a power of ten.
The shortest digits of a number come in this notation. It is spread out into positional notation by
moving the point. The power of ten is a word of 32 bits; where there is any other one, or none that
can be read, the text stays as it is, but for a minus sign in front. The digits are counted by such
a word as well, and there can be more of them than it counts.
-/

namespace BoundSql

open Text

namespace Scientific

def withoutPoint (t : Text) : Text := t.filter (· != point)

/-- What stands before the power of ten. -/
abbrev letter : UInt8 := 101

def mark (negative : Bool) : UInt8 := if negative then minus else plus

/-- Whether a minus sign is in front, and what follows it. -/
def withoutMinus (t : Text) : Bool × Text :=
  match after? [minus] t with
  | some rest => (true, rest)
  | none => (false, t)

-- One plus sign is dropped, whatever follows it.
def power? (t : Text) : Option Int := do
  let (negative, t) := withoutMinus ((after? [plus] t).getD t)
  let n := Numeral.value (← Decimal.digits? t)
  let power := if negative then -(n : Int) else n
  if Int32.minValue.toInt ≤ power && power ≤ Int32.maxValue.toInt then some power else none

/-- The digits with the point behind so many of them, and with zeros to get there. -/
def withPoint (digits : Text) (whole : Int) : Text :=
  let count := (Int32.ofNat digits.length).toInt
  if whole ≤ 0 then zero :: point :: Decimal.zeros (-whole).toNat ++ digits
  else if count ≤ whole then digits ++ Decimal.zeros (whole - count).toNat
  else digits.take whole.toNat ++ point :: digits.drop whole.toNat

/-- The same number without a power of ten. -/
def positional (t : Text) : Text :=
  let (negative, t) := withoutMinus t
  let digits := withoutPoint (t.takeWhile (· != letter))
  let spread (power : Int) : Text := Decimal.sign negative ++ withPoint digits (power + 1)
  match t.dropWhile (· != letter) with
  | [] => spread 0
  | _ :: rest => ((power? rest).map spread).getD t

end Scientific

/-- One digit before the point, the others behind it, and a power of two digits at least. -/
def Decimal.scientific (d : Decimal) : Text :=
  let power := d.wholeDigits - 1
  let places := d.digits.drop 1
  sign d.negative ++ d.digits.take 1 ++ (if places = [] then [] else point :: places) ++
    Scientific.letter :: Scientific.mark (power < 0) :: Numeral.padded 2 power.natAbs

end BoundSql

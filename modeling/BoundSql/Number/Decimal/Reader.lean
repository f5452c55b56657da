import BoundSql.Number.Decimal

/-!
Reading decimal numbers: a sign, digits with a point among, before or after them, and an exponent,
each but some digits being optional. `nearestDouble?` gives the pattern of the nearest double,
unless that would be an infinity, or a zero for a number that is not zero.
-/

namespace BoundSql.Decimal

open Text

/-- All digits, and at least one. -/
def digits? (t : Text) : Option Text :=
  if t != [] && t.all isDigit then some t else none

def signed (t : Text) : Bool × Text :=
  match t with
  | [] => (false, [])
  | c :: rest =>
      if c = minus then (true, rest) else if c = plus then (false, rest) else (false, t)

-- The letter `e` of either case, a sign, digits, and nothing else; or nothing at all.
def exponent? : Text → Option Int
  | [] => some 0
  | c :: t =>
      if lower c = 101 then do
        let (negative, t) := signed t
        let n := Numeral.value (← digits? t)
        return if negative then -(n : Int) else n
      else none

def fraction (t : Text) : Text × Text :=
  match t with
  | [] => ([], [])
  | c :: rest =>
      if c = point then (rest.takeWhile isDigit, rest.dropWhile isDigit) else ([], t)

def read? (t : Text) : Option Decimal := do
  let (negative, t) := signed t
  let whole := t.takeWhile isDigit
  let (places, rest) := fraction (t.dropWhile isDigit)
  let digits ← digits? (whole ++ places)
  return ⟨negative, digits, (← exponent? rest) - places.length⟩

/-- The least power of ten above the number; the power decides alone when it is far off. -/
def order (d : Decimal) : Int := (d.digits.dropWhile (· == zero)).length + d.exponent

-- Half the least double is above 10 ^ -324, and the greatest is below 10 ^ 309.
def inReach (d : Decimal) : Bool := -324 < d.order && d.order ≤ 309

def nearestDouble? (d : Decimal) : Option UInt64 :=
  let signed (m : Binary.Magnitude) : UInt64 :=
    (Binary.signed Binary.double d.negative m).toUInt64
  if Numeral.value d.digits = 0 then some (signed ⟨0, 0⟩)
  else if d.inReach then
    let m := Binary.nearest Binary.double d.quotient.1 d.quotient.2
    if Binary.isFinite Binary.double m && m.significand != 0 then some (signed m) else none
  else none

end BoundSql.Decimal

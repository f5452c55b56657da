import BoundSql.Number.Decimal.Reader
import BoundSql.Value

/-!
Values written as single words. The first reading that fits the whole word counts: a keyword, an
integer of 64 bits, a finite double, bytes in hexadecimal; any other word is a text.
-/

namespace BoundSql.Argument

open Text

def keyword? (word : Text) : Option Value :=
  if word = ascii "null" || word = ascii "NULL" then some .null
  else if word = ascii "true" then some (.bool true)
  else if word = ascii "false" then some (.bool false)
  else none

def integer? (word : Text) : Option Int :=
  match word with
  | [] => none
  | c :: rest =>
      if c = minus then (Decimal.digits? rest).map fun d => -(Numeral.value d : Int)
      else (Decimal.digits? word).map fun d => Numeral.value d

def int64? (word : Text) : Option Int64 :=
  (integer? word).bind fun n =>
    if Int64.minValue.toInt ≤ n && n ≤ Int64.maxValue.toInt then some (Int64.ofInt n) else none

def double? (word : Text) : Option UInt64 := (Decimal.read? word).bind Decimal.nearestDouble?

def hexPairs? : Text → Option Text
  | [] => some []
  | [_] => none
  | a :: b :: t => do
      let high ← hexValue? a
      let low ← hexValue? b
      return (16 * high + low).toUInt8 :: (← hexPairs? t)

/-- A zero, the letter `x` of either case, and some pairs of digits. -/
def bytes? (word : Text) : Option Text :=
  match word with
  | z :: x :: pairs => if z = zero && lower x = 120 && pairs != [] then hexPairs? pairs else none
  | _ => none

def value (word : Text) : Value :=
  match keyword? word, int64? word, double? word, bytes? word with
  | some v, _, _, _ => v
  | none, some n, _, _ => .int n
  | none, none, some bits, _ => .double bits
  | none, none, none, some b => .bytes b
  | none, none, none, none => .text word

end BoundSql.Argument

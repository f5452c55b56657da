import BoundSql.Text.Numeral

/-!
What a scalar means as a switch or as an integer. Integers may have a sign, tell their base by how
they begin, and may be followed by blanks but not preceded by any.
-/

namespace BoundSql.Scalar

open Text

def switches : List (String × Bool) :=
  [("y", true), ("n", false), ("yes", true), ("no", false), ("true", true), ("false", false),
   ("on", true), ("off", false)]

-- All small, all capitals, or a capital in front.
def spellings (word : Text) : List Text :=
  [word, uppercase word, uppercase (word.take 1) ++ word.drop 1]

def bool? (t : Text) : Option Bool :=
  (switches.find? fun s => (spellings (ascii s.1)).contains t).map (·.2)

def digitBelow? (base : Nat) (c : UInt8) : Option Nat :=
  (hexValue? c).filter (· < base)

/-- All digits of the base, at least one, and then only blanks. -/
def inBase? (base : Nat) (t : Text) : Option Nat :=
  let isDigit (c : UInt8) : Bool := (digitBelow? base c).isSome
  let digits := (t.takeWhile isDigit).filterMap (digitBelow? base)
  if digits != [] && (t.dropWhile isDigit).all isSpace then
    some (digits.foldl (fun n d => base * n + d) 0)
  else none

def magnitude? (t : Text) : Option Nat :=
  match t with
  | z :: x :: rest =>
      if z = zero then if lower x = 120 then inBase? 16 rest else inBase? 8 t else inBase? 10 t
  | _ => inBase? 10 t

def integer? (t : Text) : Option Int :=
  match t with
  | [] => none
  | c :: rest =>
      if c = minus then (magnitude? rest).map fun n => -(n : Int)
      else (magnitude? (if c = plus then rest else t)).map fun n => n

def int32? (t : Text) : Option Int32 :=
  ((integer? t).filter fun n => Int32.minValue.toInt ≤ n && n ≤ Int32.maxValue.toInt).map
    Int32.ofInt

-- Not even zero goes with a minus sign.
def uint32? (t : Text) : Option UInt32 :=
  if t.head? == some minus then none
  else ((integer? t).filter fun (n : Int) => n < UInt32.size).map fun n => UInt32.ofNat n.toNat

end BoundSql.Scalar

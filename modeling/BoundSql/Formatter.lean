import BoundSql.Number.FixedPoint
import BoundSql.Number.Shortest
import BoundSql.Text.Printable
import BoundSql.Text.Quoted
import BoundSql.Time.Pattern
import BoundSql.Value

/-!
Literals. A formatter's settings say how times, nulls and objects are shown; every text goes
between escapers. References, driver values and conversions are followed a bounded number of
times, after which a value counts as null, so even a chain without end has a literal.
-/

namespace BoundSql

open Text

inductive Clock where
  | universal
  | home
  deriving DecidableEq

/-- `fractionDigits` above nine count as nine. An empty `zeroTime` stands for no special case. -/
structure Formatter where
  timePattern : Text := ascii "%Y-%m-%d %H:%M:%S"
  fractionDigits : Nat := 3
  trimFraction : Bool := true
  clock : Clock := .universal
  zeroTime : Text := ascii "0000-00-00 00:00:00"
  nullLiteral : Text := ascii "NULL"
  conversions : List Convertible := [.time, .bool, .bytes]
  deriving DecidableEq

namespace Formatter

def trimZeros (t : Text) : Text := (t.reverse.dropWhile (· == zero)).reverse

theorem mem_trimZeros {c : UInt8} {t : Text} (member : c ∈ trimZeros t) : c ∈ t :=
  List.mem_reverse.mp ((List.dropWhile_sublist _).subset (List.mem_reverse.mp member))

def fractionDigitsOf (f : Formatter) (t : Instant) : Text :=
  let digits := (Numeral.padded 9 t.fraction).take (min f.fractionDigits 9)
  if f.trimFraction then trimZeros digits else digits

def fractionText (f : Formatter) (t : Instant) : Text :=
  match f.fractionDigitsOf t with
  | [] => []
  | digits => point :: digits

def zone (f : Formatter) (home : Zone) : Zone :=
  match f.clock with
  | .universal => Zone.universal
  | .home => home

def timeText (f : Formatter) (home : Zone) (t : Instant) : Text :=
  TimePattern.expand home (Moment.ofSeconds (f.zone home) t.seconds) f.timePattern ++
    f.fractionText t

def time (f : Formatter) (home : Zone) (escaper : Text) (t : Instant) : Text :=
  if t = Instant.zero && f.zeroTime != [] then Quoted.escape escaper f.zeroTime
  else Quoted.escape escaper (f.timeText home t)

def bool (b : Bool) : Text := if b then ascii "true" else ascii "false"

def int (n : Int64) : Text := Numeral.ofInt n.toInt

def uint (n : UInt64) : Text := Numeral.ofNat n.toNat

-- Six places, not the shortest text, where an object hides the number.
def stringer (escaper : Text) (s : Stringer) : Text :=
  match s.primitive with
  | .bool b => bool b
  | .int n => int n
  | .uint n => uint n
  | .double bits => FixedPoint.six bits
  | .text => Quoted.escape escaper s.text
  | .absent => Quoted.escape escaper s.text

def bytes (escaper b : Text) : Text :=
  if Printable.text b then Quoted.escape escaper b
  else Quoted.wrap escaper (ascii "<binary>")

/-- A conversion counts only if it gives a value of the kind asked for. -/
def accepts : Convertible → Value → Bool
  | .time, .time _ => true
  | .bool, .bool _ => true
  | .bytes, .bytes _ => true
  | _, _ => false

def converted? (g : Generic Value) (order : List Convertible) : Option Value :=
  order.findSome? fun kind => (g.convert kind).filter (accepts kind)

/-- How often a value is followed to another one. -/
def maxSteps : Nat := 32

-- The first argument is one more than the steps that may still be taken.
def literal (f : Formatter) (home : Zone) (escaper : Text) : Nat → Value → Text
  | 0, _ => f.nullLiteral
  | left + 1, v =>
      let follow (answer : Answer Value) : Text :=
        match answer with
        | .value v => literal f home escaper left v
        | .failed _ => f.nullLiteral
      match v with
      | .null => f.nullLiteral
      | .bool b => bool b
      | .time t => f.time home escaper t
      | .maybeTime t => t.elim f.nullLiteral (f.time home escaper)
      | .driver answer => answer.elim f.nullLiteral follow
      | .stringer object => object.elim f.nullLiteral (stringer escaper)
      | .bytes b => bytes escaper b
      | .int n => int n
      | .uint n => uint n
      | .single bits => Shortest.singleText bits
      | .double bits => Shortest.doubleText bits
      | .text t => Quoted.escape escaper t
      | .reference target => target.elim f.nullLiteral (literal f home escaper left)
      | .generic none => f.nullLiteral
      | .generic (some g) =>
          match g.driver, converted? g f.conversions with
          | some answer, _ => follow answer
          | none, some v => literal f home escaper left v
          | none, none => Quoted.escape escaper g.text
      | .endless layers => literal f home escaper left (.endless fun n => layers (n + 1))

def format (f : Formatter) (home : Zone) (v : Value) (escaper : Text) : Text :=
  f.literal home escaper (maxSteps + 1) v

end Formatter

end BoundSql

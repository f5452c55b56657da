import BoundSql.Number.Decimal

/-!
The shortest decimal text of a binary number: of all decimals that round to it, those with the
fewest digits, and of these the nearest, a tie going to the even digit. The search is among
multiples of ever smaller powers of ten inside the interval of reals that round to the number;
its ends belong to it exactly when the significand is even.
-/

namespace BoundSql.Shortest

open Text Binary

-- Powers are the built-in ones, whatever else is imported.
attribute [local instance (high)] instPowNat

/-- The reals that round to a number, scaled to whole numbers. -/
structure Interval where
  low : Nat
  centre : Nat
  high : Nat
  closed : Bool

namespace Interval

def holds (i : Interval) (n : Nat) : Bool :=
  if i.closed then i.low ≤ n && n ≤ i.high else i.low < n && n < i.high

/-- The power of ten by which an interval of the format is scaled. -/
def places (f : Format) : Nat := f.depth + 2

-- In quarters of a unit. Below a power of two the numbers lie twice as dense.
def ofMagnitude (f : Format) (m : Magnitude) : Interval :=
  let step := 2 ^ m.shift
  let narrow := m.significand == f.implicitBit && 0 < m.shift
  let scale := 5 ^ places f
  let centre := 4 * m.significand * step
  { low := (centre - (if narrow then step else 2 * step)) * scale
    centre := centre * scale
    high := (centre + 2 * step) * scale
    closed := m.significand % 2 == 0 }

/-- The multiple of `grain` inside the interval that is nearest to its centre. -/
def multiple? (i : Interval) (grain : Nat) : Option Nat :=
  let below := i.centre / grain
  match i.holds (below * grain), i.holds ((below + 1) * grain) with
  | true, true => some (Rounding.halfEven i.centre grain)
  | true, false => some below
  | false, true => some (below + 1)
  | false, false => none

/-- The coarsest power of ten, at most the given one, with a multiple inside. -/
def coarsest (i : Interval) : Nat → Nat × Nat
  | 0 => (i.centre, 0)
  | power + 1 =>
      match i.multiple? (10 ^ (power + 1)) with
      | some count => (count, power + 1)
      | none => coarsest i power

end Interval

def decimal (f : Format) (negative : Bool) (m : Magnitude) : Decimal :=
  if m.significand = 0 then ⟨negative, [zero], 0⟩
  else
    let i := Interval.ofMagnitude f m
    let (count, power) := i.coarsest (Numeral.ofNat i.high).length
    ⟨negative, Numeral.ofNat count, power - Interval.places f⟩

def text (f : Format) (bits : Nat) : Text :=
  (decode f bits).text fun negative m => (decimal f negative m).positional

def doubleText (bits : UInt64) : Text := text double bits.toNat

def singleText (bits : UInt32) : Text := text single bits.toNat

end BoundSql.Shortest

import BoundSql.Number.Rounding

/-!
Binary floating point as bit patterns. The least positive value of a format is its unit, and
every finite value is a whole number of units, so all arithmetic here is exact arithmetic on
natural numbers: `decode` reads a pattern, `nearest` finds the pattern nearest to a quotient.
-/

namespace BoundSql.Binary

-- Powers are the built-in ones, whatever else is imported.
attribute [local instance (high)] instPowNat

structure Format where
  fractionBits : Nat
  exponentBits : Nat
  deriving DecidableEq

def double : Format := ⟨52, 11⟩

def single : Format := ⟨23, 8⟩

namespace Format

variable (f : Format)

def implicitBit : Nat := 2 ^ f.fractionBits

/-- The unit is `2 ^ -f.depth`. -/
def depth : Nat := 2 ^ (f.exponentBits - 1) - 2 + f.fractionBits

def topField : Nat := 2 ^ f.exponentBits - 1

def infinity : Nat := f.topField * f.implicitBit

def signBit : Nat := 2 ^ (f.exponentBits + f.fractionBits)

end Format

/-- `significand * 2 ^ shift` units. -/
structure Magnitude where
  significand : Nat
  shift : Nat
  deriving DecidableEq

namespace Magnitude

def units (m : Magnitude) : Nat := m.significand * 2 ^ m.shift

-- A carry out of the significand runs into the exponent field, where it belongs.
def pattern (f : Format) (m : Magnitude) : Nat := m.shift * f.implicitBit + m.significand

end Magnitude

inductive Datum where
  | nan
  | infinite (negative : Bool)
  | finite (negative : Bool) (magnitude : Magnitude)
  deriving DecidableEq

def decode (f : Format) (bits : Nat) : Datum :=
  let negative := bits / f.signBit % 2 == 1
  let field := bits / f.implicitBit % (f.topField + 1)
  let fraction := bits % f.implicitBit
  if field = f.topField then
    if fraction = 0 then .infinite negative else .nan
  else if field = 0 then .finite negative ⟨fraction, 0⟩
  else .finite negative ⟨f.implicitBit + fraction, field - 1⟩

/-- The magnitude nearest to `num / den`, a half going to the even significand. -/
def nearest (f : Format) (num den : Nat) : Magnitude :=
  let scaled := num * 2 ^ f.depth
  let shift := Nat.log2 (scaled / den) - f.fractionBits
  ⟨Rounding.halfEven scaled (den * 2 ^ shift), shift⟩

def isFinite (f : Format) (m : Magnitude) : Bool := m.pattern f < f.infinity

def signed (f : Format) (negative : Bool) (m : Magnitude) : Nat :=
  (if negative then f.signBit else 0) + m.pattern f

end BoundSql.Binary

/-!
The proleptic Gregorian calendar. Days are numbered from 1970-01-01. Years are counted from March,
so that a leap day is the last day of its year, of its four years and of its four centuries, and
each of these spans is cut off by one division.
-/

namespace BoundSql

/-- Months and days count from 1. -/
structure Date where
  year : Int
  month : Nat
  day : Nat
  deriving DecidableEq

namespace Date

/-- From the first of March of the year 0 to the first of January 1970. -/
def epoch : Int := 719468

-- Days of a year before the given month, months counted from March.
def daysBefore (march : Nat) : Nat := (153 * march + 2) / 5

def ofDay (number : Int) : Date :=
  let n := number + epoch
  let inEra := (n % 146097).toNat
  -- The last century of an era and the last year of four are the ones with a day more.
  let century := min 3 (inEra / 36524)
  let inCentury := inEra - century * 36524
  let fours := inCentury / 1461
  let inFour := inCentury - fours * 1461
  let single := min 3 (inFour / 365)
  let inYear := inFour - single * 365
  let march := (5 * inYear + 2) / 153
  let month := if march < 10 then march + 3 else march - 9
  let year := 400 * (n / 146097) + (100 * century + 4 * fours + single : Nat)
  { year := if month ≤ 2 then year + 1 else year
    month := month
    day := inYear - daysBefore march + 1 }

def toDay (d : Date) : Int :=
  let year := if d.month ≤ 2 then d.year - 1 else d.year
  let march := if d.month ≤ 2 then d.month + 9 else d.month - 3
  365 * year + year / 4 - year / 100 + year / 400 + (daysBefore march + d.day : Nat) - 1 - epoch

/-- Days since the first of January of the same year. -/
def yearDay (d : Date) : Nat := (d.toDay - toDay ⟨d.year, 1, 1⟩).toNat

end Date

end BoundSql

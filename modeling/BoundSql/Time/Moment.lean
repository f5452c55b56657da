import BoundSql.Time.Calendar
import BoundSql.Time.Zone

/-!
Instants are counted in nanoseconds from 1970-01-01T00:00:00Z. A moment is an instant read off the
wall in some zone, down to the second; the rest of the instant is its fraction. Seconds are taken
downward, so the fraction is never negative.
-/

namespace BoundSql

structure Instant where
  nanoseconds : Int64
  deriving DecidableEq

namespace Instant

def seconds (t : Instant) : Int := t.nanoseconds.toInt / 1000000000

/-- The instant, in nanoseconds, at which its second began. -/
def secondStart (t : Instant) : Int := t.seconds * 1000000000

def fraction (t : Instant) : Nat := (t.nanoseconds.toInt - t.secondStart).toNat

def milliseconds (t : Instant) : Nat := t.fraction / 1000000

def zero : Instant := ⟨0⟩

end Instant

/-- A day number, a second of that day, and the zone whose clock shows them. -/
structure Moment where
  day : Int
  second : Nat
  zone : Zone
  deriving DecidableEq

namespace Moment

def ofSeconds (zone : Zone) (seconds : Int) : Moment :=
  let onWall := seconds + zone.offset
  ⟨onWall / 86400, (onWall % 86400).toNat, zone⟩

/-- Seconds from the epoch to what the wall shows, as if the wall showed universal time. -/
def wallSeconds (m : Moment) : Int := m.day * 86400 + m.second

def date (m : Moment) : Date := Date.ofDay m.day

def hours (m : Moment) : Nat := m.second / 3600

def minutes (m : Moment) : Nat := m.second / 60 % 60

def secondsOfMinute (m : Moment) : Nat := m.second % 60

-- The epoch was a Thursday; Sunday is 0.
def weekday (m : Moment) : Nat := ((m.day + 4) % 7).toNat

def yearDay (m : Moment) : Nat := m.date.yearDay

def twelveHour (m : Moment) : Nat := if m.hours % 12 = 0 then 12 else m.hours % 12

def afternoon (m : Moment) : Bool := 12 ≤ m.hours

/-- The number of the week in a year whose weeks begin on the given weekday. -/
def weekFrom (first : Nat) (m : Moment) : Nat :=
  (m.yearDay + 7 - (m.weekday + 7 - first) % 7) / 7

-- A week belongs to the year that holds its Thursday.
def thursday (m : Moment) : Date := Date.ofDay (m.day + 3 - ((m.weekday + 6) % 7 : Nat))

def weekYear (m : Moment) : Int := m.thursday.year

def weekOfYear (m : Moment) : Nat := m.thursday.yearDay / 7 + 1

end Moment

end BoundSql

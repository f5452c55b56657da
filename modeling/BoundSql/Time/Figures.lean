import BoundSql.Time.Moment

/-!
The figures that a moment is written with: names of days and months, in English, and the usual
forms of dates and clock times.
-/

namespace BoundSql.Moment

open Text

def dayNames : List String :=
  ["Sunday", "Monday", "Tuesday", "Wednesday", "Thursday", "Friday", "Saturday"]

def monthNames : List String :=
  ["January", "February", "March", "April", "May", "June", "July", "August", "September",
   "October", "November", "December"]

def dayName (m : Moment) : Text := ascii (dayNames.getD m.weekday "?")

def monthName (m : Moment) : Text := ascii (monthNames.getD (m.date.month - 1) "?")

def half (m : Moment) : Text := ascii (if m.afternoon then "PM" else "AM")

def yearOfCentury (m : Moment) : Nat := (m.date.year % 100).toNat

def two (n : Nat) : Text := Numeral.padded 2 n

def slashDate (m : Moment) : Text :=
  two m.date.month ++ ascii "/" ++ two m.date.day ++ ascii "/" ++ two m.yearOfCentury

def dashDate (m : Moment) : Text :=
  Numeral.ofInt m.date.year ++ ascii "-" ++ two m.date.month ++ ascii "-" ++ two m.date.day

def hourMinute (m : Moment) : Text := two m.hours ++ ascii ":" ++ two m.minutes

def clock (m : Moment) : Text := m.hourMinute ++ ascii ":" ++ two m.secondsOfMinute

def halfDayClock (m : Moment) : Text :=
  two m.twelveHour ++ ascii ":" ++ two m.minutes ++ ascii ":" ++ two m.secondsOfMinute ++
    blank :: m.half

def full (m : Moment) : Text :=
  m.dayName.take 3 ++ blank :: m.monthName.take 3 ++
    blank :: List.leftpad 2 blank (Numeral.ofNat m.date.day) ++
    blank :: m.clock ++ blank :: Numeral.ofInt m.date.year

end BoundSql.Moment

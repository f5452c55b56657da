import BoundSql.Proofs.Gregorian
import BoundSql.Proofs.Positional
import BoundSql.Proofs.UsualTimes

/-!
Reading the time that a text shows: a date of the Gregorian calendar, a blank, a clock time, and
perhaps a point and decimal places of the second. What is written for the date and the clock of a
moment is read as this moment again, as long as its year has four digits.
-/

namespace BoundSql

open Text

-- Powers are the built-in ones, whatever else is imported.
attribute [local instance (high)] instPowNat

namespace TimeReading

/-- The number that so many digits write, and what follows them. -/
def figures? (count : Nat) (t : Text) : Option (Nat × Text) :=
  if count ≤ t.length && (t.take count).all isDigit then
    some (Numeral.value (t.take count), t.drop count)
  else none

def date? (t : Text) : Option (Date × Text) := do
  let (year, t) ← figures? 4 t
  let (month, t) ← figures? 2 (← after? [minus] t)
  let (day, t) ← figures? 2 (← after? [minus] t)
  if (Date.mk year month day).Valid then some (⟨year, month, day⟩, t) else none

/-- A second of the day. -/
def clock? (t : Text) : Option (Nat × Text) := do
  let (hours, t) ← figures? 2 t
  let (minutes, t) ← figures? 2 (← after? [58] t)
  let (seconds, t) ← figures? 2 (← after? [58] t)
  if hours < 24 ∧ minutes < 60 ∧ seconds < 60 then
    some (3600 * hours + 60 * minutes + seconds, t)
  else none

/-- The places of a second, which may be missing together with their point. -/
def places? (t : Text) : Option ℚ :=
  if t = [] then some 0
  else do
    let digits ← Decimal.digits? (← after? [point] t)
    return (Numeral.value digits : ℚ) / 10 ^ digits.length

/-- Seconds from the epoch, in universal time. -/
def read? (t : Text) : Option ℚ := do
  let (date, t) ← date? t
  let (second, t) ← clock? (← after? [blank] t)
  return 86400 * date.number + second + (← places? t)

section Figures

variable {count n : Nat}

theorem after_written (lead rest : Text) : after? lead (lead ++ rest) = some rest :=
  after?_eq_some.mpr rfl

theorem figures_padded (positive : 0 < count) (small : n < 10 ^ count) (rest : Text) :
    figures? count (Numeral.padded count n ++ rest) = some (n, rest) := by
  have length := Numeral.length_padded positive small
  have front : (Numeral.padded count n ++ rest).take count = Numeral.padded count n := by
    rw [List.take_append_of_le_length length.ge, List.take_of_length_le length.le]
  have back : (Numeral.padded count n ++ rest).drop count = rest := by
    rw [List.drop_append_of_le_length length.ge, List.drop_of_length_le length.le,
      List.nil_append]
  have longer : count ≤ (Numeral.padded count n ++ rest).length := by
    rw [List.length_append]
    omega
  have digits := List.all_eq_true.mpr (Numeral.number_padded count n).digits
  rw [figures?, front, back, Numeral.value_padded, if_pos]
  rw [Bool.and_eq_true, decide_eq_true_eq]
  exact ⟨longer, digits⟩

theorem figures_two (small : n < 100) (rest : Text) :
    figures? 2 (Moment.two n ++ rest) = some (n, rest) :=
  figures_padded (by decide) small rest

/-- A year of four digits is not filled. -/
theorem ofInt_year {year : Int} (least : 1000 ≤ year) :
    Numeral.ofInt year = Numeral.padded 4 year.toNat := by
  have positive : ¬ year < 0 := by omega
  have size := Numeral.value_lt (Numeral.number_ofNat year.toNat).digits
  rw [Numeral.value_ofNat] at size
  have longer : 3 < (Numeral.ofNat year.toNat).length := by
    have power : 10 ^ 3 < 10 ^ (Numeral.ofNat year.toNat).length :=
      Nat.lt_of_le_of_lt (by omega) size
    exact (Nat.pow_lt_pow_iff_right (by decide)).mp power
  have same : year.natAbs = year.toNat := by omega
  have filled : 4 - (Numeral.ofNat year.toNat).length = 0 := by omega
  rw [Numeral.ofInt, if_neg positive, same, Numeral.padded, List.leftpad, filled]
  rfl

end Figures

section Moments

variable {m : Moment} (rest : Text)

theorem dashDate_padded (least : 1000 ≤ m.date.year) : m.dashDate =
    Numeral.padded 4 m.date.year.toNat ++ [minus] ++ Moment.two m.date.month ++ [minus] ++
      Moment.two m.date.day := by
  rw [Moment.dashDate, ofInt_year least]
  rfl

theorem date_dashDate (least : 1000 ≤ m.date.year) (most : m.date.year < 10000) :
    date? (m.dashDate ++ rest) = some (m.date, rest) := by
  have valid : m.date.Valid := Date.valid_ofDay m.day
  obtain ⟨month, day⟩ := valid.two_digits
  have small : m.date.year.toNat < 10 ^ 4 := by omega
  have year : ((m.date.year.toNat : Nat) : Int) = m.date.year := by omega
  simp only [dashDate_padded least, List.append_assoc, date?]
  simp only [figures_padded (show 0 < 4 by decide) small, figures_two month, figures_two day,
    after_written, bind, Option.bind, year]
  exact if_pos valid

theorem length_two {n : Nat} (small : n < 100) : (Moment.two n).length = 2 :=
  Numeral.length_padded (by decide) small

theorem length_dashDate (least : 1000 ≤ m.date.year) (most : m.date.year < 10000) :
    m.dashDate.length = 10 := by
  obtain ⟨month, day⟩ := (show m.date.Valid from Date.valid_ofDay m.day).two_digits
  have year := Numeral.length_padded (show 0 < 4 by decide)
    (show m.date.year.toNat < 10 ^ 4 by omega)
  simp only [dashDate_padded least, List.length_append, year, length_two month, length_two day,
    List.length_singleton]

theorem clock_figures (inDay : m.second < 86400) :
    m.hours < 24 ∧ m.minutes < 60 ∧ m.secondsOfMinute < 60 ∧
      3600 * m.hours + 60 * m.minutes + m.secondsOfMinute = m.second := by
  simp only [Moment.hours, Moment.minutes, Moment.secondsOfMinute]
  omega

theorem clock_read (inDay : m.second < 86400) :
    clock? (m.clock ++ rest) = some (m.second, rest) := by
  obtain ⟨hours, minutes, seconds, sum⟩ := clock_figures inDay
  have colon : ascii ":" = [58] := rfl
  simp only [Moment.clock, Moment.hourMinute, colon, List.append_assoc, clock?]
  simp only [figures_two (show m.hours < 100 by omega), figures_two (show m.minutes < 100 by omega),
    figures_two (show m.secondsOfMinute < 100 by omega), after_written, bind, Option.bind, sum]
  exact if_pos ⟨hours, minutes, seconds⟩

theorem length_clock (inDay : m.second < 86400) : m.clock.length = 8 := by
  obtain ⟨hours, minutes, seconds, -⟩ := clock_figures inDay
  have colon : (ascii ":").length = 1 := rfl
  simp only [Moment.clock, Moment.hourMinute, List.length_append, colon,
    length_two (show m.hours < 100 by omega), length_two (show m.minutes < 100 by omega),
    length_two (show m.secondsOfMinute < 100 by omega)]

/-- A date, a blank, a clock time and places are read as the moment that has them. -/
theorem read_written {places : Text} {fraction : ℚ} (least : 1000 ≤ m.date.year)
    (most : m.date.year < 10000) (inDay : m.second < 86400)
    (read : places? places = some fraction) :
    read? (m.dashDate ++ blank :: m.clock ++ places) = some (m.wallSeconds + fraction) := by
  have number : m.date.number = m.day := Date.number_ofDay m.day
  have gap : after? [blank] (blank :: (m.clock ++ places)) = some (m.clock ++ places) :=
    after_written [blank] _
  simp only [List.append_assoc, List.cons_append, read?, date_dashDate _ least most, gap,
    clock_read _ inDay, read, number, Moment.wallSeconds, bind, Option.bind, pure]
  push_cast
  rw [mul_comm]

end Moments

section Places

theorem places_nil : places? [] = some 0 := if_pos rfl

theorem places_written {digits : Text} (number : Template.IsNumber digits) :
    places? (point :: digits) = some ((Numeral.value digits : ℚ) / 10 ^ digits.length) := by
  have front : after? [point] (point :: digits) = some digits := after_written [point] digits
  have read := Decimal.digits_eq_some.mpr ⟨number, rfl⟩
  rw [places?, if_neg (List.cons_ne_nil _ _), front]
  simp only [read, bind, Option.bind, pure]

end Places

end TimeReading

end BoundSql

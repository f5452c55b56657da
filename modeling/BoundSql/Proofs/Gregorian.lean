import BoundSql.Time.Calendar
import Mathlib.Tactic.IntervalCases

/-!
The Gregorian calendar by its own rules: which years have a leap day, how long the months are, and
how many days lie before a date. The date of a day number is a date of this calendar, and as many
days lie before it as the number says, without end in both directions.
-/

namespace BoundSql.Date

/-- Every fourth year, but of the full centuries only every fourth. -/
def IsLeap (year : Int) : Prop := year % 4 = 0 ∧ (year % 100 ≠ 0 ∨ year % 400 = 0)

instance (year : Int) : Decidable (IsLeap year) := inferInstanceAs (Decidable (_ ∧ _))

def leapDay (year : Int) : Nat := if IsLeap year then 1 else 0

def monthLength (year : Int) (month : Nat) : Nat :=
  if month = 2 then 28 + leapDay year
  else if month = 4 ∨ month = 6 ∨ month = 9 ∨ month = 11 then 30
  else 31

theorem monthLength_le (year : Int) (month : Nat) : monthLength year month ≤ 31 := by
  have leap : leapDay year ≤ 1 := by
    unfold leapDay
    split <;> decide
  unfold monthLength
  split
  · omega
  · split <;> decide

structure Valid (d : Date) : Prop where
  month : 1 ≤ d.month ∧ d.month ≤ 12
  day : 1 ≤ d.day ∧ d.day ≤ monthLength d.year d.month

instance (d : Date) : Decidable d.Valid :=
  decidable_of_iff ((1 ≤ d.month ∧ d.month ≤ 12) ∧ 1 ≤ d.day ∧ d.day ≤ monthLength d.year d.month)
    ⟨fun valid => ⟨valid.1, valid.2⟩, fun valid => ⟨valid.month, valid.day⟩⟩

theorem Valid.two_digits {d : Date} (valid : d.Valid) : d.month < 100 ∧ d.day < 100 := by
  have length := monthLength_le d.year d.month
  have month := valid.month
  have day := valid.day
  omega

/-- The years from 1 to before the given one that have a leap day, counted back below 1. -/
def leapDaysBefore (year : Int) : Int := (year - 1) / 4 - (year - 1) / 100 + (year - 1) / 400

/-- The number of the first of January. -/
def newYear (year : Int) : Int :=
  365 * (year - 1970) + (leapDaysBefore year - leapDaysBefore 1970)

def daysBeforeMonth (year : Int) (month : Nat) : Nat :=
  ((List.range' 1 (month - 1)).map (monthLength year)).sum

/-- Days from the first of January 1970. -/
def number (d : Date) : Int :=
  newYear d.year + (daysBeforeMonth d.year d.month + d.day : Nat) - 1

theorem newYear_succ (year : Int) : newYear (year + 1) = newYear year + 365 + leapDay year := by
  by_cases leap : IsLeap year
  · rw [leapDay, if_pos leap]
    unfold IsLeap at leap
    unfold newYear leapDaysBefore
    omega
  · rw [leapDay, if_neg leap]
    unfold IsLeap at leap
    unfold newYear leapDaysBefore
    omega

/-- A day of a year that begins with March, so that a leap day is its last. -/
structure MarchDay where
  year : Int
  march : Nat
  inYear : Nat
  begun : daysBefore march ≤ inYear
  unfinished : inYear < daysBefore (march + 1)
  last : march ≤ 11
  leap : inYear ≤ 364 + leapDay (year + 1)

namespace MarchDay

variable (d : MarchDay)

def date : Date where
  year := if d.march < 10 then d.year else d.year + 1
  month := if d.march < 10 then d.march + 3 else d.march - 9
  day := d.inYear - daysBefore d.march + 1

theorem daysBefore_succ {march : Nat} (short : march < 11) (year : Int) :
    daysBefore (march + 1) = daysBefore march +
      monthLength year (if march < 10 then march + 3 else march - 9) := by
  interval_cases march <;> rfl

theorem valid_date : d.date.Valid := by
  obtain ⟨year, march, inYear, begun, unfinished, last, leap⟩ := d
  constructor
  · simp only [date]
    split <;> omega
  · rcases Nat.lt_or_ge march 11 with short | final
    · have length := daysBefore_succ short (date ⟨year, march, inYear, begun, unfinished, last,
        leap⟩).year
      simp only [date] at length ⊢
      omega
    · -- February goes on to the end of the year.
      obtain rfl : march = 11 := by omega
      have before : daysBefore 11 = 337 := rfl
      have length : monthLength (year + 1) (11 - 9) = 28 + leapDay (year + 1) := rfl
      have late : ¬ 11 < 10 := by decide
      simp only [date, if_neg late, before, length] at begun ⊢
      omega

theorem daysBeforeMonth_march {march : Nat} (late : march < 10) (year : Int) :
    daysBeforeMonth year (march + 3) = 59 + leapDay year + daysBefore march := by
  interval_cases march <;> simp [daysBeforeMonth, monthLength, daysBefore, List.range'] <;> omega

theorem number_date : d.date.number = newYear (d.year + 1) - 306 + d.inYear := by
  obtain ⟨year, march, inYear, begun, unfinished, last, leap⟩ := d
  simp only [number, date]
  split
  · next late =>
      have next := newYear_succ year
      have before := daysBeforeMonth_march late year
      omega
  · next early =>
      obtain rfl | rfl : march = 10 ∨ march = 11 := by omega
      · have none : daysBeforeMonth (year + 1) (10 - 9) = 0 := rfl
        have before : daysBefore 10 = 306 := rfl
        omega
      · have january : daysBeforeMonth (year + 1) (11 - 9) = 31 := rfl
        have before : daysBefore 11 = 337 := rfl
        omega

end MarchDay

/-- Centuries of an era, leap years of a century and years of four are cut off one by one. -/
theorem exists_marchDay (n : Int) : ∃ d : MarchDay,
    ofDay n = d.date ∧ n = newYear (d.year + 1) - 306 + d.inYear := by
  unfold ofDay
  simp only
  generalize inEra : ((n + epoch) % 146097).toNat = era
  generalize century : min 3 (era / 36524) = c
  generalize fours : (era - c * 36524) / 1461 = f
  generalize single : min 3 ((era - c * 36524 - f * 1461) / 365) = s
  generalize inYear : era - c * 36524 - f * 1461 - s * 365 = y
  have start : epoch = 719468 := rfl
  have few : c ≤ 3 ∧ f ≤ 24 ∧ s ≤ 3 := by omega
  have short : y ≤ 365 := by omega
  have long : y = 365 → s = 3 ∧ (f = 24 → c = 3) := by omega
  have year : n + 719468 =
      146097 * ((n + epoch) / 146097) + 36524 * c + 1461 * f + 365 * s + y := by
    omega
  generalize (n + epoch) / 146097 = eras at *
  clear inEra century fours single inYear
  have leap : y ≤ 364 + leapDay (400 * eras + (100 * c + 4 * f + s : Nat) + 1) := by
    rcases Nat.lt_or_ge y 365 with early | late
    · omega
    · have leap : IsLeap (400 * eras + (100 * c + 4 * f + s : Nat) + 1) := by
        unfold IsLeap
        omega
      rw [leapDay, if_pos leap]
      omega
  refine ⟨⟨400 * eras + (100 * c + 4 * f + s : Nat), (5 * y + 2) / 153, y, ?_, ?_, ?_, leap⟩,
    ?_, ?_⟩
  · unfold daysBefore
    omega
  · unfold daysBefore
    omega
  · omega
  · simp only [MarchDay.date]
    congr 1
    split <;> split <;> omega
  · simp only [newYear, leapDaysBefore]
    omega

theorem valid_ofDay (n : Int) : (ofDay n).Valid := by
  obtain ⟨d, same, -⟩ := exists_marchDay n
  exact same ▸ d.valid_date

/-- A day lies between the beginning of its year and that of the next. -/
theorem newYear_ofDay (n : Int) :
    newYear (ofDay n).year ≤ n ∧ n < newYear ((ofDay n).year + 1) := by
  obtain ⟨d, same, count⟩ := exists_marchDay n
  have march := newYear_succ d.year
  have next := newYear_succ (d.year + 1)
  have begun := d.begun
  have unfinished := d.unfinished
  have leap := d.leap
  unfold daysBefore at begun unfinished
  rw [same]
  simp only [MarchDay.date]
  split <;> omega

theorem number_ofDay (n : Int) : (ofDay n).number = n := by
  obtain ⟨d, same, count⟩ := exists_marchDay n
  rw [same, d.number_date, ← count]

end BoundSql.Date

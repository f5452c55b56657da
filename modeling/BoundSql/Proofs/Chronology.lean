import BoundSql.Proofs.Instants
import BoundSql.Proofs.TextOrder
import Mathlib.Order.Monotone.Basic

/-!
Times that are written year first are in the order of time. A date is later than another one if more
days lie before it, so the calendar may be compared by year, month and day, and the clock by hour,
minute and second. A time stamp is a text of one length in which these stand one behind the other.
-/

namespace BoundSql

open Text

-- Powers are the built-in ones, whatever else is imported.
attribute [local instance (high)] instPowNat

namespace Date

/-- The earlier year, or in one year the earlier month, or in one month the earlier day. -/
def Before (d e : Date) : Prop :=
  d.year < e.year ∨ d.year = e.year ∧ (d.month < e.month ∨ d.month = e.month ∧ d.day < e.day)

theorem daysBeforeMonth_succ (year : Int) {month : Nat} (positive : 1 ≤ month) :
    daysBeforeMonth year (month + 1) = daysBeforeMonth year month + monthLength year month := by
  obtain ⟨month, rfl⟩ := Nat.exists_eq_add_of_le' positive
  simp [daysBeforeMonth, List.range'_concat, Nat.add_comm 1 month]

theorem daysBeforeMonth_mono (year : Int) : Monotone (daysBeforeMonth year) := by
  apply monotone_nat_of_le_succ
  intro month
  cases month with
  | zero => exact Nat.le_refl 0
  | succ month =>
      rw [daysBeforeMonth_succ year (Nat.succ_pos month)]
      exact Nat.le_add_right _ _

theorem daysBeforeMonth_year (year : Int) : daysBeforeMonth year 13 = 365 + leapDay year := by
  have late := MarchDay.daysBeforeMonth_march (show 9 < 10 by decide) year
  have march : daysBefore 9 = 275 := rfl
  have december : monthLength year 12 = 31 := rfl
  rw [daysBeforeMonth_succ year (by decide), late, march, december]
  omega

theorem newYear_le {year later : Int} (le : year ≤ later) : newYear year ≤ newYear later := by
  induction later, le using Int.leInduction with
  | base => exact Int.le_refl _
  | succ later _ ih =>
      rw [newYear_succ]
      omega

section Order

variable {d e : Date}

theorem Valid.before_next (valid : d.Valid) :
    daysBeforeMonth d.year d.month + d.day ≤ daysBeforeMonth d.year (d.month + 1) := by
  rw [daysBeforeMonth_succ d.year valid.month.1]
  exact Nat.add_le_add_left valid.day.2 _

/-- A date lies in its year. -/
theorem Valid.number_year (valid : d.Valid) :
    newYear d.year ≤ d.number ∧ d.number < newYear (d.year + 1) := by
  have first := valid.day.1
  have next := valid.before_next
  have last := daysBeforeMonth_mono d.year (Nat.add_le_add_right valid.month.2 1)
  rw [daysBeforeMonth_year] at last
  rw [number, newYear_succ]
  omega

theorem number_lt_of_before (valid : d.Valid) (valid' : e.Valid) (before : d.Before e) :
    d.number < e.number := by
  rcases before with year | ⟨year, month | ⟨month, day⟩⟩
  · calc d.number < newYear (d.year + 1) := valid.number_year.2
      _ ≤ newYear e.year := newYear_le year
      _ ≤ e.number := valid'.number_year.1
  · have next := valid.before_next
    have later := daysBeforeMonth_mono d.year (show d.month + 1 ≤ e.month from month)
    have first := valid'.day.1
    rw [number, number, ← year]
    omega
  · rw [number, number, ← year, ← month]
    omega

/-- The calendar is in the order of the days. -/
theorem number_lt_iff (valid : d.Valid) (valid' : e.Valid) : d.number < e.number ↔ d.Before e := by
  refine ⟨fun less => ?_, number_lt_of_before valid valid'⟩
  by_contra notBefore
  -- A date that is not before another one is after it, or the same.
  have other : e.Before d ∨ e.year = d.year ∧ e.month = d.month ∧ e.day = d.day := by
    unfold Before at notBefore ⊢
    omega
  rcases other with after | ⟨year, month, day⟩
  · exact Int.lt_asymm less (number_lt_of_before valid' valid after)
  · rw [number, number, year, month, day] at less
    exact Int.lt_irrefl _ less

theorem before_ofDay {n k : Int} : (ofDay n).Before (ofDay k) ↔ n < k := by
  rw [← number_lt_iff (valid_ofDay n) (valid_ofDay k), number_ofDay, number_ofDay]

end Order

end Date

namespace Moment

variable {m m' : Moment} {rest rest' : Text}

theorem two_lt_iff {n n' : Nat} (small : n < 100) (small' : n' < 100) :
    two n ++ rest < two n' ++ rest' ↔ n < n' ∨ n = n' ∧ rest < rest' :=
  Numeral.padded_lt_iff (by decide) small small'

theorem dashDate_lt_iff (years : 1000 ≤ m.date.year ∧ m.date.year < 10000)
    (years' : 1000 ≤ m'.date.year ∧ m'.date.year < 10000) :
    m.dashDate ++ rest < m'.dashDate ++ rest' ↔ m.day < m'.day ∨ m.day = m'.day ∧ rest < rest' := by
  have order : m.date.Before m'.date ↔ m.day < m'.day := Date.before_ofDay
  have inverse : m'.date.Before m.date ↔ m'.day < m.day := Date.before_ofDay
  obtain ⟨month, day⟩ := (show m.date.Valid from Date.valid_ofDay m.day).two_digits
  obtain ⟨month', day'⟩ := (show m'.date.Valid from Date.valid_ofDay m'.day).two_digits
  have year : m.date.year.toNat < 10 ^ 4 := by omega
  have year' : m'.date.year.toNat < 10 ^ 4 := by omega
  simp only [TimeReading.dashDate_padded years.1, TimeReading.dashDate_padded years'.1,
    List.append_assoc]
  rw [Numeral.padded_lt_iff (by decide) year year', append_lt_append_left_iff,
    two_lt_iff month month', append_lt_append_left_iff, two_lt_iff day day']
  unfold Date.Before at order inverse
  by_cases less : rest < rest' <;> simp only [less, and_true, and_false, or_false] <;> omega

theorem clock_lt_iff (inDay : m.second < 86400) (inDay' : m'.second < 86400) :
    m.clock ++ rest < m'.clock ++ rest' ↔
      m.second < m'.second ∨ m.second = m'.second ∧ rest < rest' := by
  obtain ⟨hours, minutes, seconds, sum⟩ := TimeReading.clock_figures inDay
  obtain ⟨hours', minutes', seconds', sum'⟩ := TimeReading.clock_figures inDay'
  simp only [clock, hourMinute, List.append_assoc]
  rw [two_lt_iff (by omega) (by omega), append_lt_append_left_iff, two_lt_iff (by omega) (by omega),
    append_lt_append_left_iff, two_lt_iff (by omega) (by omega)]
  by_cases less : rest < rest' <;> simp only [less, and_true, and_false, or_false] <;> omega

end Moment

namespace Instant

variable (t t' : Instant) (gap : Text) {rest rest' : Text}

/-- Dates and clock times are in the order of the seconds that they show. -/
theorem shown_lt_iff :
    t.shown.dashDate ++ (gap ++ (t.shown.clock ++ rest)) <
        t'.shown.dashDate ++ (gap ++ (t'.shown.clock ++ rest')) ↔
      t.seconds < t'.seconds ∨ t.seconds = t'.seconds ∧ rest < rest' := by
  have second := t.shown_second
  have second' := t'.shown_second
  rw [Moment.dashDate_lt_iff t.shown_year t'.shown_year, append_lt_append_left_iff,
    Moment.clock_lt_iff second second', ← t.shown_wallSeconds, ← t'.shown_wallSeconds]
  simp only [Moment.wallSeconds]
  by_cases less : rest < rest' <;> simp only [less, and_true, and_false, or_false] <;> omega

end Instant

namespace Stamp

/-- Milliseconds from the epoch, in universal time. -/
def read? (t : Text) : Option Int := do
  let (date, t) ← TimeReading.date? t
  let (second, t) ← TimeReading.clock? (← after? (ascii "T") t)
  let (milliseconds, t) ← TimeReading.figures? 3 (← after? [point] t)
  if t = ascii "Z" then some ((86400 * date.number + second) * 1000 + milliseconds) else none

variable (t t' : Instant)

theorem text_shown : text t = t.shown.dashDate ++ (ascii "T" ++ (t.shown.clock ++
    ([point] ++ (Numeral.padded 3 t.milliseconds ++ ascii "Z")))) := by
  simp only [text, Instant.shown, List.append_assoc, List.cons_append, List.nil_append]

theorem milliseconds_lt : t.milliseconds < 10 ^ 3 := by
  have fraction := t.fraction_lt
  rw [Instant.milliseconds]
  omega

theorem milliseconds_floor :
    t.nanoseconds.toInt / 1000000 = t.seconds * 1000 + t.milliseconds := by
  have split := t.nanoseconds_eq
  rw [Instant.milliseconds]
  omega

theorem length_text : (text t).length = 24 := by
  obtain ⟨least, most⟩ := t.shown_year
  have places := Numeral.length_padded (show 0 < 3 by decide) (milliseconds_lt t)
  simp only [text_shown, List.length_append, TimeReading.length_dashDate least most,
    TimeReading.length_clock t.shown_second, places]
  rfl

theorem read_text : read? (text t) = some (t.nanoseconds.toInt / 1000000) := by
  obtain ⟨least, most⟩ := t.shown_year
  have number : t.shown.date.number = t.shown.day := Date.number_ofDay t.shown.day
  have seconds := t.shown_wallSeconds
  simp only [Moment.wallSeconds] at seconds
  simp only [text_shown, read?, TimeReading.date_dashDate _ least most,
    TimeReading.after_written, TimeReading.clock_read _ t.shown_second,
    TimeReading.figures_padded (show 0 < 3 by decide) (milliseconds_lt t), number, bind,
    Option.bind, if_true]
  rw [milliseconds_floor, ← seconds, Int.mul_comm 86400]

theorem text_lt_iff :
    text t < text t' ↔ t.nanoseconds.toInt / 1000000 < t'.nanoseconds.toInt / 1000000 := by
  have small := milliseconds_lt t
  have small' := milliseconds_lt t'
  rw [text_shown, text_shown, t.shown_lt_iff, append_lt_append_left_iff,
    Numeral.padded_lt_iff (by decide) small small', milliseconds_floor, milliseconds_floor]
  have same : ¬ ascii "Z" < ascii "Z" := List.lt_irrefl _
  simp only [same, and_false, or_false]
  omega

example : text ⟨-1⟩ = ascii "1969-12-31T23:59:59.999Z" := by cbv

end Stamp

end BoundSql

import BoundSql.Proofs.TimeReading
import BoundSql.Proofs.TrailingZeros
import Mathlib.Order.Bounds.Defs

/-!
Time texts denote instants. An instant is a second, taken downward, and a fraction that is never
negative, so that cutting digits off the fraction rounds the instant down, before the epoch as
after it. Zeros that are trimmed from the fraction change nothing in what the text is read as.
-/

namespace BoundSql

open Text
open Template (IsNumber)

-- Powers are the built-in ones, whatever else is imported.
attribute [local instance (high)] instPowNat

namespace Instant

variable (t : Instant)

theorem fraction_lt : t.fraction < 1000000000 := by
  rw [fraction, secondStart, seconds]
  omega

theorem nanoseconds_eq : t.nanoseconds.toInt = t.seconds * 1000000000 + t.fraction := by
  rw [fraction, secondStart, seconds]
  omega

/-- What the clock of universal time shows at an instant. -/
def shown : Moment := Moment.ofSeconds Zone.universal t.seconds

theorem shown_second : t.shown.second < 86400 := by
  simp only [shown, Moment.ofSeconds]
  omega

theorem shown_wallSeconds : t.shown.wallSeconds = t.seconds := by
  simp only [Moment.wallSeconds, shown, Moment.ofSeconds, Zone.universal]
  omega

/-- All instants lie in years of four digits. -/
theorem shown_year : 1000 ≤ t.shown.date.year ∧ t.shown.date.year < 10000 := by
  have least := t.nanoseconds.le_toInt
  have most := t.nanoseconds.toInt_lt
  have split := t.nanoseconds_eq
  have fraction := t.fraction_lt
  have second := t.shown_second
  have wall := t.shown_wallSeconds
  obtain ⟨begun, unfinished⟩ := Date.newYear_ofDay t.shown.day
  simp only [Moment.wallSeconds] at wall
  simp only [Moment.date, Date.newYear, Date.leapDaysBefore] at begun unfinished ⊢
  omega

theorem seconds_places (seconds : Int) (n : Nat) {count : Nat} (few : count ≤ 9) :
    (seconds + n / 10 ^ count : ℚ) =
      ((seconds * 10 ^ 9 + (n * 10 ^ (9 - count) : Nat) : Int) : ℚ) / 10 ^ 9 := by
  have nine : (10 : ℚ) ^ 9 = 10 ^ count * 10 ^ (9 - count) := by
    rw [← pow_add, Nat.add_sub_cancel' few]
  rw [Int.cast_add, Int.cast_mul, Int.cast_pow, Int.cast_ofNat, Int.cast_natCast, Nat.cast_mul,
    Nat.cast_pow, Nat.cast_ofNat, nine]
  field_simp

/-- The first digits of the fraction, of which there are nine. -/
def firstDigits (count : Nat) : Text := (Numeral.padded 9 t.fraction).take count

variable {count : Nat}

theorem length_firstDigits (few : count ≤ 9) : (t.firstDigits count).length = count := by
  have length := Numeral.length_padded (show 0 < 9 by decide) t.fraction_lt
  rw [firstDigits, List.length_take, length, Nat.min_eq_left few]

theorem digits_firstDigits (count : Nat) : ∀ c ∈ t.firstDigits count, isDigit c = true :=
  fun c member => (Numeral.number_padded 9 t.fraction).digits c (List.mem_of_mem_take member)

theorem value_firstDigits (count : Nat) :
    Numeral.value (t.firstDigits count) = t.fraction / 10 ^ (9 - count) := by
  have number := Numeral.number_padded 9 t.fraction
  have length := Numeral.length_padded (show 0 < 9 by decide) t.fraction_lt
  have whole := Numeral.value_append ((Numeral.padded 9 t.fraction).take count)
    ((Numeral.padded 9 t.fraction).drop count)
  rw [List.take_append_drop, List.length_drop, length, Numeral.value_padded] at whole
  have rest := Numeral.value_lt (t := (Numeral.padded 9 t.fraction).drop count)
    fun c member => number.digits c (List.mem_of_mem_drop member)
  rw [List.length_drop, length] at rest
  rw [firstDigits]
  refine (Nat.div_eq_of_lt_le ?_ ?_).symm
  · exact (Nat.le_add_right _ _).trans whole.ge
  · rw [Nat.succ_mul]
    exact whole.trans_lt (Nat.add_lt_add_left rest _)

/-- Cutting digits off the fraction rounds the instant down. -/
theorem floor_digits (count : Nat) : IsGreatest
    {k : Int | 10 ^ (9 - count) ∣ k ∧ k ≤ t.nanoseconds.toInt}
    (t.seconds * 10 ^ 9 + (t.fraction / 10 ^ (9 - count) * 10 ^ (9 - count) : Nat)) := by
  have positive : 0 < 10 ^ (9 - count) := Nat.pow_pos (by decide)
  have split := t.nanoseconds_eq
  have floor := Nat.div_add_mod' t.fraction (10 ^ (9 - count))
  have rest := Nat.mod_lt t.fraction positive
  have second : ((10 ^ (9 - count) : Nat) : Int) ∣ t.seconds * 10 ^ 9 := by
    refine Dvd.dvd.mul_left ?_ _
    exact_mod_cast Nat.pow_dvd_pow 10 (Nat.sub_le 9 count)
  have unit : (10 : Int) ^ (9 - count) = (10 ^ (9 - count) : Nat) := by push_cast; rfl
  rw [unit]
  generalize 10 ^ (9 - count) = u at *
  have down : (u : Int) ∣ (t.fraction / u * u : Nat) := by
    exact_mod_cast Nat.dvd_mul_left u (t.fraction / u)
  constructor
  · refine ⟨Int.dvd_add second down, ?_⟩
    omega
  · rintro k ⟨divides, below⟩
    -- Multiples of the unit that are less than a unit apart are the same.
    by_contra above
    have apart := Int.le_of_dvd (by omega) (Int.dvd_sub divides (Int.dvd_add second down))
    omega

/-- The date and the clock time that a text begins with. -/
def wall : Text := t.shown.dashDate ++ blank :: t.shown.clock

theorem plain_wall : point ∉ t.wall := by
  obtain ⟨least, -⟩ := t.shown_year
  have colon : ascii ":" = [58] := rfl
  have figures (count n : Nat) : point ∉ Numeral.padded count n :=
    (Numeral.number_padded count n).not_mem (by decide)
  simp only [wall, TimeReading.dashDate_padded least, Moment.clock, Moment.hourMinute, Moment.two,
    colon, List.mem_append, List.mem_cons, List.not_mem_nil, figures]
  decide

end Instant

namespace Formatter

variable {f : Formatter} (t : Instant)

theorem fractionDigits_value (f : Formatter) (t : Instant) :
    (Numeral.value (f.fractionDigitsOf t) / 10 ^ (f.fractionDigitsOf t).length : ℚ) =
      (t.fraction / 10 ^ (9 - min f.fractionDigits 9) : Nat) / 10 ^ min f.fractionDigits 9 := by
  have few := Nat.min_le_right f.fractionDigits 9
  have cut : (Numeral.value (t.firstDigits (min f.fractionDigits 9)) /
      10 ^ (t.firstDigits (min f.fractionDigits 9)).length : ℚ) =
        (t.fraction / 10 ^ (9 - min f.fractionDigits 9) : Nat) / 10 ^ min f.fractionDigits 9 := by
    rw [t.value_firstDigits, t.length_firstDigits few]
  rw [← cut, fractionDigitsOf]
  split
  · exact (Numeral.value_trimZeros _).symm
  · rfl

theorem fractionDigits_digits (f : Formatter) (t : Instant) :
    ∀ c ∈ f.fractionDigitsOf t, isDigit c = true := by
  intro c member
  apply t.digits_firstDigits (min f.fractionDigits 9)
  simp only [fractionDigitsOf] at member
  split at member
  · exact mem_trimZeros member
  · exact member

theorem places_fractionText (f : Formatter) (t : Instant) :
    TimeReading.places? (f.fractionText t) = some
      (((t.fraction / 10 ^ (9 - min f.fractionDigits 9) : Nat) : ℚ) /
        10 ^ min f.fractionDigits 9) := by
  have value := fractionDigits_value f t
  have digits := fractionDigits_digits f t
  rw [← value, fractionText]
  split
  · next none =>
      rw [none, TimeReading.places_nil]
      simp [Numeral.value]
  · next some => exact TimeReading.places_written ⟨some, digits⟩

theorem fractionText_pointed (f : Formatter) (t : Instant) :
    f.fractionText t = pointed (f.fractionDigitsOf t) := by
  rw [fractionText, pointed]
  split
  · next none => rw [if_pos none]
  · next some => rw [if_neg some]

section Usual

variable (usual : f.timePattern = TimePattern.usual) (universal : f.clock = .universal)
  (home : Zone)

include usual universal

theorem timeText_written :
    f.timeText home t = t.wall ++ pointed (f.fractionDigitsOf t) := by
  obtain ⟨least, most⟩ := t.shown_year
  have short : ¬ TimePattern.limit < t.wall.length := by
    rw [Instant.wall, List.length_append, List.length_cons,
      TimeReading.length_dashDate least most, TimeReading.length_clock t.shown_second]
    decide
  have zone : f.zone home = Zone.universal := by
    rw [Formatter.zone, universal]
  have written := TimePattern.expand_usual home t.shown
  rw [← Instant.wall, if_neg short] at written
  rw [timeText, zone, usual, ← fractionText_pointed]
  exact congrArg (· ++ f.fractionText t) written

/-- The text is read as the instant in whole units of its last digit, taken downward. -/
theorem read_timeText : TimeReading.read? (f.timeText home t) = some
    (((t.seconds * 10 ^ 9 + (t.fraction / 10 ^ (9 - min f.fractionDigits 9) *
      10 ^ (9 - min f.fractionDigits 9) : Nat) : Int) : ℚ) / 10 ^ 9) := by
  obtain ⟨least, most⟩ := t.shown_year
  have read := TimeReading.read_written least most t.shown_second (places_fractionText f t)
  rw [timeText_written t usual universal, ← fractionText_pointed, Instant.wall, read,
    t.shown_wallSeconds, Instant.seconds_places _ _ (Nat.min_le_right _ _)]

end Usual

end Formatter

end BoundSql

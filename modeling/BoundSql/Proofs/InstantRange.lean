import BoundSql.Proofs.Chronology

/-!
The values that an instant's text is made of, in words of 64 bits. The second, the nanoseconds since
it began and the milliseconds always fit. The begin of the second fits as well, in nanoseconds, but
for the instants of the earliest second of all, which begins before the earliest instant.
-/

namespace BoundSql

open Text

-- Powers are the built-in ones, whatever else is imported.
attribute [local instance (high)] instPowNat

/-- What a signed word of 64 bits holds. -/
def FitsWord (n : Int) : Prop := -2 ^ 63 ≤ n ∧ n < 2 ^ 63

namespace Instant

variable (t : Instant)

/-- The nanoseconds since the second began. -/
def sinceSecond : Int := t.nanoseconds.toInt - t.secondStart

theorem sinceSecond_eq : t.sinceSecond = t.fraction := by
  have split := t.nanoseconds_eq
  rw [sinceSecond, secondStart]
  omega

/-- The values that are formed of every instant without loss. A fraction is filled to nine digits,
and milliseconds to three. -/
structure Formed : Prop where
  second : FitsWord t.seconds
  rest : FitsWord t.sinceSecond
  least : 0 ≤ t.sinceSecond
  most : t.sinceSecond ≤ 999999999
  digits : (Numeral.ofInt t.sinceSecond).length ≤ 9
  milliseconds : FitsWord t.milliseconds
  milliDigits : (Numeral.ofNat t.milliseconds).length ≤ 3

/-- With them, the begin of the second. -/
structure Representable : Prop extends Formed t where
  start : FitsWord t.secondStart

theorem formed : t.Formed := by
  have least := t.nanoseconds.le_toInt
  have most := t.nanoseconds.toInt_lt
  have split := t.nanoseconds_eq
  have rest := t.sinceSecond_eq
  have fraction := t.fraction_lt
  have milliseconds := Stamp.milliseconds_lt t
  have written : Numeral.ofInt t.sinceSecond = Numeral.ofNat t.fraction := by
    rw [rest, Numeral.ofInt, if_neg (Int.not_lt.mpr (Int.natCast_nonneg _)), Int.natAbs_natCast]
  constructor
  · constructor <;> omega
  · constructor <;> omega
  · omega
  · omega
  · rw [written]
    exact Numeral.length_ofNat_le (by decide) fraction
  · constructor <;> omega
  · exact Numeral.length_ofNat_le (by decide) milliseconds

theorem fitsWord_secondStart : FitsWord t.secondStart ↔
    -9223372036000000000 ≤ t.nanoseconds.toInt := by
  have most := t.nanoseconds.toInt_lt
  have split := t.nanoseconds_eq
  have fraction := t.fraction_lt
  rw [FitsWord, secondStart]
  omega

/-- Every instant from -9223372036 seconds on is shown without an overflow; only the begin of the
second can be out of range. -/
theorem formed_representable_iff :
    t.Formed ∧ (t.Representable ↔ -9223372036000000000 ≤ t.nanoseconds.toInt) := by
  refine ⟨t.formed, fun all => t.fitsWord_secondStart.mp all.start, fun later => ?_⟩
  exact ⟨t.formed, t.fitsWord_secondStart.mpr later⟩

/-- The earliest instant is in a second that begins before it. -/
theorem earliest_not_representable : ¬ ∀ t : Instant, t.Representable := by
  intro all
  have start := (all ⟨-9223372036854775808⟩).start.1
  revert start
  decide

end Instant

end BoundSql

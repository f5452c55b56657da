import BoundSql.Number.Shortest
import BoundSql.Proofs.Patterns

/-!
The interval around a binary number holds just what rounds to the number. In last places it reaches
half a place up and half a place down, or a quarter down from a power of two, below which the
places are half as large. An end belongs to it when the number is even, as ties go to even numbers.
-/

namespace BoundSql.Shortest.Interval

open Binary
open Rounding (Rounded)

-- Powers are the built-in ones, whatever else is imported.
attribute [local instance (high)] instPowNat

variable {f : Format} {m : Magnitude} {n : Nat}

/-- A last place of a number, in the scale of its interval. -/
def place (f : Format) (m : Magnitude) : ℚ := 4 * 5 ^ places f * 2 ^ m.shift

/-- Below it the last places are half as large. -/
def IsNarrow (f : Format) (m : Magnitude) : Prop := m.significand = f.implicitBit ∧ 0 < m.shift

instance (f : Format) (m : Magnitude) : Decidable (IsNarrow f m) :=
  inferInstanceAs (Decidable (_ ∧ _))

/-- How many last places of a number are between it and the lower end. -/
def reach (f : Format) (m : Magnitude) : ℚ := if IsNarrow f m then 1 / 4 else 1 / 2

/-- What rounds to a number, in last places. -/
structure Within (f : Format) (m : Magnitude) (y : ℚ) : Prop where
  least : m.significand - reach f m ≤ y
  most : y ≤ m.significand + 1 / 2
  even : y = m.significand - reach f m ∨ y = m.significand + 1 / 2 → m.significand % 2 = 0

theorem place_pos (f : Format) (m : Magnitude) : 0 < place f m := by
  rw [place]
  positivity

theorem reach_pos (f : Format) (m : Magnitude) : 0 < reach f m := by
  rw [reach]
  split <;> norm_num

theorem reach_le (f : Format) (m : Magnitude) : reach f m ≤ 1 / 2 := by
  rw [reach]
  split <;> norm_num

section Ends

variable (f m)

theorem cast_centre : ((ofMagnitude f m).centre : ℚ) = m.significand * place f m := by
  simp only [ofMagnitude, place]
  push_cast
  ring

theorem cast_high : ((ofMagnitude f m).high : ℚ) = (m.significand + 1 / 2) * place f m := by
  simp only [ofMagnitude, place]
  push_cast
  ring

variable {f m}

theorem cast_low (some : m.significand ≠ 0) :
    ((ofMagnitude f m).low : ℚ) = (m.significand - reach f m) * place f m := by
  have room (gap : Nat) (small : gap ≤ 2) :
      gap * 2 ^ m.shift ≤ 4 * m.significand * 2 ^ m.shift :=
    Nat.mul_le_mul_right _ (by omega)
  have one := room 1 (by decide)
  rw [Nat.one_mul] at one
  by_cases narrow : IsNarrow f m
  · have down : (m.significand == f.implicitBit && decide (0 < m.shift)) = true := by
      simpa [IsNarrow] using narrow
    simp only [ofMagnitude, place, reach, if_pos narrow, down, if_true]
    push_cast [Nat.cast_sub one]
    ring
  · have down : (m.significand == f.implicitBit && decide (0 < m.shift)) = false := by
      simpa [IsNarrow] using narrow
    simp only [ofMagnitude, place, reach, if_neg narrow, down, Bool.false_eq_true, if_false]
    push_cast [Nat.cast_sub (room 2 (by decide))]
    ring

theorem closed_iff : (ofMagnitude f m).closed = true ↔ m.significand % 2 = 0 := by
  simp [ofMagnitude]

end Ends

theorem holds_iff_within (some : m.significand ≠ 0) :
    (ofMagnitude f m).holds n = true ↔ Within f m (n / place f m) := by
  have scale := place_pos f m
  have least : (ofMagnitude f m).low ≤ n ↔ m.significand - reach f m ≤ n / place f m := by
    rw [le_div_iff₀ scale, ← cast_low some, Nat.cast_le]
  have most : n ≤ (ofMagnitude f m).high ↔ n / place f m ≤ m.significand + 1 / 2 := by
    rw [div_le_iff₀ scale, ← cast_high, Nat.cast_le]
  have first : (ofMagnitude f m).low = n ↔ n / place f m = m.significand - reach f m := by
    rw [div_eq_iff scale.ne', ← cast_low some, Nat.cast_inj, eq_comm]
  have last : n = (ofMagnitude f m).high ↔ n / place f m = m.significand + 1 / 2 := by
    rw [div_eq_iff scale.ne', ← cast_high, Nat.cast_inj]
  rw [holds]
  split
  · next closed =>
      have even := closed_iff.mp closed
      rw [Bool.and_eq_true, decide_eq_true_eq, decide_eq_true_eq, least, most]
      exact ⟨fun inside => ⟨inside.1, inside.2, fun _ => even⟩, fun inside =>
        ⟨inside.least, inside.most⟩⟩
  · next ajar =>
      have odd : m.significand % 2 ≠ 0 := mt closed_iff.mpr ajar
      rw [Bool.and_eq_true, decide_eq_true_eq, decide_eq_true_eq, Nat.lt_iff_le_and_ne,
        Nat.lt_iff_le_and_ne, ne_eq, ne_eq, least, most, first, last]
      constructor
      · rintro ⟨⟨low, apart⟩, high, apart'⟩
        exact ⟨low, high, fun tie => absurd tie (not_or.mpr ⟨apart, apart'⟩)⟩
      · intro inside
        have apart := not_or.mp (mt inside.even odd)
        exact ⟨⟨inside.least, apart.1⟩, inside.most, apart.2⟩

section Nearby

variable {x : ℚ} {k : Magnitude}

/-- From just below a power of two, rounding finds a significand that outgrows its bits. -/
theorem nearby_below (narrow : IsNarrow f m) (within : Within f m (x / 2 ^ m.shift))
    (below : x / 2 ^ m.shift < m.significand) :
    ∃ k, Nearby f x k ∧ k.carried f = m := by
  obtain ⟨full, some⟩ := narrow
  obtain ⟨shift, shifted⟩ : ∃ shift, m.shift = shift + 1 := ⟨m.shift - 1, by omega⟩
  obtain ⟨significand, _⟩ := m
  simp only at full shifted
  subst full shifted
  have one : (1 : ℚ) ≤ f.implicitBit := by exact_mod_cast f.implicitBit_pos
  have half : x / 2 ^ shift = 2 * (x / 2 ^ (shift + 1)) := by
    rw [pow_succ]
    field_simp
  have least := within.least
  rw [reach, if_pos ⟨rfl, Nat.succ_pos shift⟩] at least
  simp only at least below
  refine ⟨⟨2 * f.implicitBit, shift⟩, ⟨?_, ?_, ?_⟩, ?_⟩
  · simp only [half]
    apply Rounded.between
    · push_cast
      linarith
    · push_cast
      linarith
    · exact fun _ => Nat.mul_mod_right 2 _
  · simp only [half]
    linarith
  · right
    simp only [half]
    linarith
  · rw [Magnitude.carried, if_pos rfl]

theorem nearby_of_within (canonical : m.Canonical f) (within : Within f m (x / 2 ^ m.shift)) :
    ∃ k, Nearby f x k ∧ k.carried f = m := by
  by_cases below : IsNarrow f m ∧ x / 2 ^ m.shift < m.significand
  · exact nearby_below below.1 within below.2
  · -- The lower end is half a place away, or the number itself is below `x`.
    have least : m.significand - 1 / 2 ≤ x / 2 ^ m.shift ∧
        (x / 2 ^ m.shift = m.significand - 1 / 2 → m.significand % 2 = 0) ∧
        (0 < m.shift → f.implicitBit ≤ x / 2 ^ m.shift) := by
      by_cases narrow : IsNarrow f m
      · have above : (m.significand : ℚ) ≤ x / 2 ^ m.shift :=
          not_lt.mp fun less => below ⟨narrow, less⟩
        refine ⟨by linarith, fun tie => by linarith, fun _ => ?_⟩
        rwa [← narrow.1]
      · have low := within.least
        have even := within.even
        rw [reach, if_neg narrow] at low even
        refine ⟨low, fun tie => even (.inl tie), fun some => ?_⟩
        have more : f.implicitBit < m.significand :=
          Nat.lt_of_le_of_ne (canonical.normal.resolve_left some.ne') fun same =>
            narrow ⟨same.symm, some⟩
        have step : (f.implicitBit : ℚ) + 1 ≤ m.significand := by exact_mod_cast more
        linarith
    have fits : (m.significand : ℚ) + 1 ≤ 2 * f.implicitBit := by exact_mod_cast canonical.small
    have most := within.most
    refine ⟨m, ⟨?_, by linarith, ?_⟩, ?_⟩
    · refine .between least.1 most fun tie => ?_
      exact tie.elim least.2.1 fun high => within.even (.inr high)
    · exact (Nat.eq_zero_or_pos m.shift).imp id least.2.2
    · rw [Magnitude.carried, if_neg canonical.small.ne]

/-- What rounding finds has the number inside its interval. -/
theorem within_of_nearby (fractions : 0 < f.fractionBits) (nearby : Nearby f x k) :
    Within f (k.carried f) (x / 2 ^ (k.carried f).shift) := by
  have even : f.implicitBit % 2 = 0 := Nat.mod_eq_zero_of_dvd (f.even_implicitBit fractions)
  have near := abs_le.mp nearby.rounded.near
  by_cases outgrown : k.significand = 2 * f.implicitBit
  · have double : x / 2 ^ k.shift = 2 * (x / 2 ^ (k.shift + 1)) := by
      rw [pow_succ]
      field_simp
    have narrow : IsNarrow f ⟨f.implicitBit, k.shift + 1⟩ := ⟨rfl, Nat.succ_pos _⟩
    have small := nearby.small
    rw [double, outgrown] at near
    rw [double] at small
    push_cast at near
    rw [Magnitude.carried, if_pos outgrown]
    refine ⟨?_, ?_, fun _ => even⟩
    · rw [reach, if_pos narrow]
      simp only
      linarith
    · simp only
      linarith
  · rw [Magnitude.carried, if_neg outgrown]
    have tie (apart : |x / 2 ^ k.shift - k.significand| = 1 / 2) : k.significand % 2 = 0 :=
      nearby.rounded.even apart
    have high (same : x / 2 ^ k.shift = k.significand + 1 / 2) : k.significand % 2 = 0 :=
      tie (by rw [same]; norm_num)
    by_cases narrow : IsNarrow f k
    · have above := nearby.normal.resolve_left narrow.2.ne'
      rw [← narrow.1] at above
      refine ⟨?_, by linarith, fun _ => by rw [narrow.1, even]⟩
      have := reach_pos f k
      linarith
    · have half : reach f k = 1 / 2 := if_neg narrow
      refine ⟨by rw [half]; linarith, by linarith, ?_⟩
      rw [half]
      rintro (low | same)
      · exact tie (by rw [low]; norm_num)
      · exact high same

end Nearby

/-- The number of places by which an interval is scaled, in units. -/
theorem scaled_units (n : Nat) :
    (n / (10 ^ places f : Nat) * 2 ^ f.depth : ℚ) / 2 ^ m.shift = n / place f m := by
  have ten : ((10 ^ places f : Nat) : ℚ) = 5 ^ places f * (4 * 2 ^ f.depth) := by
    have parts : 10 ^ places f = 5 ^ places f * (4 * 2 ^ f.depth) := by
      have two : 2 ^ places f = 4 * 2 ^ f.depth := by rw [places, Nat.pow_add, Nat.mul_comm]
      rw [← two, ← Nat.mul_pow]
    rw [parts]
    push_cast
    rfl
  rw [ten, place]
  field_simp

end BoundSql.Shortest.Interval

import BoundSql.Proofs.NearestPatterns
import Mathlib.Data.Nat.Cast.Order.Field

/-!
The shortest decimal of a binary number. The search goes from coarse powers of ten to fine ones and
stops at the coarsest that has a multiple inside the interval, so that no other decimal inside
needs fewer digits; of the multiples of that power it takes the one nearest to the number. As it is
inside the interval, the decimal rounds to the number, and for a double it is read back as it.
-/

namespace BoundSql.Shortest

open Text Binary
open Rounding (halfEven_rounded)

-- Powers are the built-in ones, whatever else is imported.
attribute [local instance (high)] instPowNat

namespace Interval

variable {i : Interval} {grain count n : Nat}

/-- The number lies inside its interval, and zero does not. -/
structure Proper (i : Interval) : Prop where
  positive : 0 < i.low
  low : i.low < i.centre
  high : i.centre < i.high

/-- `n` multiples of the grain are farther from the centre than `count` are, or as far and odd. -/
def Beats (i : Interval) (grain count n : Nat) : Prop :=
  |(i.centre / grain : ℚ) - count| < |(i.centre / grain : ℚ) - n| ∨
    |(i.centre / grain : ℚ) - count| = |(i.centre / grain : ℚ) - n| ∧ count % 2 = 0 ∧ n % 2 = 1

theorem Beats.asymm {other : Nat} (beats : Beats i grain count other) :
    ¬ Beats i grain other count := by
  rintro (nearer | ⟨tie, even, -⟩)
  · rcases beats with nearer' | ⟨tie, -⟩
    · exact nearer.asymm nearer'
    · exact nearer.ne' tie
  · rcases beats with nearer | ⟨-, -, odd⟩
    · exact nearer.ne' tie
    · exact absurd (even.symm.trans odd) (by decide)

theorem holds_centre (proper : i.Proper) : i.holds i.centre = true := by
  have low := proper.low
  have high := proper.high
  rw [holds]
  split <;> simp <;> omega

theorem holds_between {a b c : Nat} (first : i.holds a = true) (last : i.holds c = true)
    (above : a ≤ b) (below : b ≤ c) : i.holds b = true := by
  rw [holds] at *
  split at first <;> simp_all <;> omega

theorem bounds_of_holds (inside : i.holds n = true) : i.low ≤ n ∧ n ≤ i.high := by
  rw [holds] at inside
  split at inside <;> simp at inside <;> omega

theorem pos_of_holds (proper : i.Proper) (inside : i.holds n = true) : 0 < n :=
  proper.positive.trans_le (bounds_of_holds inside).1

theorem halfEven_neighbour (num den : Nat) : Rounding.halfEven num den = num / den ∨
    Rounding.halfEven num den = num / den + 1 := by
  have parity := Nat.mod_two_eq_zero_or_one (num / den)
  rw [Rounding.halfEven]
  split
  · exact .inl rfl
  split
  · exact .inr rfl
  · exact parity.imp (fun even => by rw [even]; rfl) fun odd => by rw [odd]

section Multiples

variable (positive : 0 < grain) (proper : i.Proper)

include positive

theorem centre_lt : i.centre < (i.centre / grain + 1) * grain :=
  (Nat.div_lt_iff_lt_mul positive).mp (Nat.lt_succ_self _)

include proper

/-- The two multiples next to the centre stand for all that are inside. -/
theorem holds_neighbour (inside : i.holds (n * grain) = true) :
    n ≤ i.centre / grain ∧ i.holds (i.centre / grain * grain) = true ∨
      i.centre / grain + 1 ≤ n ∧ i.holds ((i.centre / grain + 1) * grain) = true := by
  have centre := holds_centre proper
  have below : i.centre / grain * grain ≤ i.centre := Nat.div_mul_le_self _ _
  have above := @centre_lt i grain positive
  rcases Nat.lt_or_ge (i.centre / grain) n with more | less
  · right
    exact ⟨more, holds_between centre inside above.le (Nat.mul_le_mul_right _ more)⟩
  · left
    exact ⟨less, holds_between inside centre (Nat.mul_le_mul_right _ less) below⟩

theorem multiple_eq_none (none : i.multiple? grain = none) (n : Nat) :
    i.holds (n * grain) ≠ true := by
  intro inside
  unfold multiple? at none
  rcases holds_neighbour positive proper inside with ⟨-, held⟩ | ⟨-, held⟩ <;>
    simp only [held] at none <;> split at none <;> simp_all

theorem multiple_eq_some (found : i.multiple? grain = some count) :
    i.holds (count * grain) = true ∧
      ∀ n, i.holds (n * grain) = true → n ≠ count → Beats i grain count n := by
  have scale : (0 : ℚ) < grain := by exact_mod_cast positive
  have below : (i.centre / grain : Nat) ≤ (i.centre / grain : ℚ) := Nat.cast_div_le
  have above : (i.centre / grain : ℚ) < (i.centre / grain : Nat) + 1 := by
    rw [div_lt_iff₀ scale]
    exact_mod_cast centre_lt positive
  have apart (n : Nat) := @holds_neighbour i grain n positive proper
  unfold multiple? at found
  simp only at found
  split at found
  · next down up =>
      cases found
      have rounded := @halfEven_rounded i.centre grain positive
      refine ⟨?_, fun n _ other => rounded.best other⟩
      rcases halfEven_neighbour i.centre grain with same | same <;> rwa [same]
  · next down up =>
      cases found
      refine ⟨down, fun n inside other => .inl ?_⟩
      rcases apart n inside with ⟨less, -⟩ | ⟨-, held⟩
      · have less : (n : ℚ) < (i.centre / grain : Nat) := by
          exact_mod_cast Nat.lt_of_le_of_ne less other
        rw [abs_of_nonneg (by linarith), abs_of_nonneg (by linarith)]
        linarith
      · cases held.symm.trans up
  · next down up =>
      cases found
      refine ⟨up, fun n inside other => .inl ?_⟩
      rcases apart n inside with ⟨-, held⟩ | ⟨more, -⟩
      · cases held.symm.trans down
      · have more : ((i.centre / grain : Nat) : ℚ) + 1 < n := by
          exact_mod_cast Nat.lt_of_le_of_ne more (Ne.symm other)
        push_cast
        rw [abs_of_nonpos (by linarith), abs_of_nonpos (by linarith)]
        linarith
  · cases found

end Multiples

/-- `count` times a power of ten lies inside; no coarser power has a multiple inside, and no other
multiple of this one is nearer. -/
structure Coarsest (i : Interval) (count power : Nat) : Prop where
  inside : i.holds (count * 10 ^ power) = true
  coarsest : ∀ n other, i.holds (n * 10 ^ other) = true → other ≤ power
  nearest : ∀ n, i.holds (n * 10 ^ power) = true → n ≠ count → Beats i (10 ^ power) count n

theorem ten_pos (power : Nat) : 0 < 10 ^ power := Nat.pow_pos (by decide)

theorem Coarsest.unique {power count' power' : Nat} (one : Coarsest i count power)
    (other : Coarsest i count' power') : count' = count ∧ power' = power := by
  obtain rfl : power' = power :=
    Nat.le_antisymm (one.coarsest _ _ other.inside) (other.coarsest _ _ one.inside)
  refine ⟨?_, rfl⟩
  by_contra apart
  exact (one.nearest _ other.inside apart).asymm (other.nearest _ one.inside (Ne.symm apart))

/-- The search finds the coarsest power of ten up to where it starts. -/
theorem coarsest_upTo (proper : i.Proper) (top : Nat) :
    (i.holds ((i.coarsest top).1 * 10 ^ (i.coarsest top).2) = true) ∧
      (∀ n other, other ≤ top → i.holds (n * 10 ^ other) = true →
        other ≤ (i.coarsest top).2) ∧
      ∀ n, i.holds (n * 10 ^ (i.coarsest top).2) = true → n ≠ (i.coarsest top).1 →
        Beats i (10 ^ (i.coarsest top).2) (i.coarsest top).1 n := by
  induction top with
  | zero =>
      refine ⟨?_, fun n other small _ => small, fun n _ other => .inl ?_⟩
      · simpa [coarsest] using holds_centre proper
      · have apart : (i.centre : ℚ) - n ≠ 0 :=
          sub_ne_zero.mpr (by exact_mod_cast Ne.symm other)
        simpa [coarsest] using apart
  | succ top ih =>
      rw [coarsest]
      cases found : i.multiple? (10 ^ (top + 1)) with
      | some count =>
          obtain ⟨inside, best⟩ := multiple_eq_some (ten_pos _) proper found
          exact ⟨inside, fun n other small _ => small, best⟩
      | none =>
          obtain ⟨inside, coarser, best⟩ := ih
          refine ⟨inside, fun n other small held => ?_, best⟩
          rcases Nat.le_succ_iff.mp small with fine | same
          · exact coarser n other fine held
          · rw [same] at held
            exact absurd held (multiple_eq_none (ten_pos _) proper found n)

/-- A search that goes past its start would not have found more from farther up. -/
theorem coarsest_of_upTo (proper : i.Proper) {top power : Nat}
    (found : i.coarsest top = (count, power)) (below : power < top) : Coarsest i count power := by
  have upTo := coarsest_upTo proper top
  rw [found] at upTo
  obtain ⟨inside, coarser, best⟩ := upTo
  refine ⟨inside, fun n other held => ?_, best⟩
  rcases Nat.le_total other top with small | large
  · exact coarser n other small held
  · obtain ⟨more, rfl⟩ := Nat.exists_eq_add_of_le large
    rw [Nat.add_comm, Nat.pow_add, ← Nat.mul_assoc] at held
    exact absurd (coarser _ top (Nat.le_refl _) held) (not_le.mpr below)

theorem coarsest_whole (proper : i.Proper) :
    Coarsest i (i.coarsest (Numeral.ofNat i.high).length).1
      (i.coarsest (Numeral.ofNat i.high).length).2 := by
  obtain ⟨inside, -⟩ := coarsest_upTo proper (Numeral.ofNat i.high).length
  refine coarsest_of_upTo proper rfl ?_
  -- No multiple of a power above the interval is inside.
  have some := Nat.pos_of_mul_pos_right (pos_of_holds proper inside)
  have within := (bounds_of_holds inside).2
  have width := Numeral.value_lt (Numeral.number_ofNat i.high).digits
  rw [Numeral.value_ofNat] at width
  have power := (Nat.le_mul_of_pos_left _ some).trans within
  exact (Nat.pow_lt_pow_iff_right (by decide)).mp (power.trans_lt width)

theorem proper_ofMagnitude {f : Format} {m : Magnitude} (some : m.significand ≠ 0) :
    (ofMagnitude f m).Proper := by
  have scale := place_pos f m
  have down := reach_pos f m
  have down' := reach_le f m
  have one : (1 : ℚ) ≤ m.significand := by exact_mod_cast Nat.pos_of_ne_zero some
  have positive : (0 : ℚ) < (ofMagnitude f m).low := by
    rw [cast_low some]
    exact mul_pos (by linarith) scale
  have low : ((ofMagnitude f m).low : ℚ) < (ofMagnitude f m).centre := by
    rw [cast_low some, cast_centre]
    exact mul_lt_mul_of_pos_right (by linarith) scale
  have high : ((ofMagnitude f m).centre : ℚ) < (ofMagnitude f m).high := by
    rw [cast_high, cast_centre]
    exact mul_lt_mul_of_pos_right (by linarith) scale
  exact ⟨by exact_mod_cast positive, by exact_mod_cast low, by exact_mod_cast high⟩

end Interval

section Decimals

open BoundSql.Shortest.Interval

variable {f : Format} {m : Magnitude} {negative : Bool}

theorem decimal_zero (f : Format) (negative : Bool) (shift : Nat) :
    decimal f negative ⟨0, shift⟩ = ⟨negative, [Text.zero], 0⟩ := rfl

theorem decimal_coarsest (some : m.significand ≠ 0) : ∃ count power,
    Coarsest (ofMagnitude f m) count power ∧
      ∀ negative, decimal f negative m = ⟨negative, Numeral.ofNat count, power - places f⟩ := by
  refine ⟨_, _, coarsest_whole (proper_ofMagnitude some), fun negative => ?_⟩
  rw [decimal, if_neg some]

theorem decimal_of_coarsest {count power : Nat} (some : m.significand ≠ 0)
    (coarsest : Coarsest (ofMagnitude f m) count power) (negative : Bool) :
    decimal f negative m = ⟨negative, Numeral.ofNat count, power - places f⟩ := by
  obtain ⟨count', power', other, same⟩ := @decimal_coarsest f m some
  obtain ⟨rfl, rfl⟩ := coarsest.unique other
  exact same negative

theorem rational_scaled (negative : Bool) (f : Format) (count power : Nat) :
    (Decimal.mk negative (Numeral.ofNat count) (power - places f)).rational =
      withSign negative ((count * 10 ^ power : Nat) / (10 ^ places f : Nat)) := by
  have ten : (10 : ℚ) ≠ 0 := by norm_num
  rw [Decimal.rational_eq, Decimal.quotient_eq, Numeral.value_ofNat, zpow_sub₀ ten, zpow_natCast,
    zpow_natCast, ← mul_div_assoc]
  push_cast
  rfl

theorem decimal_negative (f : Format) (negative : Bool) (m : Magnitude) :
    (decimal f negative m).negative = negative := by
  unfold decimal
  split <;> rfl

theorem decimal_rational_zero (f : Format) (negative : Bool) (none : m.significand = 0) :
    (decimal f negative m).rational = 0 := by
  rw [decimal, if_pos none]
  exact Decimal.rational_eq_zero.mpr rfl

/-- The shortest decimal of a number is rounded to that number. -/
theorem isNearest_decimal {bits : Nat} (proper : f.Proper) (small : bits < 2 * f.signBit)
    (finite : decode f bits = .finite negative m) :
    (decimal f negative m).IsNearest f bits := by
  by_cases none : m.significand = 0
  · have zero := decimal_rational_zero f negative none
    refine ⟨?_, ⟨m, ?_⟩, ?_⟩
    · rw [zero, abs_zero]
      exact overflow_pos f
    · rwa [decimal_negative]
    · rw [zero]
      exact rounds_zero finite none
  · obtain ⟨count, power, coarsest, same⟩ := @decimal_coarsest f m none
    refine (Decimal.isNearest_iff_within proper small finite).mpr ⟨decimal_negative .., ?_⟩
    rw [same, rational_scaled, abs_withSign negative (by positivity), scaled_units]
    exact (holds_iff_within none).mp coarsest.inside

theorem text_finite {bits : Nat} (finite : decode f bits = .finite negative m) :
    text f bits = (decimal f negative m).positional := by
  rw [text, finite]
  rfl

end Decimals

section Doubles

open BoundSql.Shortest.Interval

variable {m : Magnitude} {negative : Bool} {bits : UInt64}

/-- A decimal is read as a double just if it has the sign of the double and is in its interval. -/
theorem isNearestDouble_iff_holds {d : Decimal} {n : Nat}
    (finite : decode double bits.toNat = .finite negative m) (some : m.significand ≠ 0)
    (size : |d.rational| = n / (10 ^ places double : Nat)) :
    d.IsNearestDouble bits ↔ d.negative = negative ∧ (ofMagnitude double m).holds n = true := by
  rw [holds_iff_within some, ← scaled_units, ← size,
    ← Decimal.isNearest_iff_within proper_double bits.toNat_lt finite]
  exact ⟨fun nearest => nearest.isNearest, fun nearest =>
    nearest.isNearestDouble finite (.inr some)⟩

/-- The shortest decimal of a double is read as that double. -/
theorem isNearestDouble_decimal (finite : decode double bits.toNat = .finite negative m) :
    (decimal double negative m).IsNearestDouble bits := by
  have nearest := isNearest_decimal proper_double bits.toNat_lt finite
  refine nearest.isNearestDouble finite ?_
  by_cases none : m.significand = 0
  · exact .inl (decimal_rational_zero double negative none)
  · exact .inr none

end Doubles

end BoundSql.Shortest

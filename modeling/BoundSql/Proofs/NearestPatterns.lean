import BoundSql.Proofs.Doubles
import BoundSql.Proofs.Intervals

/-!
The pattern that a decimal is rounded to, at any width: the finite one nearest to its exact value, a
tie going to the even one. A decimal is rounded to a number just if it has the sign of the number
and lies in its interval. A double is read in the same way, only that nothing but zero is read as
zero.
-/

namespace BoundSql

open Text Binary

-- Powers are the built-in ones, whatever else is imported.
attribute [local instance (high)] instPowNat

namespace Binary

variable {f : Format} {bits : Nat} {negative : Bool} {m : Magnitude}

/-- What rounding takes for granted: fractions, and fields for numbers that are not among the
least. -/
structure Format.Proper (f : Format) : Prop where
  fractions : 0 < f.fractionBits
  fields : 2 ≤ f.topField

theorem proper_double : double.Proper := ⟨by decide, by decide⟩

theorem proper_single : single.Proper := ⟨by decide, by decide⟩

/-- The greatest number and half of its last place, from where on numbers are infinite. -/
def overflow (f : Format) : ℚ := (2 * f.implicitBit - 1 / 2) * 2 ^ (f.topField - 2) / 2 ^ f.depth

theorem overflow_pos (f : Format) : 0 < overflow f := by
  have one : (1 : ℚ) ≤ f.implicitBit := by exact_mod_cast f.implicitBit_pos
  have units : (0 : ℚ) < 2 * f.implicitBit - 1 / 2 := by linarith
  rw [overflow]
  positivity

theorem lt_overflow_iff (proper : f.Proper) {x : ℚ} (nearby : Nearby f (x * 2 ^ f.depth) m) :
    x < overflow f ↔ isFinite f m = true := by
  have fields : f.topField = f.topField - 2 + 2 := (Nat.sub_add_cancel proper.fields).symm
  rw [nearby.isFinite_iff fields, overflow, lt_div_iff₀ (by positivity)]

/-- The highest bit is the sign. -/
theorem sign_of_finite (finite : decode f bits = .finite negative m)
    (small : bits < 2 * f.signBit) : decide (f.signBit ≤ bits) = negative := by
  have standing := standing_of_decode finite
  have below : f.infinity ≤ f.signBit := by
    rw [Format.infinity, f.signBit_eq]
    exact Nat.mul_le_mul_right _ (Nat.le_succ _)
  have inside := standing.inside
  rw [standing.whole small, signed]
  cases negative with
  | false => exact decide_eq_false (by simp; omega)
  | true => exact decide_eq_true (by simp)

end Binary

namespace Decimal

open Shortest.Interval

variable {f : Format} {d : Decimal} {bits : Nat} {negative : Bool} {m : Magnitude}

/-- A pattern that a decimal is rounded to. Zeros have the sign of the decimal. -/
structure IsNearest (f : Format) (d : Decimal) (bits : Nat) : Prop where
  finite : |d.rational| < overflow f
  sign : ∃ m, decode f bits = .finite d.negative m
  rounds : Rounds f d.rational bits

theorem IsNearest.unique {other : Nat} (one : IsNearest f d bits) (another : IsNearest f d other)
    (small : bits < 2 * f.signBit) (small' : other < 2 * f.signBit) : other = bits := by
  obtain ⟨m, finite⟩ := one.sign
  obtain ⟨m', finite'⟩ := another.sign
  exact rounds_unique another.rounds one.rounds finite' finite small' small

theorem IsNearest.congr {other : Decimal} (sign : other.negative = d.negative)
    (value : other.rational = d.rational) (nearest : IsNearest f d bits) :
    IsNearest f other bits :=
  ⟨value ▸ nearest.finite, sign ▸ nearest.sign, value ▸ nearest.rounds⟩

theorem isNearest_of_nearby (proper : f.Proper) {k : Magnitude}
    (nearby : Nearby f (|d.rational| * 2 ^ f.depth) k) (finite : isFinite f k = true) :
    IsNearest f d (Binary.signed f d.negative k) := by
  have value : withSign d.negative |d.rational| = d.rational := by
    rw [abs_rational, ← rational_eq]
  obtain ⟨decoded, rounds⟩ :=
    rounds_of_nearby nearby (abs_nonneg _) proper.fractions finite d.negative
  rw [value] at rounds
  exact ⟨(lt_overflow_iff proper nearby).mpr finite, ⟨_, decoded⟩, rounds⟩

theorem IsNearest.nearby (proper : f.Proper) (nearest : IsNearest f d bits)
    (small : bits < 2 * f.signBit) (finite : decode f bits = .finite negative m) :
    d.negative = negative ∧
      ∃ k, Nearby f (|d.rational| * 2 ^ f.depth) k ∧ k.carried f = m := by
  have nearby := nearest_nearby f d.quotient.1 d.quotient_pos
  rw [← abs_rational] at nearby
  have inside := (lt_overflow_iff proper nearby).mp nearest.finite
  have found := isNearest_of_nearby proper nearby inside
  have decoded := (rounds_nearest d.quotient_pos proper.fractions inside d.negative).1
  rw [← nearest.unique found small (signed_lt (of_decide_eq_true inside)), decoded,
    Datum.finite.injEq] at finite
  exact ⟨finite.1, _, nearby, finite.2⟩

/-- A decimal is read as a number just if it has its sign and is in its interval. -/
theorem isNearest_iff_within (proper : f.Proper) (small : bits < 2 * f.signBit)
    (finite : decode f bits = .finite negative m) : IsNearest f d bits ↔
      d.negative = negative ∧ Within f m (|d.rational| * 2 ^ f.depth / 2 ^ m.shift) := by
  constructor
  · intro nearest
    obtain ⟨sign, k, nearby, rfl⟩ := nearest.nearby proper small finite
    exact ⟨sign, within_of_nearby proper.fractions nearby⟩
  · rintro ⟨rfl, within⟩
    have standing := standing_of_decode finite
    obtain ⟨k, nearby, rfl⟩ := nearby_of_within standing.canonical within
    have inside := standing.inside
    have whole : bits = Binary.signed f d.negative k := by
      rw [standing.whole small, Binary.signed, Binary.signed, k.pattern_carried]
    rw [k.pattern_carried] at inside
    rw [whole]
    exact isNearest_of_nearby proper nearby (decide_eq_true inside)

section Doubles

variable {bits : UInt64}

theorem overflow_double : overflow double = 2 ^ 1024 - 2 ^ 970 := by
  have depth : double.depth = 1074 := rfl
  have fields : double.topField - 2 = 2045 := rfl
  rw [overflow, depth, fields, overflow_units, mul_div_cancel_right₀ _ (by positivity)]

theorem IsNearestDouble.isNearest (nearest : IsNearestDouble d bits) :
    IsNearest double d bits.toNat := by
  refine ⟨?_, nearest.sign, nearest.rounds⟩
  rcases nearest.inRange with zero | ⟨-, below⟩
  · rw [zero, abs_zero]
    exact overflow_pos double
  · rw [overflow_double]
    exact below

/-- Only what rounds to zero without being zero is no double. -/
theorem IsNearest.isNearestDouble (nearest : IsNearest double d bits.toNat)
    (finite : decode double bits.toNat = .finite negative m)
    (kept : d.rational = 0 ∨ m.significand ≠ 0) : IsNearestDouble d bits := by
  obtain ⟨-, k, nearby, rfl⟩ := nearest.nearby proper_double bits.toNat_lt finite
  have inside := (lt_overflow_iff proper_double nearby).mp nearest.finite
  refine ⟨kept.imp id fun some => ?_, nearest.sign, nearest.rounds⟩
  exact (inRange_iff nearby).mp ⟨inside, mt k.carried_eq_zero.mpr some⟩

end Doubles

end Decimal

end BoundSql

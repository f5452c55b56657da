import BoundSql.Number.Binary
import Mathlib.Algebra.Order.Field.Rat
import Mathlib.Algebra.Order.Field.Basic
import Mathlib.Tactic.Linarith
import Mathlib.Tactic.Positivity
import Mathlib.Tactic.FieldSimp
import Mathlib.Tactic.Ring
import Mathlib.Tactic.NormNum

/-!
Rounding to a binary format finds the magnitude nearest to a number. What it finds is described by
the number in units of its last place; every other magnitude of the format is then on the same grid
of whole numbers, where the nearest is known, or below all of the grid that matters.
-/

namespace BoundSql

-- Powers are the built-in ones, whatever else is imported.
attribute [local instance (high)] instPowNat

namespace Rounding

variable {num den : Nat}

theorem halfEven_cases (num : Nat) (positive : 0 < den) :
    ∃ below left, num = below * den + left ∧ left < den ∧
    (halfEven num den = below ∧ (2 * left < den ∨ 2 * left = den ∧ below % 2 = 0) ∨
      halfEven num den = below + 1 ∧ (den < 2 * left ∨ 2 * left = den ∧ below % 2 = 1)) := by
  have parts : num = num / den * den + num % den := by
    rw [Nat.mul_comm]
    exact (Nat.div_add_mod num den).symm
  refine ⟨num / den, num % den, parts, Nat.mod_lt num positive, ?_⟩
  unfold halfEven
  simp only
  split
  · next low => exact .inl ⟨rfl, .inl low⟩
  split
  · next high => exact .inr ⟨rfl, .inl high⟩
  · next low high =>
      have tie : 2 * (num % den) = den := by omega
      rcases Nat.mod_two_eq_zero_or_one (num / den) with even | odd
      · rw [even]
        exact .inl ⟨rfl, .inr ⟨tie, rfl⟩⟩
      · rw [odd]
        exact .inr ⟨rfl, .inr ⟨tie, rfl⟩⟩

/-- A whole number nearest to `y`, the even one of two. -/
structure Rounded (y : ℚ) (n : Nat) : Prop where
  near : |y - n| ≤ 1 / 2
  even : |y - n| = 1 / 2 → n % 2 = 0

theorem Rounded.between {y : ℚ} {n : Nat} (least : n - 1 / 2 ≤ y) (most : y ≤ n + 1 / 2)
    (even : y = n - 1 / 2 ∨ y = n + 1 / 2 → n % 2 = 0) : Rounded y n where
  near := abs_le.mpr ⟨by linarith, by linarith⟩
  even := by
    intro tie
    rcases abs_eq (by norm_num) |>.mp tie with above | below
    · exact even (.inr (by linarith))
    · exact even (.inl (by linarith))

theorem halfEven_rounded (positive : 0 < den) : Rounded (num / den) (halfEven num den) := by
  obtain ⟨below, left, parts, less, rounded⟩ := halfEven_cases num positive
  have scale : (0 : ℚ) < den := by exact_mod_cast positive
  have quotient : (num : ℚ) / den = below + left / den := by
    rw [parts]
    push_cast
    field_simp
  have least : (0 : ℚ) ≤ left / den := by positivity
  have most : (left : ℚ) / den < 1 := by
    rw [div_lt_one scale]
    exact_mod_cast less
  have half (tie : 2 * left = den) : (left : ℚ) / den = 1 / 2 := by
    rw [div_eq_iff scale.ne', ← tie]
    push_cast
    ring
  rw [quotient]
  rcases rounded with ⟨down, low | ⟨tie, even⟩⟩ | ⟨up, high | ⟨tie, odd⟩⟩
  · have small : (left : ℚ) / den < 1 / 2 := by
      rw [div_lt_iff₀ scale]
      have : (2 * left : ℚ) < den := by exact_mod_cast low
      linarith
    rw [down]
    apply Rounded.between (by linarith) (by linarith)
    rintro (same | same) <;> linarith
  · rw [down, half tie]
    exact .between (by linarith) (by linarith) fun _ => even
  · have large : 1 / 2 < (left : ℚ) / den := by
      rw [lt_div_iff₀ scale]
      have : (den : ℚ) < 2 * left := by exact_mod_cast high
      linarith
    rw [up]
    apply Rounded.between (by push_cast; linarith) (by push_cast; linarith)
    push_cast
    rintro (same | same) <;> linarith
  · have even : (below + 1) % 2 = 0 := by omega
    rw [up, half tie]
    exact .between (by push_cast; linarith) (by push_cast; linarith) fun _ => even

namespace Rounded

variable {y : ℚ} {n k : Nat}

/-- Every other whole number is farther away, or as far and odd. -/
theorem best (rounded : Rounded y n) (other : k ≠ n) :
    |y - n| < |y - k| ∨ |y - n| = |y - k| ∧ n % 2 = 0 ∧ k % 2 = 1 := by
  have apart : (1 : ℚ) ≤ |(k : ℚ) - n| := by
    have : (1 : ℤ) ≤ |(k : ℤ) - n| := Int.one_le_abs (by omega)
    exact_mod_cast this
  have triangle : |(k : ℚ) - n| ≤ |y - n| + |y - k| := by
    rw [add_comm, abs_sub_comm y k]
    exact abs_sub_le (k : ℚ) y n
  rcases rounded.near.lt_or_eq with inside | tie
  · exact .inl (by linarith)
  · rcases lt_or_eq_of_le (show |y - n| ≤ |y - k| by linarith) with nearer | same
    · exact .inl nearer
    · have one : |(k : ℚ) - n| = 1 := by linarith
      have neighbour : |(k : ℤ) - n| = 1 := by exact_mod_cast one
      have even := rounded.even tie
      refine .inr ⟨same, even, ?_⟩
      rcases (abs_eq (by decide)).mp neighbour with above | below <;> omega

theorem le (rounded : Rounded y n) (k : Nat) : |y - n| ≤ |y - k| := by
  by_cases same : k = n
  · rw [same]
  · rcases rounded.best same with nearer | ⟨tie, -⟩
    · exact nearer.le
    · exact tie.le

theorem lt_of_lt (rounded : Rounded y n) (less : y < k - 1 / 2) : n < k := by
  have near := (abs_le.mp rounded.near).1
  have : (n : ℚ) < k := by linarith
  exact_mod_cast this

theorem le_of_lt (rounded : Rounded y n) (more : k - 1 / 2 < y) : k ≤ n := by
  have near := (abs_le.mp rounded.near).2
  have : (k : ℚ) < n + 1 := by linarith
  exact Nat.lt_succ_iff.mp (by exact_mod_cast this)

theorem lt_iff_of_even (rounded : Rounded y n) (even : k % 2 = 0) : n < k ↔ y < k - 1 / 2 := by
  constructor
  · intro less
    by_contra more
    have near := (abs_le.mp rounded.near).2
    have step : (n : ℚ) + 1 ≤ k := by exact_mod_cast less
    have tie : y - n = 1 / 2 := by linarith
    have even' := rounded.even (by rw [tie]; norm_num)
    have next : (n : ℚ) + 1 = k := by linarith
    have : n + 1 = k := by exact_mod_cast next
    omega
  · exact rounded.lt_of_lt

theorem pos_iff (rounded : Rounded y n) : 0 < n ↔ 1 / 2 < y := by
  constructor
  · intro positive
    by_contra less
    have near := (abs_le.mp rounded.near).1
    have one : (1 : ℚ) ≤ n := by exact_mod_cast positive
    have tie : y - n = -(1 / 2) := by linarith
    have even := rounded.even (by rw [tie]; norm_num)
    have single : (n : ℚ) = 1 := by linarith
    have : n = 1 := by exact_mod_cast single
    omega
  · intro more
    exact rounded.le_of_lt (by push_cast; linarith)

end Rounded

end Rounding

namespace Binary

open Rounding

variable {f : Format}

theorem Format.implicitBit_pos : 0 < f.implicitBit := Nat.two_pow_pos _

theorem Magnitude.units_cast (m : Magnitude) : (m.units : ℚ) = m.significand * 2 ^ m.shift := by
  rw [units]
  push_cast
  rfl

/-- What rounding finds for a number of units: the shift makes the significand fill its bits
unless the number is among the least, and the significand is rounded to even. -/
structure Nearby (f : Format) (x : ℚ) (m : Magnitude) : Prop where
  rounded : Rounded (x / 2 ^ m.shift) m.significand
  small : x / 2 ^ m.shift < 2 * f.implicitBit
  normal : m.shift = 0 ∨ f.implicitBit ≤ x / 2 ^ m.shift

theorem log2_shift (q bits : Nat) : q < 2 * 2 ^ bits * 2 ^ (q.log2 - bits) ∧
    (q.log2 - bits = 0 ∨ 2 ^ bits * 2 ^ (q.log2 - bits) ≤ q) := by
  constructor
  · have reach : q.log2 + 1 ≤ bits + (q.log2 - bits) + 1 := by omega
    calc
      q < 2 ^ (q.log2 + 1) := Nat.lt_log2_self
      _ ≤ 2 ^ (bits + (q.log2 - bits) + 1) := Nat.pow_le_pow_right (by decide) reach
      _ = 2 * 2 ^ bits * 2 ^ (q.log2 - bits) := by
        rw [Nat.pow_succ, Nat.pow_add, Nat.mul_comm _ 2, Nat.mul_assoc]
  · rcases Nat.eq_zero_or_pos (q.log2 - bits) with none | some
    · exact .inl none
    · have full : bits + (q.log2 - bits) = q.log2 := by omega
      have positive : q ≠ 0 := by
        rintro rfl
        simp at some
      rw [← Nat.pow_add, full]
      exact .inr (Nat.log2_self_le positive)

theorem nearest_nearby (f : Format) (num : Nat) {den : Nat} (positive : 0 < den) :
    Nearby f (num / den * 2 ^ f.depth) (nearest f num den) := by
  have grid (shift : Nat) : (num / den * 2 ^ f.depth : ℚ) / 2 ^ shift =
      (num * 2 ^ f.depth : Nat) / (den * 2 ^ shift : Nat) := by
    push_cast
    field_simp
  have scale (shift : Nat) : 0 < den * 2 ^ shift := Nat.mul_pos positive (Nat.two_pow_pos _)
  have scale' (shift : Nat) : (0 : ℚ) < (den * 2 ^ shift : Nat) := by exact_mod_cast scale shift
  obtain ⟨small, normal⟩ := log2_shift (num * 2 ^ f.depth / den) f.fractionBits
  constructor
  · rw [grid]
    exact halfEven_rounded (scale _)
  · rw [grid, div_lt_iff₀ (scale' _)]
    have below := (Nat.div_lt_iff_lt_mul positive).mp small
    rw [Nat.mul_assoc, Nat.mul_comm _ den] at below
    exact_mod_cast below
  · refine normal.imp id fun above => ?_
    rw [grid, le_div_iff₀ (scale' _)]
    have above := (Nat.le_div_iff_mul_le positive).mp above
    rw [Nat.mul_assoc, Nat.mul_comm _ den] at above
    exact_mod_cast above

/-- Every number of a format is one of these in only one way. -/
structure Magnitude.Canonical (f : Format) (m : Magnitude) : Prop where
  small : m.significand < 2 * f.implicitBit
  normal : m.shift = 0 ∨ f.implicitBit ≤ m.significand

theorem Magnitude.Canonical.units_lt_place {m : Magnitude} (canonical : m.Canonical f)
    {shift : Nat} (lower : m.shift < shift) : m.units < f.implicitBit * 2 ^ shift := by
  have step : 2 * 2 ^ m.shift ≤ 2 ^ shift := by
    rw [Nat.mul_comm, ← Nat.pow_succ]
    exact Nat.pow_le_pow_right (by decide) lower
  calc
    m.units < 2 * f.implicitBit * 2 ^ m.shift :=
      Nat.mul_lt_mul_of_pos_right canonical.small (Nat.two_pow_pos _)
    _ = f.implicitBit * (2 * 2 ^ m.shift) := by
      rw [Nat.mul_comm 2, Nat.mul_assoc]
    _ ≤ f.implicitBit * 2 ^ shift := Nat.mul_le_mul_left _ step

/-- A significand that has outgrown its bits is half of itself with the next shift. -/
def Magnitude.carried (f : Format) (m : Magnitude) : Magnitude :=
  if m.significand = 2 * f.implicitBit then ⟨f.implicitBit, m.shift + 1⟩ else m

section Carry

variable (m : Magnitude)

theorem Magnitude.pattern_carried : (m.carried f).pattern f = m.pattern f := by
  unfold carried
  split
  · next outgrown =>
      rw [pattern, pattern, outgrown, Nat.succ_mul, Nat.two_mul, Nat.add_assoc]
  · rfl

theorem Magnitude.units_carried : (m.carried f).units = m.units := by
  unfold carried
  split
  · next outgrown =>
      rw [units, units, outgrown, Nat.pow_succ, Nat.mul_comm 2, Nat.mul_comm _ 2, Nat.mul_assoc]
  · rfl

theorem Magnitude.carried_eq_zero : (m.carried f).significand = 0 ↔ m.significand = 0 := by
  have positive := f.implicitBit_pos
  unfold carried
  split
  · next outgrown => exact iff_of_false positive.ne' (by omega)
  · rfl

end Carry

namespace Nearby

variable {x : ℚ} {m k : Magnitude}

theorem significand_le (nearby : Nearby f x m) : m.significand ≤ 2 * f.implicitBit := by
  apply Nat.lt_succ_iff.mp
  apply nearby.rounded.lt_of_lt
  have small := nearby.small
  push_cast
  linarith

theorem le_significand (nearby : Nearby f x m) :
    m.shift = 0 ∨ f.implicitBit ≤ m.significand := by
  refine nearby.normal.imp id fun above => ?_
  apply nearby.rounded.le_of_lt
  linarith

theorem canonical (nearby : Nearby f x m) : (m.carried f).Canonical f := by
  have positive := f.implicitBit_pos
  unfold Magnitude.carried
  split
  · exact ⟨by simp only; omega, .inr (Nat.le_refl _)⟩
  · next inside =>
      exact ⟨Nat.lt_of_le_of_ne nearby.significand_le inside, nearby.le_significand⟩

theorem distance (x : ℚ) (n shift : Nat) :
    |x - n * 2 ^ shift| = |x / 2 ^ shift - n| * 2 ^ shift := by
  have scale : (0 : ℚ) < 2 ^ shift := by positivity
  rw [← abs_of_pos scale, ← abs_mul, abs_of_pos scale, sub_mul, div_mul_cancel₀ _ scale.ne']

/-- A number with a smaller shift lies below all those that fill the larger one. -/
theorem best_below (nearby : Nearby f x m) (canonical : k.Canonical f)
    (lower : k.shift < m.shift) : |x - m.units| < |x - k.units| := by
  have scale : (0 : ℚ) < 2 ^ m.shift := by positivity
  have below : (k.units : ℚ) < f.implicitBit * 2 ^ m.shift := by
    exact_mod_cast canonical.units_lt_place lower
  have reach : (f.implicitBit : ℚ) * 2 ^ m.shift ≤ x :=
    (le_div_iff₀ scale).mp (nearby.normal.resolve_left (by omega))
  have near : |x - m.units| ≤ |x - f.implicitBit * 2 ^ m.shift| := by
    rw [m.units_cast, distance, distance]
    exact mul_le_mul_of_nonneg_right (nearby.rounded.le f.implicitBit) scale.le
  apply near.trans_lt
  rw [abs_of_nonneg (by linarith), abs_of_nonneg (by linarith)]
  linarith

/-- A number with the same shift, or a larger one, is a whole number of last places. -/
theorem best_place (nearby : Nearby f x m) (higher : m.shift ≤ k.shift) : k.units = m.units ∨
    |x - m.units| < |x - k.units| ∨
      |x - m.units| = |x - k.units| ∧ m.significand % 2 = 0 ∧ k.significand % 2 = 1 := by
  have scale : (0 : ℚ) < 2 ^ m.shift := by positivity
  obtain ⟨more, shift⟩ := Nat.exists_eq_add_of_le higher
  have places : k.units = k.significand * 2 ^ more * 2 ^ m.shift := by
    rw [Magnitude.units, shift, Nat.pow_add, Nat.mul_comm (2 ^ m.shift), Nat.mul_assoc]
  have places' : (k.units : ℚ) = (k.significand * 2 ^ more : Nat) * 2 ^ m.shift := by
    exact_mod_cast congrArg (Nat.cast : Nat → ℚ) places
  by_cases same : k.significand * 2 ^ more = m.significand
  · left
    rw [places, same, Magnitude.units]
  · right
    rw [places', m.units_cast, distance, distance]
    rcases nearby.rounded.best same with nearer | ⟨tie, even, odd⟩
    · exact .inl (mul_lt_mul_of_pos_right nearer scale)
    · have odd' : k.significand % 2 = 1 := by
        rcases Nat.mod_two_eq_zero_or_one k.significand with even' | odd'
        · rw [Nat.mul_mod, even'] at odd
          simp at odd
        · exact odd'
      exact .inr ⟨by rw [tie], even, odd'⟩

/-- Every other number of the format is farther away, or as far and odd. -/
theorem best (nearby : Nearby f x m) (canonical : k.Canonical f) : k.units = m.units ∨
    |x - m.units| < |x - k.units| ∨
      |x - m.units| = |x - k.units| ∧ m.significand % 2 = 0 ∧ k.significand % 2 = 1 := by
  rcases Nat.lt_or_ge k.shift m.shift with lower | higher
  · exact .inr (.inl (nearby.best_below canonical lower))
  · exact nearby.best_place higher

/-- Half a unit goes to zero. -/
theorem significand_ne_zero_iff (nearby : Nearby f x m) : m.significand ≠ 0 ↔ 1 / 2 < x := by
  rw [← Nat.pos_iff_ne_zero]
  rcases Nat.eq_zero_or_pos m.shift with none | some
  · have rounded := nearby.rounded
    rw [none, pow_zero, div_one] at rounded
    exact rounded.pos_iff
  · have positive : (1 : ℚ) ≤ f.implicitBit := by exact_mod_cast f.implicitBit_pos
    have full := nearby.le_significand.resolve_left some.ne'
    have above := nearby.normal.resolve_left some.ne'
    have scale : (1 : ℚ) ≤ 2 ^ m.shift := one_le_pow₀ (by norm_num)
    have reach := (le_div_iff₀ (by positivity)).mp above
    have large : 1 / 2 < x := by nlinarith
    exact iff_of_true (f.implicitBit_pos.trans_le full) large

theorem two_mul_pow_le {a b : Nat} (less : a < b) : (2 : ℚ) * 2 ^ a ≤ 2 ^ b := by
  rw [mul_comm, ← pow_succ]
  exact pow_le_pow_right₀ (by norm_num) less

/-- What is the greatest number and half its last place, or is more, is infinite. -/
theorem isFinite_iff (nearby : Nearby f x m) {top : Nat} (fields : f.topField = top + 2) :
    isFinite f m = true ↔ x < (2 * f.implicitBit - 1 / 2) * 2 ^ top := by
  have positive := f.implicitBit_pos
  have scale : (0 : ℚ) < 2 ^ m.shift := by positivity
  have one : (1 : ℚ) ≤ f.implicitBit := by exact_mod_cast positive
  rw [isFinite, decide_eq_true_eq, Magnitude.pattern, Format.infinity, fields]
  rcases Nat.lt_trichotomy m.shift top with lower | same | higher
  · have fields : (m.shift + 1) * f.implicitBit ≤ top * f.implicitBit :=
      Nat.mul_le_mul_right _ lower
    have less := nearby.significand_le
    have step := two_mul_pow_le lower
    have small := (div_lt_iff₀ scale).mp nearby.small
    apply iff_of_true
    · rw [Nat.add_mul] at fields ⊢
      omega
    · nlinarith
  · subst same
    have even : 2 * f.implicitBit % 2 = 0 := Nat.mul_mod_right 2 _
    have rounds := nearby.rounded.lt_iff_of_even even
    rw [← div_lt_iff₀ scale, Nat.add_mul, Nat.add_lt_add_iff_left, rounds]
    push_cast
    rfl
  · have fields : (top + 1) * f.implicitBit ≤ m.shift * f.implicitBit :=
      Nat.mul_le_mul_right _ higher
    have some : m.shift ≠ 0 := by omega
    have full := nearby.le_significand.resolve_left some
    have step := two_mul_pow_le higher
    have large := (le_div_iff₀ scale).mp (nearby.normal.resolve_left some)
    have positive : (0 : ℚ) < 2 ^ top := by positivity
    apply iff_of_false
    · rw [Nat.add_mul] at fields ⊢
      omega
    · nlinarith

end Nearby

end Binary

end BoundSql

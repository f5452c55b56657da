import BoundSql.Proofs.NearestPatterns

/-!
Rounding keeps the order of numbers. A number is rounded down only from below the middle between two
neighbours and up only from above it, and in the middle the parity of the patterns decides, so a
greater number is never rounded to a smaller one. What a pattern stands for is rounded to itself, as
are the whole numbers that fit into a significand.
-/

namespace BoundSql

-- Powers are the built-in ones, whatever else is imported.
attribute [local instance (high)] instPowNat

section Middle

variable {x y z : ℚ}

theorem middle_le (below : z < y) (near : |x - y| ≤ |x - z|) : (y + z) / 2 ≤ x := by
  by_contra less
  rw [abs_sub_comm x y, abs_of_nonneg (show 0 ≤ y - x by linarith)] at near
  exact absurd near (not_le.mpr (abs_lt.mpr ⟨by linarith, by linarith⟩))

theorem le_middle (above : y < z) (near : |x - y| ≤ |x - z|) : x ≤ (y + z) / 2 := by
  by_contra more
  rw [abs_of_nonneg (show 0 ≤ x - y by linarith)] at near
  exact absurd near (not_le.mpr (abs_lt.mpr ⟨by linarith, by linarith⟩))

end Middle

namespace Rounding

/-- A whole number nearest to `y`, of either sign, the even one of two. -/
structure Whole (y : ℚ) (n : Int) : Prop where
  near : |y - n| ≤ 1 / 2
  even : |y - n| = 1 / 2 → n % 2 = 0

namespace Whole

variable {y y' : ℚ} {n n' : Int}

theorem of_rounded {n : Nat} (rounded : Rounded y n) (negative : Bool) :
    Whole (Binary.withSign negative y) (if negative then -n else n) := by
  have distance : |Binary.withSign negative y - (if negative then -n else n : Int)| = |y - n| := by
    rw [← Binary.withSign_sub negative y n]
    cases negative <;> simp [Binary.withSign]
  constructor
  · rw [distance]
    exact rounded.near
  · rw [distance]
    intro tie
    have even := rounded.even tie
    split <;> omega

theorem refl (n : Int) : Whole n n where
  near := by norm_num
  even := by norm_num

theorem mono (whole : Whole y n) (whole' : Whole y' n') (le : y ≤ y') : n ≤ n' := by
  by_contra above
  have step : (n' : ℚ) + 1 ≤ n := by exact_mod_cast Int.not_le.mp above
  have low := (abs_le.mp whole.near).1
  have high := (abs_le.mp whole'.near).2
  -- Both numbers are the middle, and of two neighbours only one is even.
  have tie : y - n = -(1 / 2) := by linarith
  have tie' : y' - n' = 1 / 2 := by linarith
  have even := whole.even (by rw [tie]; norm_num)
  have even' := whole'.even (by rw [tie']; norm_num)
  have next : (n' : ℚ) + 1 = n := by linarith
  have next : n' + 1 = n := by exact_mod_cast next
  omega

end Whole

end Rounding

namespace Binary

open Rounding

variable {f : Format} {x x' y y' : ℚ} {bits bits' : Nat} {m : Magnitude}

namespace Rounds

section Neighbours

variable {other : Nat} {z : ℚ} (rounds : Rounds f x bits) (stands : rational? f bits = some y)
  (stands' : rational? f other = some z)

include rounds stands stands'

theorem near : |x - y| ≤ |x - z| := by
  obtain ⟨_, same, best⟩ := rounds
  obtain rfl := Option.some.inj (stands.symm.trans same)
  by_cases apart : z = y
  · rw [apart]
  · rcases best other z stands' apart with nearer | ⟨tie, -, -⟩
    · exact nearer.le
    · exact tie.le

theorem parity (apart : z ≠ y) (tie : |x - y| = |x - z|) : bits % 2 = 0 ∧ other % 2 = 1 := by
  obtain ⟨_, same, best⟩ := rounds
  obtain rfl := Option.some.inj (stands.symm.trans same)
  rcases best other z stands' apart with nearer | ⟨-, even, odd⟩
  · exact absurd tie nearer.ne
  · exact ⟨even, odd⟩

end Neighbours

theorem mono (rounds : Rounds f x bits) (rounds' : Rounds f x' bits')
    (stands : rational? f bits = some y) (stands' : rational? f bits' = some y') (le : x ≤ x') :
    y ≤ y' := by
  by_contra less
  have below : y' < y := not_le.mp less
  have low := middle_le below (rounds.near stands stands')
  have high := le_middle below (rounds'.near stands' stands)
  -- Both numbers are the middle, and of two patterns only one is even.
  have middle : x = (y + y') / 2 := by linarith
  have middle' : x' = (y + y') / 2 := by linarith
  have tie : |(y + y') / 2 - y| = |(y + y') / 2 - y'| := by
    rw [abs_of_nonpos (by linarith), abs_of_nonneg (by linarith)]
    ring
  obtain ⟨-, odd⟩ := rounds.parity stands stands' below.ne (middle ▸ tie)
  obtain ⟨even, -⟩ := rounds'.parity stands' stands below.ne' (middle' ▸ tie.symm)
  omega

end Rounds

/-- A pattern rounds what it stands for. -/
theorem rounds_of_stands (stands : rational? f bits = some x) : Rounds f x bits := by
  refine ⟨x, stands, fun other z _ apart => .inl ?_⟩
  rw [sub_self, abs_zero]
  exact abs_pos.mpr (sub_ne_zero.mpr apart.symm)

theorem Nearby.eq_of_whole (nearby : Nearby f x m) {n : Nat} (whole : x / 2 ^ m.shift = n) :
    (m.units : ℚ) = x := by
  have near := nearby.rounded.le n
  rw [whole, sub_self, abs_zero] at near
  have same := sub_eq_zero.mp (abs_eq_zero.mp (le_antisymm near (abs_nonneg _)))
  rw [m.units_cast, ← same, ← whole, div_mul_cancel₀ _ (by positivity)]

/-- Whole numbers that fit into a significand are numbers of the format. -/
theorem stands_natCast (proper : f.Proper) {n : Nat} (small : n < 2 * f.implicitBit)
    (inside : (n : ℚ) < overflow f) : ∃ bits, rational? f bits = some n := by
  have nearby := nearest_nearby f n Nat.one_pos
  rw [Nat.cast_one, div_one] at nearby
  have finite := (lt_overflow_iff proper nearby).mp inside
  have decoded := (rounds_nearest Nat.one_pos proper.fractions finite false).1
  have scale : (0 : ℚ) < 2 ^ f.depth := by positivity
  have shift : (nearest f n 1).shift ≤ f.depth := by
    by_contra deep
    have full := (le_div_iff₀ (by positivity)).mp (nearby.normal.resolve_left (by omega))
    have step := Nearby.two_mul_pow_le (not_le.mp deep)
    have small : (n : ℚ) < 2 * f.implicitBit := by exact_mod_cast small
    nlinarith
  have whole : (n * 2 ^ f.depth : ℚ) / 2 ^ (nearest f n 1).shift =
      (n * 2 ^ (f.depth - (nearest f n 1).shift) : Nat) := by
    rw [div_eq_iff (by positivity)]
    push_cast
    rw [mul_assoc, ← pow_add, Nat.sub_add_cancel shift]
  refine ⟨_, (rational_of_finite decoded).trans ?_⟩
  rw [Magnitude.units_carried, nearby.eq_of_whole whole]
  simp [withSign, scale.ne']

section Quotients

theorem withSign_div (negative : Bool) (x y : ℚ) :
    withSign negative (x / y) = withSign negative x / y := by
  cases negative <;> simp [withSign, neg_div]

theorem withSign_mul (negative : Bool) (x y : ℚ) :
    withSign negative (x * y) = withSign negative x * y := by
  cases negative <;> simp [withSign]

/-- A quotient with a sign, shown with so many places, is rounded to a whole number of the last. -/
theorem whole_quotient (num : Nat) {den : Nat} (positive : 0 < den) (places : Nat)
    (negative : Bool) :
    Whole (withSign negative (num / den) * 10 ^ places)
      (if negative then -(halfEven (num * 10 ^ places) den : Nat)
        else (halfEven (num * 10 ^ places) den : Nat)) := by
  have rounded : Rounded ((num * 10 ^ places : Nat) / den) _ := halfEven_rounded positive
  have scaled : ((num * 10 ^ places : Nat) : ℚ) / den = num / den * 10 ^ places := by
    rw [Nat.cast_mul, Nat.cast_pow, Nat.cast_ofNat, mul_div_right_comm]
  have signed := Whole.of_rounded rounded negative
  rwa [scaled, withSign_mul] at signed

theorem withSign_natAbs (n : Int) : withSign (n < 0) n.natAbs = n := by
  rw [Nat.cast_natAbs, Int.cast_abs]
  by_cases below : n < 0
  · have below' : (n : ℚ) < 0 := by exact_mod_cast below
    rw [withSign, if_pos (decide_eq_true below), abs_of_neg below', neg_neg]
  · have above : (0 : ℚ) ≤ n := by exact_mod_cast Int.not_lt.mp below
    rw [withSign, if_neg (by simpa using below), abs_of_nonneg above]

/-- Zero is never farther away. -/
theorem Rounds.abs_le (proper : f.Proper) (rounds : Rounds f x bits)
    (stands : rational? f bits = some y) : |y| ≤ 2 * |x| := by
  have implicit := f.implicitBit_pos
  obtain ⟨origin, none⟩ := stands_natCast proper (n := 0) (by omega) (by simpa using overflow_pos f)
  have near := rounds.near stands none
  rw [Nat.cast_zero, sub_zero] at near
  calc |y| = |x - (x - y)| := by rw [sub_sub_cancel]
    _ ≤ |x| + |x - y| := abs_sub x (x - y)
    _ ≤ 2 * |x| := by linarith

/-- A quotient with a sign is rounded by a pattern that stands for what rounding finds, which is at
most twice as great. -/
theorem exists_rounds (proper : f.Proper) (num : Nat) {den : Nat} (positive : 0 < den)
    (inside : (num / den : ℚ) < overflow f) (negative : Bool) :
    (∃ bits, Rounds f (withSign negative (num / den)) bits ∧
      rational? f bits = some (withSign negative ((nearest f num den).units / 2 ^ f.depth))) ∧
    ((nearest f num den).units / 2 ^ f.depth : ℚ) ≤ 2 * (num / den) := by
  have finite := (lt_overflow_iff proper (nearest_nearby f num positive)).mp inside
  obtain ⟨decoded, rounds⟩ := rounds_nearest positive proper.fractions finite negative
  have stands := rational_of_finite decoded
  rw [Magnitude.units_carried, ← withSign_div] at stands
  have size := rounds.abs_le proper stands
  rw [abs_withSign _ (by positivity), abs_withSign _ (by positivity)] at size
  exact ⟨⟨_, rounds, stands⟩, size⟩

end Quotients

theorem lt_overflow_double (small : x ≤ 2 ^ 64) : x < overflow double := by
  have top : (2 : ℚ) ^ 1024 = 2 ^ 54 * 2 ^ 970 := (pow_add 2 54 970)
  have large : (2 : ℚ) ^ 64 ≤ 2 ^ 970 := pow_le_pow_right₀ (by norm_num) (by norm_num)
  have positive : (0 : ℚ) < 2 ^ 64 := by positivity
  rw [Decimal.overflow_double, top]
  generalize (2 : ℚ) ^ 970 = last at large
  linarith

end Binary

end BoundSql

import BoundSql.Proofs.ReadBack
import Mathlib.Data.Nat.Prime.Basic

/-!
Integers of any size, and whether they are shown as they were written. Integers of 64 bits are. A
greater one is read as its nearest double, of which only the shortest decimal is shown: an integer
with as many zeros at its end as any that is read as this double, and the nearest to the double of
those. Beyond the doubles an integer is a text, and stands between escapers.
-/

namespace BoundSql

open Text Binary

-- Powers are the built-in ones, whatever else is imported.
attribute [local instance (high)] instPowNat

namespace Shortest.Interval

variable {f : Format} {m : Magnitude} {count power n : Nat}

theorem sub_le_place (some : m.significand ≠ 0) {a b : Nat}
    (one : (ofMagnitude f m).holds a = true) (other : (ofMagnitude f m).holds b = true) :
    (a : ℚ) - b ≤ place f m := by
  have most := ((holds_iff_within some).mp one).most
  have least := ((holds_iff_within some).mp other).least
  have down := reach_le f m
  have apart : (a / place f m - b / place f m : ℚ) ≤ 1 := by linarith
  rwa [← sub_div, div_le_one (place_pos f m)] at apart

/-- A grain with two multiples inside is no greater than a last place. -/
theorem power_le_shift (some : m.significand ≠ 0) (whole : places f ≤ power)
    (one : (ofMagnitude f m).holds (count * 10 ^ power) = true)
    (other : (ofMagnitude f m).holds (n * 10 ^ power) = true) (less : count < n) :
    power ≤ m.shift + 2 := by
  have step : 10 ^ power ≤ n * 10 ^ power - count * 10 ^ power := by
    rw [← Nat.sub_mul]
    exact Nat.le_mul_of_pos_left _ (Nat.sub_pos_of_lt less)
  have width : n * 10 ^ power - count * 10 ^ power ≤ 4 * 5 ^ places f * 2 ^ m.shift := by
    have apart := sub_le_place some other one
    rw [← Nat.cast_sub (Nat.mul_le_mul_right _ less.le), place] at apart
    exact_mod_cast apart
  have grain : 2 ^ power * 5 ^ places f ≤ 2 ^ (m.shift + 2) * 5 ^ places f :=
    calc
      2 ^ power * 5 ^ places f ≤ 2 ^ power * 5 ^ power :=
        Nat.mul_le_mul_left _ (Nat.pow_le_pow_right (by decide) whole)
      _ = 10 ^ power := (Nat.mul_pow 2 5 power).symm
      _ ≤ 4 * 5 ^ places f * 2 ^ m.shift := step.trans width
      _ = 2 ^ (m.shift + 2) * 5 ^ places f := by ring
  exact (Nat.pow_le_pow_iff_right (by decide)).mp
    (Nat.le_of_mul_le_mul_right grain (Nat.pow_pos (by decide)))

/-- Half-way between two multiples, the factors two of the number are all in the grain. -/
theorem shift_lt_power {odd : Nat} (parity : odd % 2 = 1)
    (middle : 2 * (ofMagnitude f m).centre = odd * 10 ^ power) : m.shift + 3 ≤ power := by
  have factors : 2 ^ (m.shift + 3) ∣ 2 ^ power * (odd * 5 ^ power) := by
    refine ⟨m.significand * 5 ^ places f, ?_⟩
    have tens : 10 ^ power = 2 ^ power * 5 ^ power := Nat.mul_pow 2 5 power
    simp only [ofMagnitude] at middle
    rw [← Nat.mul_assoc, Nat.mul_comm (2 ^ power), Nat.mul_assoc, ← tens, ← middle]
    ring
  have apart : Nat.Coprime (2 ^ (m.shift + 3)) (odd * 5 ^ power) := by
    apply Nat.Coprime.pow_left
    apply Nat.Coprime.mul_right
    · exact Nat.coprime_two_left.mpr (Nat.odd_iff.mpr parity)
    · exact Nat.Coprime.pow_right _ (by decide)
  exact (Nat.pow_dvd_pow_iff_le_right (by decide)).mp (apart.dvd_of_dvd_mul_right factors)

/-- Of the multiples of a grain that is no fraction, two are never nearest to the number. -/
theorem Coarsest.nearer (some : m.significand ≠ 0)
    (coarsest : Coarsest (ofMagnitude f m) count power) (whole : places f ≤ power)
    (held : (ofMagnitude f m).holds (n * 10 ^ power) = true) (other : n ≠ count) :
    |((ofMagnitude f m).centre / (10 ^ power : Nat) : ℚ) - count| <
      |((ofMagnitude f m).centre / (10 ^ power : Nat) : ℚ) - n| := by
  rcases coarsest.nearest n held other with nearer | ⟨tie, even, odd⟩
  · exact nearer
  · exfalso
    have scale : ((10 ^ power : Nat) : ℚ) ≠ 0 := by exact_mod_cast (ten_pos power).ne'
    have middle : 2 * (ofMagnitude f m).centre = (count + n) * 10 ^ power := by
      rcases abs_eq_abs.mp tie with same | turned
      · exact absurd (by exact_mod_cast (sub_right_injective same).symm) other
      · have sum : ((ofMagnitude f m).centre / (10 ^ power : Nat) : ℚ) = (count + n) / 2 := by
          linarith
        rw [div_eq_iff scale] at sum
        have double : (2 * (ofMagnitude f m).centre : ℚ) = (count + n) * (10 ^ power : Nat) := by
          linarith
        exact_mod_cast double
    have high := shift_lt_power (by omega) middle
    have low : power ≤ m.shift + 2 := by
      rcases Nat.lt_or_gt_of_ne other with less | more
      · exact power_le_shift some whole held coarsest.inside less
      · exact power_le_shift some whole coarsest.inside held more
    omega

theorem centre_units (f : Format) (m : Magnitude) :
    ((ofMagnitude f m).centre / (10 ^ places f : Nat) : ℚ) = m.units / 2 ^ f.depth := by
  have scaled := @scaled_units f m (ofMagnitude f m).centre
  rw [cast_centre f m, mul_div_cancel_right₀ _ (place_pos f m).ne', ← cast_centre f m,
    div_eq_iff (by positivity), ← m.units_cast] at scaled
  exact eq_div_of_mul_eq (by positivity) scaled

end Shortest.Interval

namespace Argument

open Shortest Shortest.Interval
open Template (IsNumber)

section Integers

variable {negative : Bool} {n : Nat} {k : Int} {d : Decimal}

theorem natAbs_signedInt (negative : Bool) (n : Nat) : (signedInt negative n).natAbs = n := by
  cases negative <;> simp [signedInt]

theorem pow_dvd_signedInt {power : Nat} :
    (10 : Int) ^ power ∣ signedInt negative n ↔ 10 ^ power ∣ n := by
  have cast : ((10 ^ power : Nat) : Int) = 10 ^ power := by push_cast; rfl
  rw [← cast, Int.natCast_dvd, natAbs_signedInt]

theorem cast_signedInt (negative : Bool) (n : Nat) :
    (signedInt negative n : ℚ) = withSign negative n := by
  cases negative <;> simp [signedInt, withSign]

theorem eq_signedInt (same : d.rational = k) : k = signedInt d.negative k.natAbs := by
  have low : (0 : ℚ) ≤ d.quotient.1 / d.quotient.2 := by positivity
  rw [Decimal.rational_eq, withSign] at same
  rw [signedInt]
  split at same
  · next sign =>
      have below : k ≤ 0 := by
        have : (k : ℚ) ≤ 0 := by linarith
        exact_mod_cast this
      rw [if_pos sign, Int.ofNat_natAbs_of_nonpos below, Int.neg_neg]
  · next sign =>
      have above : 0 ≤ k := by
        have : (0 : ℚ) ≤ k := by linarith
        exact_mod_cast this
      rw [if_neg sign, Int.natAbs_of_nonneg above]

theorem sign_of_signedInt {other : Bool} {n' : Nat} (some : 0 < n)
    (same : signedInt negative n = signedInt other n') : other = negative := by
  cases negative <;> cases other <;> simp [signedInt] at same ⊢ <;> omega

end Integers

section Doubles

variable {bits : UInt64} {negative : Bool} {m : Magnitude} {word : Text} {k : Int}

theorem significand_of_integer (finite : decode double bits.toNat = .finite negative m)
    (integer : IsInteger word k) (other : k ≠ 0) (double : IsDouble word bits) :
    m.significand ≠ 0 := by
  obtain ⟨d, written, same⟩ := integer.written
  obtain ⟨d', written', nearest⟩ := double
  obtain rfl := written.unique written'
  obtain ⟨-, rounded, nearby, rfl⟩ := nearest.isNearest.nearby proper_double bits.toNat_lt finite
  have some : d'.rational ≠ 0 := by
    rw [same]
    exact_mod_cast other
  have inside := (Decimal.inRange_iff nearby).mpr (nearest.inRange.resolve_left some)
  exact mt rounded.carried_eq_zero.mp inside.2

/-- The integers that are read as a double are those in its interval. -/
theorem isDouble_iff_holds (finite : decode double bits.toNat = .finite negative m)
    (some : m.significand ≠ 0) (integer : IsInteger word k) : IsDouble word bits ↔
    ∃ n, k = signedInt negative n ∧
      (ofMagnitude double m).holds (n * 10 ^ places double) = true := by
  obtain ⟨d, written, same⟩ := integer.written
  have size :
      |d.rational| = (k.natAbs * 10 ^ places double : Nat) / (10 ^ places double : Nat) := by
    have scale : ((10 ^ places double : Nat) : ℚ) ≠ 0 := by exact_mod_cast (ten_pos _).ne'
    rw [Nat.cast_mul, mul_div_cancel_right₀ _ scale, same, Nat.cast_natAbs, Int.cast_abs]
  have nearest_iff := isNearestDouble_iff_holds finite some size
  constructor
  · rintro ⟨d', written', nearest⟩
    obtain rfl := written.unique written'
    obtain ⟨rfl, held⟩ := nearest_iff.mp nearest
    exact ⟨_, eq_signedInt same, held⟩
  · rintro ⟨n, rfl, held⟩
    rw [natAbs_signedInt] at nearest_iff
    have positive : 0 < n :=
      Nat.pos_of_mul_pos_right (pos_of_holds (proper_ofMagnitude some) held)
    have sign := sign_of_signedInt positive (eq_signedInt same)
    exact ⟨d, written, nearest_iff.mpr ⟨sign, held⟩⟩

/-- Of the integers that are read as a double, one with the most zeros at the end, and the nearest
of those. -/
structure Briefest (bits : UInt64) (k : Int) : Prop where
  coarsest : ∀ j power, IsDouble (Numeral.ofInt j) bits → (10 : Int) ^ power ∣ j →
    (10 : Int) ^ power ∣ k
  nearest : ∀ j x, IsDouble (Numeral.ofInt j) bits →
    (∀ power, (10 : Int) ^ power ∣ k → (10 : Int) ^ power ∣ j) →
    rational? double bits.toNat = some x → |x - k| ≤ |x - j|

variable {count power n : Nat}

theorem distance_scaled (centre n low more : Nat) :
    |(centre / (10 ^ low : Nat) : ℚ) - (n * 10 ^ more : Nat)| =
      |(centre / (10 ^ (low + more) : Nat) : ℚ) - n| * 10 ^ more := by
  have scale : (0 : ℚ) < 10 ^ more := by positivity
  conv_rhs => rw [← abs_of_pos scale]
  rw [← abs_mul, sub_mul, Nat.pow_add]
  push_cast
  field_simp

theorem distance_signedInt {x : ℚ} (finite : decode double bits.toNat = .finite negative m)
    (value : rational? double bits.toNat = some x) (whole : places double ≤ power) (n : Nat) :
    |x - signedInt negative (n * 10 ^ (power - places double))| =
      |((ofMagnitude double m).centre / (10 ^ power : Nat) : ℚ) - n| *
        10 ^ (power - places double) := by
  have sign : withSign negative m.units / 2 ^ double.depth =
      withSign negative (m.units / 2 ^ double.depth : ℚ) := by
    cases negative <;> simp only [withSign, if_true, Bool.false_eq_true, if_false, neg_div]
  rw [rational_of_finite finite, Option.some.injEq, sign, ← centre_units] at value
  rw [← value, cast_signedInt, withSign_sub, distance_scaled, Nat.add_sub_cancel' whole]

theorem mul_pow_places (whole : places double ≤ power) (n : Nat) :
    n * 10 ^ (power - places double) * 10 ^ places double = n * 10 ^ power := by
  rw [Nat.mul_assoc, ← Nat.pow_add, Nat.sub_add_cancel whole]

/-- The coarsest power has as many zeros as any integer in the interval. -/
theorem pow_dvd_pow_of_holds {zeros : Nat} (coarsest : Coarsest (ofMagnitude double m) count power)
    (held : (ofMagnitude double m).holds (n * 10 ^ places double) = true)
    (divides : 10 ^ zeros ∣ n) : 10 ^ zeros ∣ 10 ^ (power - places double) := by
  obtain ⟨left, rfl⟩ := divides
  have parts : 10 ^ zeros * left * 10 ^ places double = left * 10 ^ (zeros + places double) := by
    rw [Nat.pow_add]
    ring
  rw [parts] at held
  have fine := coarsest.coarsest _ _ held
  exact Nat.pow_dvd_pow _ (by omega)

section Shown

variable (finite : decode double bits.toNat = .finite negative m) (some : m.significand ≠ 0)
  (coarsest : Coarsest (ofMagnitude double m) count power) (whole : places double ≤ power)

include finite some coarsest whole

/-- An integer that is read as the double and ends in as many zeros as what is shown is it, or it
is farther away. -/
theorem shown_or_farther {j : Int} {x : ℚ} (read : IsDouble (Numeral.ofInt j) bits)
    (divides : (10 : Int) ^ (power - places double) ∣ j)
    (value : rational? double bits.toNat = .some x) :
    j = signedInt negative (count * 10 ^ (power - places double)) ∨
      |x - signedInt negative (count * 10 ^ (power - places double))| < |x - j| := by
  obtain ⟨n, rfl, held⟩ := (isDouble_iff_holds finite some (isInteger_ofInt j)).mp read
  obtain ⟨number, parts⟩ := pow_dvd_signedInt.mp divides
  rw [Nat.mul_comm] at parts
  rw [parts, mul_pow_places whole] at held
  rw [parts]
  by_cases same : number = count
  · exact .inl (by rw [same])
  · right
    rw [distance_signedInt finite value whole, distance_signedInt finite value whole]
    exact mul_lt_mul_of_pos_right (coarsest.nearer some whole held same) (by positivity)

theorem shown_read :
    IsDouble (Numeral.ofInt (signedInt negative (count * 10 ^ (power - places double)))) bits := by
  refine (isDouble_iff_holds finite some (isInteger_ofInt _)).mpr ⟨_, rfl, ?_⟩
  rw [mul_pow_places whole]
  exact coarsest.inside

theorem briefest_shown :
    Briefest bits (signedInt negative (count * 10 ^ (power - places double))) := by
  constructor
  · intro j zeros read divides
    obtain ⟨n, rfl, held⟩ := (isDouble_iff_holds finite some (isInteger_ofInt j)).mp read
    have fewer := pow_dvd_pow_of_holds coarsest held (pow_dvd_signedInt.mp divides)
    exact pow_dvd_signedInt.mpr (fewer.mul_left count)
  · intro j x read divides value
    have divides := divides _ (pow_dvd_signedInt.mpr (Nat.dvd_mul_left _ count))
    rcases shown_or_farther finite some coarsest whole read divides value with same | farther
    · rw [same]
    · exact farther.le

theorem eq_shown_of_briefest (read : IsDouble (Numeral.ofInt k) bits) (briefest : Briefest bits k) :
    k = signedInt negative (count * 10 ^ (power - places double)) := by
  have shown := shown_read finite some coarsest whole
  have value := rational_of_finite finite
  have divides := briefest.coarsest _ _ shown (pow_dvd_signedInt.mpr (Nat.dvd_mul_left _ count))
  apply (shown_or_farther finite some coarsest whole read divides value).resolve_right
  refine not_lt.mpr (briefest.nearest _ _ shown (fun zeros divides' => ?_) value)
  exact (briefest_shown finite some coarsest whole).coarsest _ _ read divides'

end Shown

/-- An integer that is read as a double is shown again just if it is the briefest of those. -/
theorem isInteger_doubleText_iff (integer : IsInteger word k) (other : k ≠ 0)
    (read : IsDouble word bits) : IsInteger (doubleText bits) k ↔ Briefest bits k := by
  obtain ⟨negative, m, finite⟩ := finite_of_isDouble read
  have some := significand_of_integer finite integer other read
  have inside := (isDouble_iff_holds finite some integer).mp read
  have read := (isDouble_iff_holds finite some (isInteger_ofInt k)).mpr inside
  obtain ⟨n, -, held⟩ := inside
  obtain ⟨count, power, coarsest, -⟩ := @decimal_coarsest double m some
  have whole := coarsest.coarsest _ _ held
  have shown := isInteger_signedInt negative
    (Numeral.number_ofNat (count * 10 ^ (power - places double)))
  rw [Numeral.value_ofNat, ← doubleText_coarsest finite some coarsest whole] at shown
  constructor
  · intro same
    rw [same.unique shown]
    exact briefest_shown finite some coarsest whole
  · intro briefest
    rwa [eq_shown_of_briefest finite some coarsest whole read briefest]

end Doubles

section Texts

variable {word escaper : Text} {k : Int}

theorem IsInteger.no_backslash (integer : IsInteger word k) : backslash ∉ word := by
  intro member
  rcases integer.member _ member with sign | digit
  · exact absurd sign (by decide)
  · exact absurd digit (by decide)

theorem IsInteger.number_or_negative (integer : IsInteger word k) :
    IsNumber word ∧ k = Numeral.value word ∨
      ∃ digits, word = minus :: digits ∧ IsNumber digits := by
  cases integer with
  | plain number => exact .inl ⟨number, rfl⟩
  | negative number => exact .inr ⟨_, rfl, number⟩

theorem ten_mul_value_le (digits : Text) (nonempty : escaper ≠ []) :
    10 * Numeral.value digits ≤ Numeral.value (escaper ++ digits ++ escaper) := by
  have more : 10 ≤ 10 ^ escaper.length :=
    Nat.le_self_pow (List.length_pos_iff.mpr nonempty).ne' 10
  rw [Numeral.value_append, Numeral.value_append]
  calc
    10 * Numeral.value digits ≤ 10 ^ escaper.length * Numeral.value digits :=
      Nat.mul_le_mul_right _ more
    _ = Numeral.value digits * 10 ^ escaper.length := Nat.mul_comm _ _
    _ ≤ (Numeral.value escaper * 10 ^ digits.length + Numeral.value digits) *
        10 ^ escaper.length := Nat.mul_le_mul_right _ (Nat.le_add_left _ _)
    _ ≤ _ := Nat.le_add_right _ _

/-- An integer between escapers is no integer, or another one. -/
theorem not_isInteger_escape (integer : IsInteger word k) (other : k ≠ 0) (escaper : Text) :
    ¬ IsInteger (Quoted.escape escaper word) k := by
  intro shown
  have plain := shown.no_backslash
  cases escaper with
  | nil => exact plain (List.mem_append_right _ List.mem_cons_self)
  | cons first others =>
      rw [Quoted.escape, Quoted.wrap] at plain
      have same : Quoted.guarded first others word = word :=
        Quoted.guarded_plain fun member =>
          plain (List.mem_append_left _ (List.mem_append_right _ member))
      rw [Quoted.escape, Quoted.wrap, same] at shown
      rcases shown.number_or_negative with ⟨number, value⟩ | ⟨digits, parts, number⟩
      · rcases integer.number_or_negative with ⟨-, value'⟩ | ⟨digits, rfl, -⟩
        · have more := ten_mul_value_le word (List.cons_ne_nil first others)
          omega
        · have digit := number.digits minus (List.mem_append_left _
            (List.mem_append_right _ List.mem_cons_self))
          exact absurd digit (by decide)
      · -- The escaper behind the text begins with the sign as well.
        obtain ⟨rfl, rest⟩ := List.cons.inj parts
        have digit := number.digits minus (rest ▸ List.mem_append_right _ List.mem_cons_self)
        exact absurd digit (by decide)

end Texts

section Shown

variable {f : Formatter} {home : Zone} {escaper word : Text} {k : Int}

theorem format_text (t : Text) :
    f.format home (.text t) escaper = Quoted.escape escaper t := rfl

/-- An integer is shown as itself exactly when it has 64 bits, or is the briefest of those that are
read as its double. -/
theorem shows_integer_iff (f : Formatter) (home : Zone) (escaper : Text)
    (integer : IsInteger word k) :
    IsInteger (f.format home (value word) escaper) k ↔
      (-2 ^ 63 ≤ k ∧ k ≤ 2 ^ 63 - 1) ∨ ∃ bits, IsDouble word bits ∧ Briefest bits k := by
  by_cases inside : -2 ^ 63 ≤ k ∧ k ≤ 2 ^ 63 - 1
  · have exactly : (Int64.ofInt k).toInt = k := Int64.toInt_ofInt_of_le inside.1 (by omega)
    rw [value_of_int64 ⟨k, integer, inside.1, inside.2, rfl⟩, format_int, exactly]
    exact iff_of_true (isInteger_ofInt k) (.inl inside)
  · have other : k ≠ 0 := by
      rintro rfl
      exact inside (by decide)
    have noInt : ∀ n, ¬IsInt64 word n := by
      rintro n ⟨j, integer', low, high, -⟩
      obtain rfl := integer.unique integer'
      exact inside ⟨low, high⟩
    rw [or_iff_right inside]
    by_cases double : ∃ bits, IsDouble word bits
    · obtain ⟨bits, read⟩ := double
      rw [value_of_double noInt read, format_double, isInteger_doubleText_iff integer other read]
      refine ⟨fun briefest => ⟨bits, read, briefest⟩, ?_⟩
      rintro ⟨bits', read', briefest⟩
      obtain rfl : bits' = bits := Option.some.inj
        ((double_eq_some.mpr read').symm.trans (double_eq_some.mpr read))
      exact briefest
    · obtain ⟨d, written, -⟩ := integer.written
      have outside : ¬Decimal.InRange d.rational := by
        intro inRange
        obtain ⟨-, found⟩ := Decimal.nearestDouble_of_inRange written.digits.digits inRange
        exact double ⟨_, d, written, (Decimal.nearestDouble_eq_some written.digits.digits).mp found⟩
      rw [value_out_of_range written outside, format_text]
      apply iff_of_false (not_isInteger_escape integer other escaper)
      rintro ⟨bits, read, -⟩
      exact double ⟨bits, read⟩

/-- The first integer beyond 64 bits is shown in fewer digits than it has. -/
theorem shows_other_integer : IsInteger (ascii "9223372036854775808") (2 ^ 63) ∧
    ({} : Formatter).format Zone.universal (value (ascii "9223372036854775808")) [39] =
      ascii "9223372036854776000" ∧
    ¬ IsInteger (({} : Formatter).format Zone.universal
      (value (ascii "9223372036854775808")) [39]) (2 ^ 63) := by
  have integer : IsInteger (ascii "9223372036854775808") (2 ^ 63) := integer_eq_some.mp rfl
  have shown : IsInteger (ascii "9223372036854776000") 9223372036854776000 :=
    integer_eq_some.mp rfl
  rw [value_beyond, format_double, doubleText_beyond]
  refine ⟨integer, rfl, fun same => ?_⟩
  exact absurd (same.unique shown) (by decide)

theorem shows_integer_with_zeros :
    IsInteger (ascii "9223372036854776000") 9223372036854776000 ∧
      ∃ bits, IsDouble (ascii "9223372036854776000") bits ∧ Briefest bits 9223372036854776000 := by
  have integer : IsInteger (ascii "9223372036854776000") 9223372036854776000 :=
    integer_eq_some.mp rfl
  have read : double? (ascii "9223372036854776000") = some beyond := by decide +kernel
  have large : value (ascii "9223372036854776000") = .double beyond := by
    rw [value, read]
    rfl
  have shown := (shows_integer_iff {} Zone.universal [39] integer).mp
  rw [large, format_double, doubleText_beyond] at shown
  exact ⟨integer, (shown integer).resolve_left (by decide)⟩

end Shown

end Argument

end BoundSql

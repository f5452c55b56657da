import BoundSql.Proofs.ShortestDigits
import BoundSql.Proofs.SignificantDigits

/-!
Finite numbers are shown without loss. At either width a text is read, as an exact decimal that is
rounded to the nearest pattern, as the number that it was made from and as no other one. No decimal
with fewer digits is: a coarser one inside the interval of the number would have been found, and
between a shorter one and what is shown there would be a coarser power of ten.
-/

namespace BoundSql

open Text Binary
open Template (IsNumber)

-- Powers are the built-in ones, whatever else is imported.
attribute [local instance (high)] instPowNat

namespace Shortest.Interval

variable {f : Format} {m : Magnitude} {count power : Nat}

theorem Within.between {a b y : ℚ} (first : Within f m a) (last : Within f m b) (above : a ≤ y)
    (below : y ≤ b) : Within f m y := by
  refine ⟨first.least.trans above, below.trans last.most, ?_⟩
  rintro (low | high)
  · exact first.even (.inl (le_antisymm (low ▸ above) first.least))
  · exact last.even (.inr (le_antisymm last.most (high ▸ below)))

theorem pos_of_within (some : m.significand ≠ 0) {y : ℚ} (within : Within f m y) : 0 < y := by
  have one : (1 : ℚ) ≤ m.significand := by exact_mod_cast Nat.pos_of_ne_zero some
  have down := reach_le f m
  have least := within.least
  linarith

theorem Coarsest.mod_ten (coarsest : Coarsest (ofMagnitude f m) count power) : count % 10 ≠ 0 := by
  intro last
  have coarser := coarsest.inside
  rw [← Nat.div_mul_cancel (Nat.dvd_of_mod_eq_zero last), Nat.mul_assoc, ← Nat.pow_succ'] at coarser
  exact absurd (coarsest.coarsest _ _ coarser) (Nat.not_succ_le_self power)

/-- A multiple of a power of ten in last places of a number. -/
theorem scaled_power (n : Nat) {power : Nat} {exponent : Int}
    (same : exponent + places f = power) :
    (n * 10 ^ exponent * 2 ^ f.depth / 2 ^ m.shift : ℚ) = (n * 10 ^ power : Nat) / place f m := by
  have ten : (10 : ℚ) ≠ 0 := by norm_num
  have down : exponent = power - places f := by omega
  rw [← scaled_units, down, zpow_sub₀ ten, zpow_natCast, zpow_natCast, ← mul_div_assoc]
  push_cast
  rfl

/-- No number inside is a multiple of a coarser power of ten, also if it is a fraction of what the
interval is scaled by. -/
theorem Coarsest.le_power (some : m.significand ≠ 0)
    (coarsest : Coarsest (ofMagnitude f m) count power) {n : Nat} {exponent : Int}
    (within : Within f m (n * 10 ^ exponent * 2 ^ f.depth / 2 ^ m.shift)) :
    exponent + places f ≤ power := by
  rcases Int.lt_or_le (exponent + places f) 0 with fraction | natural
  · omega
  · obtain ⟨power', same⟩ := Int.eq_ofNat_of_zero_le natural
    rw [scaled_power n same] at within
    have least := coarsest.coarsest _ _ ((holds_iff_within some).mpr within)
    omega

theorem mul_zpow_le {n digits : Nat} {low high : Int} (fewer : n < 10 ^ digits)
    (coarse : low + digits ≤ high) : (n * 10 ^ low : ℚ) ≤ 10 ^ high := by
  have ten : (10 : ℚ) ≠ 0 := by norm_num
  have power : (0 : ℚ) ≤ 10 ^ low := zpow_nonneg (by norm_num) _
  calc
    (n * 10 ^ low : ℚ) ≤ 10 ^ digits * 10 ^ low :=
      mul_le_mul_of_nonneg_right (by exact_mod_cast fewer.le) power
    _ = 10 ^ (low + digits : ℤ) := by rw [zpow_add₀ ten, zpow_natCast, mul_comm]
    _ ≤ 10 ^ high := zpow_le_zpow_right₀ (by norm_num) coarse

/-- What the search finds has no more digits than any other decimal inside. -/
theorem Coarsest.fewest (some : m.significand ≠ 0)
    (coarsest : Coarsest (ofMagnitude f m) count power) {n digits : Nat} {exponent : Int}
    (within : Within f m (n * 10 ^ exponent * 2 ^ f.depth / 2 ^ m.shift))
    (fewer : n < 10 ^ digits) : count < 10 ^ digits := by
  by_contra more
  have more := Nat.le_of_not_lt more
  have scale := place_pos f m
  -- This power of ten is between the number of fewer digits and what was found.
  have above : (n * 10 ^ exponent * 2 ^ f.depth / 2 ^ m.shift : ℚ) ≤
      (1 * 10 ^ (digits + power) : Nat) / place f m := by
    have coarse := coarsest.le_power some within
    have size := mul_zpow_le fewer (show exponent + digits ≤ (digits + power : Nat) - places f by
      omega)
    have unit := scaled_power (f := f) (m := m) 1 (Int.sub_add_cancel (digits + power : Nat) _)
    rw [← unit, Nat.cast_one, one_mul]
    gcongr
  have below : ((1 * 10 ^ (digits + power) : Nat) / place f m : ℚ) ≤
      (count * 10 ^ power : Nat) / place f m := by
    have whole : 1 * 10 ^ (digits + power) ≤ count * 10 ^ power := by
      rw [Nat.one_mul, Nat.pow_add]
      exact Nat.mul_le_mul_right _ more
    gcongr
  have inside := (holds_iff_within some).mp coarsest.inside
  have coarser := (holds_iff_within some).mpr (within.between inside above below)
  have none := coarsest.coarsest _ _ coarser
  have positive := pos_of_within some within
  have zero : n = 0 := by
    obtain rfl : digits = 0 := by omega
    exact Nat.lt_one_iff.mp fewer
  simp [zero] at positive

end Shortest.Interval

namespace Shortest

open Decimal BoundSql.Shortest.Interval

variable {f : Format} {bits : Nat} {negative : Bool} {m : Magnitude}

theorem first_ofNat {n : Nat} (positive : 0 < n) :
    (Numeral.ofNat n).head? ≠ some Text.zero := by
  intro first
  obtain ⟨rest, parts⟩ := List.head?_eq_some_iff.mp first
  have value := Numeral.value_ofNat n
  rw [parts, Numeral.ofNat_eq_zero parts] at value
  exact positive.ne value

theorem fixed_decimal (f : Format) (negative : Bool) (m : Magnitude) :
    IsFixed negative (decimal f negative m).positional := by
  by_cases none : m.significand = 0
  · obtain ⟨_, shift⟩ := m
    obtain rfl : _ = 0 := none
    rw [decimal_zero]
    exact .parts Template.number_zero (fun rest same => (List.cons.inj same).2.symm) .none
  · obtain ⟨count, power, coarsest, same⟩ := @decimal_coarsest f m none
    have inside := pos_of_holds (proper_ofMagnitude none) coarsest.inside
    have number := Numeral.number_ofNat count
    have last := mt (Numeral.value_mod_ten number).mpr
    rw [Numeral.value_ofNat] at last
    rw [same negative]
    exact fixed_positional (d := ⟨negative, Numeral.ofNat count, power - places f⟩) number
      (first_ofNat (Nat.pos_of_mul_pos_right inside)) fun _ => last coarsest.mod_ten

/-- What is shown of a finite pattern is written in fixed notation, with a minus just if the highest
bit is set. It is read as this pattern alone, and nothing that is has fewer digits. -/
structure IsLossless (f : Format) (bits : Nat) (t : Text) : Prop where
  fixed : IsFixed (decide (f.signBit ≤ bits)) t
  shortest : ∃ d, Written t d ∧
    (∀ other, other < 2 * f.signBit → (IsNearest f d other ↔ other = bits)) ∧
    ∀ d', IsNumber d'.digits → IsNearest f d' bits → d.significant ≤ d'.significant

theorem fewest_decimal (proper : f.Proper) (small : bits < 2 * f.signBit)
    (finite : decode f bits = .finite negative m) {d : Decimal} (number : IsNumber d.digits)
    (nearest : IsNearest f d bits) : ∃ (n : Nat) (power : Int), n < 10 ^ d.significant ∧
      |(decimal f negative m).rational| = n * 10 ^ power := by
  by_cases none : m.significand = 0
  · refine ⟨0, 0, Nat.pow_pos (by decide), ?_⟩
    rw [decimal_rational_zero f negative none, abs_zero, Nat.cast_zero, zero_mul]
  · obtain ⟨count, power, coarsest, same⟩ := @decimal_coarsest f m none
    obtain ⟨n, exponent, fewer, size⟩ := (significant_le_iff number).mp (Nat.le_refl _)
    obtain ⟨-, within⟩ := (isNearest_iff_within proper small finite).mp nearest
    rw [size] at within
    refine ⟨count, power - places f, coarsest.fewest none within fewer, ?_⟩
    rw [same, abs_rational, quotient_eq, Numeral.value_ofNat]

theorem text_isLossless (proper : f.Proper) (small : bits < 2 * f.signBit)
    (finite : decode f bits = .finite negative m) : IsLossless f bits (text f bits) := by
  obtain ⟨d, written, sign, value⟩ := written_positional (number_decimal f negative m)
  have nearest := (isNearest_decimal proper small finite).congr sign value
  rw [text_finite finite]
  refine ⟨?_, d, written, fun other small' => ⟨?_, ?_⟩, fun d' number nearest' => ?_⟩
  · rw [sign_of_finite finite small]
    exact fixed_decimal f negative m
  · exact fun another => nearest.unique another small small'
  · rintro rfl
    exact nearest
  · have fewest := fewest_decimal proper small finite number nearest'
    rw [← value] at fewest
    exact (significant_le_iff written.digits).mpr fewest

/-- Doubles and singles are shown without loss, all that are finite. -/
theorem texts_lossless :
    (∀ (bits : UInt64) negative m, decode double bits.toNat = .finite negative m →
      IsLossless double bits.toNat (doubleText bits)) ∧
    ∀ (bits : UInt32) negative m, decode single bits.toNat = .finite negative m →
      IsLossless single bits.toNat (singleText bits) := by
  constructor
  · intro bits negative m finite
    exact text_isLossless proper_double bits.toNat_lt finite
  · intro bits negative m finite
    exact text_isLossless proper_single bits.toNat_lt finite

/-- The double nearest to a tenth. -/
def doubleTenth : UInt64 := 0x3FB999999999999A

/-- The single nearest to a tenth. -/
def singleTenth : UInt32 := 0x3DCCCCCD

theorem text_tenth :
    doubleText doubleTenth = ascii "0.1" ∧ singleText singleTenth = ascii "0.1" := by
  have finite : decode double doubleTenth.toNat = .finite false ⟨7205759403792794, 1018⟩ := rfl
  have finite' : decode single singleTenth.toNat = .finite false ⟨13421773, 122⟩ := rfl
  have found : (ofMagnitude double ⟨7205759403792794, 1018⟩).coarsest 1076 = (1, 1075) := by
    decide +kernel
  have found' : (ofMagnitude single ⟨13421773, 122⟩).coarsest 151 = (1, 150) := by decide +kernel
  constructor
  · have coarsest := coarsest_of_upTo (proper_ofMagnitude (by decide)) found (by decide)
    rw [doubleText, text_finite finite, decimal_of_coarsest (by decide) coarsest]
    decide +kernel
  · have coarsest := coarsest_of_upTo (proper_ofMagnitude (by decide)) found' (by decide)
    rw [singleText, text_finite finite', decimal_of_coarsest (by decide) coarsest]
    decide +kernel

/-- The nearest to a tenth is shown as a tenth at both widths. -/
theorem texts_lossless_tenth :
    decode double doubleTenth.toNat = .finite false ⟨7205759403792794, 1018⟩ ∧
    decode single singleTenth.toNat = .finite false ⟨13421773, 122⟩ ∧
    IsLossless double doubleTenth.toNat (ascii "0.1") ∧
    IsLossless single singleTenth.toNat (ascii "0.1") := by
  refine ⟨rfl, rfl, ?_, ?_⟩
  · rw [← text_tenth.1]
    exact texts_lossless.1 doubleTenth _ _ rfl
  · rw [← text_tenth.2]
    exact texts_lossless.2 singleTenth _ _ rfl

end Shortest

end BoundSql

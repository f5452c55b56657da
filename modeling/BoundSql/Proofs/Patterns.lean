import BoundSql.Proofs.Nearest

/-!
Patterns of a binary format and the numbers that they stand for. A pattern is a sign, a field for
the shift and a fraction, and every finite one is the pattern of one canonical magnitude. A pattern
rounds a number when it is finite and no other is nearer, a tie going to the even pattern; with the
sign given there is only one such pattern, and it is the one that rounding finds.
-/

namespace BoundSql.Binary

-- Powers are the built-in ones, whatever else is imported.
attribute [local instance (high)] instPowNat

variable {f : Format}

section Decoding

variable {bits field fraction : Nat} {negative : Bool} {m : Magnitude}

theorem Format.signBit_eq : f.signBit = (f.topField + 1) * f.implicitBit := by
  have positive : 0 < 2 ^ f.exponentBits := Nat.two_pow_pos _
  rw [signBit, topField, implicitBit, Nat.pow_add, Nat.sub_add_cancel positive]

/-- The pattern with a sign, a field for the shift and a fraction. -/
def compose (f : Format) (negative : Bool) (field fraction : Nat) : Nat :=
  (if negative then f.signBit else 0) + (field * f.implicitBit + fraction)

theorem compose_eq : compose f negative field fraction =
    f.implicitBit * ((if negative then f.topField + 1 else 0) + field) + fraction := by
  cases negative <;> simp [compose, f.signBit_eq] <;> ring

theorem decode_compose (inside : field ≤ f.topField) (small : fraction < f.implicitBit) :
    decode f (compose f negative field fraction) =
      if field = f.topField then if fraction = 0 then .infinite negative else .nan
      else if field = 0 then .finite negative ⟨fraction, 0⟩
      else .finite negative ⟨f.implicitBit + fraction, field - 1⟩ := by
  have positive := f.implicitBit_pos
  have less : field * f.implicitBit + fraction < f.signBit := by
    have : field * f.implicitBit ≤ f.topField * f.implicitBit := Nat.mul_le_mul_right _ inside
    rw [f.signBit_eq, Nat.succ_mul]
    omega
  have sign : (compose f negative field fraction / f.signBit % 2 == 1) = negative := by
    cases negative with
    | false => simp [compose, Nat.div_eq_of_lt less]
    | true => simp [compose, Nat.add_div_left _ (Nat.zero_lt_of_lt less), Nat.div_eq_of_lt less]
  have middle : compose f negative field fraction / f.implicitBit % (f.topField + 1) = field := by
    rw [compose_eq, Nat.mul_add_div positive, Nat.div_eq_of_lt small, Nat.add_zero]
    cases negative <;> simp [Nat.mod_eq_of_lt (Nat.lt_succ_of_le inside)]
  have low : compose f negative field fraction % f.implicitBit = fraction := by
    rw [compose_eq, Nat.mul_add_mod, Nat.mod_eq_of_lt small]
  simp only [decode, sign, middle, low]

theorem compose_parts (small : bits < 2 * f.signBit) : bits =
    compose f (bits / f.signBit % 2 == 1) (bits / f.implicitBit % (f.topField + 1))
      (bits % f.implicitBit) := by
  have parts := Nat.div_add_mod bits f.implicitBit
  have fields := Nat.div_add_mod (bits / f.implicitBit) (f.topField + 1)
  have sign : bits / f.signBit = bits / f.implicitBit / (f.topField + 1) := by
    rw [Nat.div_div_eq_div_mul, f.signBit_eq, Nat.mul_comm]
  have two : bits / f.signBit < 2 := Nat.div_lt_of_lt_mul (by rwa [Nat.mul_comm])
  rw [← sign] at fields
  rw [compose_eq]
  conv_lhs => rw [← parts, ← fields]
  rcases Nat.lt_succ_iff_lt_or_eq.mp two with zero | one
  · simp [Nat.lt_one_iff.mp zero]
  · simp [one]

theorem signed_eq_compose (canonical : m.Canonical f) : signed f negative m =
    if m.significand < f.implicitBit then compose f negative 0 m.significand
    else compose f negative (m.shift + 1) (m.significand - f.implicitBit) := by
  split
  · next low =>
      have none : m.shift = 0 := canonical.normal.resolve_right (by omega)
      rw [signed, compose, Magnitude.pattern, none]
  · next full =>
      rw [signed, compose, Magnitude.pattern, Nat.succ_mul]
      omega

theorem decode_signed (canonical : m.Canonical f) (inside : m.pattern f < f.infinity) :
    decode f (signed f negative m) = .finite negative m := by
  have some : 0 < f.topField := by
    rw [Format.infinity] at inside
    exact Nat.pos_of_mul_pos_right (Nat.zero_lt_of_lt inside)
  rw [signed_eq_compose canonical]
  split
  · next low =>
      have none : m.shift = 0 := canonical.normal.resolve_right (by omega)
      rw [decode_compose some.le low, if_neg some.ne, if_pos rfl, ← none]
  · next full =>
      have fields : (m.shift + 1) * f.implicitBit < f.topField * f.implicitBit := by
        rw [Magnitude.pattern, Format.infinity] at inside
        rw [Nat.succ_mul]
        omega
      have below : m.shift + 1 < f.topField := Nat.lt_of_mul_lt_mul_right fields
      have small := canonical.small
      have whole : f.implicitBit + (m.significand - f.implicitBit) = m.significand := by omega
      rw [decode_compose below.le (by omega), if_neg below.ne, if_neg (Nat.succ_ne_zero _), whole,
        Nat.add_sub_cancel]

theorem Format.even_implicitBit (fractions : 0 < f.fractionBits) : 2 ∣ f.implicitBit :=
  Dvd.dvd.trans (by simp) (Nat.pow_dvd_pow 2 fractions)

theorem signed_lt (inside : m.pattern f < f.infinity) : signed f negative m < 2 * f.signBit := by
  have below : f.infinity < f.signBit := by
    rw [Format.infinity, f.signBit_eq, Nat.succ_mul]
    exact Nat.lt_add_of_pos_right f.implicitBit_pos
  rw [signed]
  split <;> omega

/-- What is known of a finite pattern: it stands for a number of the format, and it is the pattern
of that number. -/
structure Standing (f : Format) (bits : Nat) (negative : Bool) (m : Magnitude) : Prop where
  canonical : m.Canonical f
  inside : m.pattern f < f.infinity
  parity : 0 < f.fractionBits → bits % 2 = m.significand % 2
  whole : bits < 2 * f.signBit → bits = signed f negative m

theorem standing_of_decode (finite : decode f bits = .finite negative m) :
    Standing f bits negative m := by
  have small : bits % f.implicitBit < f.implicitBit := Nat.mod_lt _ f.implicitBit_pos
  have field : bits / f.implicitBit % (f.topField + 1) < f.topField + 1 :=
    Nat.mod_lt _ (Nat.succ_pos _)
  have parity (fractions : 0 < f.fractionBits) : bits % f.implicitBit % 2 = bits % 2 :=
    Nat.mod_mod_of_dvd bits (f.even_implicitBit fractions)
  have parts := @compose_parts f bits
  unfold decode at finite
  simp only at finite
  split at finite
  · split at finite <;> cases finite
  next other =>
  have below : (bits / f.implicitBit % (f.topField + 1) + 1) * f.implicitBit ≤ f.infinity :=
    Nat.mul_le_mul_right _ (by omega)
  rw [Nat.succ_mul] at below
  split at finite
  · next none =>
      cases finite
      have canonical : Magnitude.Canonical f ⟨bits % f.implicitBit, 0⟩ :=
        ⟨by simp only; omega, .inl rfl⟩
      refine ⟨canonical, ?_, fun fractions => (parity fractions).symm, fun inside => ?_⟩
      · rw [none] at below
        simp only [Magnitude.pattern]
        omega
      · rw [none] at parts
        rw [signed_eq_compose canonical, if_pos small]
        exact parts inside
  · next some =>
      cases finite
      have back : bits / f.implicitBit % (f.topField + 1) - 1 + 1 =
          bits / f.implicitBit % (f.topField + 1) := by omega
      have canonical : Magnitude.Canonical f ⟨f.implicitBit + bits % f.implicitBit,
          bits / f.implicitBit % (f.topField + 1) - 1⟩ :=
        ⟨by simp only; omega, .inr (Nat.le_add_right _ _)⟩
      refine ⟨canonical, ?_, fun fractions => ?_, fun inside => ?_⟩
      · simp only [Magnitude.pattern]
        rw [← back, Nat.succ_mul] at below
        omega
      · have even := Nat.mod_eq_zero_of_dvd (f.even_implicitBit fractions)
        have same := parity fractions
        simp only
        omega
      · rw [signed_eq_compose canonical, if_neg (by simp only; omega), back,
          Nat.add_sub_cancel_left]
        exact parts inside

end Decoding

theorem Magnitude.parity_carried (fractions : 0 < f.fractionBits) (m : Magnitude) :
    (m.carried f).significand % 2 = m.significand % 2 := by
  unfold carried
  split
  · next outgrown =>
      rw [outgrown, Nat.mul_mod_right]
      exact Nat.mod_eq_zero_of_dvd (f.even_implicitBit fractions)
  · rfl

theorem Magnitude.Canonical.units_lt {m k : Magnitude} (small : m.Canonical f)
    (large : k.Canonical f) (less : m.shift < k.shift) : m.units < k.units := by
  have full := large.normal.resolve_left (by omega)
  exact Nat.lt_of_lt_of_le (small.units_lt_place less) (Nat.mul_le_mul_right _ full)

theorem Magnitude.Canonical.eq_of_units {m k : Magnitude} (one : m.Canonical f)
    (other : k.Canonical f) (same : m.units = k.units) : m = k := by
  rcases Nat.lt_trichotomy m.shift k.shift with less | shift | more
  · exact absurd same (one.units_lt other less).ne
  · obtain ⟨significand, _⟩ := m
    obtain ⟨significand', _⟩ := k
    obtain rfl : _ = _ := shift
    have significands : significand = significand' :=
      Nat.eq_of_mul_eq_mul_right (Nat.two_pow_pos _) same
    rw [significands]
  · exact absurd same (other.units_lt one more).ne'

def withSign (negative : Bool) (x : ℚ) : ℚ := if negative then -x else x

/-- The number that a finite pattern stands for. -/
def rational? (f : Format) (bits : Nat) : Option ℚ :=
  match decode f bits with
  | .finite negative m => some (withSign negative m.units / 2 ^ f.depth)
  | _ => none

/-- Every other number that a pattern stands for is farther away from `x`, or it is as far and the
one pattern is even and the other odd. -/
def Rounds (f : Format) (x : ℚ) (bits : Nat) : Prop :=
  ∃ y, rational? f bits = some y ∧ ∀ other z, rational? f other = some z → z ≠ y →
    |x - y| < |x - z| ∨ |x - y| = |x - z| ∧ bits % 2 = 0 ∧ other % 2 = 1

section Signs

variable {x : ℚ} {m k : Magnitude}

theorem withSign_zero (negative : Bool) : withSign negative 0 = 0 := by
  cases negative <;> simp [withSign]

theorem withSign_sub (negative : Bool) (x y : ℚ) :
    |withSign negative x - withSign negative y| = |x - y| := by
  cases negative with
  | false => rfl
  | true => rw [withSign, withSign, if_pos rfl, if_pos rfl, ← neg_sub', abs_neg]

theorem abs_withSign (negative : Bool) (low : 0 ≤ x) : |withSign negative x| = x := by
  have same := withSign_sub negative x 0
  rwa [withSign_zero, sub_zero, sub_zero, abs_of_nonneg low] at same

/-- A number of the other sign is farther away than zero is. -/
theorem withSign_apart {negative other : Bool} (apart : other ≠ negative) {x y : ℚ} (low : 0 ≤ x)
    (low' : 0 ≤ y) : |withSign negative x - withSign other y| = x + y := by
  cases negative <;> cases other
  · exact absurd rfl apart
  · simp only [withSign, if_pos, if_neg Bool.false_ne_true, sub_neg_eq_add]
    exact abs_of_nonneg (by linarith)
  · simp only [withSign, if_pos, if_neg Bool.false_ne_true]
    rw [← neg_add', abs_neg, abs_of_nonneg (by linarith)]
  · exact absurd rfl apart

/-- What rounding finds is also the best among the numbers of both signs. -/
theorem Nearby.best_signed (nearby : Nearby f x m) (low : 0 ≤ x) (canonical : k.Canonical f)
    (negative other : Bool) (apart : withSign other k.units ≠ withSign negative m.units) :
    |withSign negative x - withSign negative m.units| <
        |withSign negative x - withSign other k.units| ∨
      |withSign negative x - withSign negative m.units| =
          |withSign negative x - withSign other k.units| ∧
        m.significand % 2 = 0 ∧ k.significand % 2 = 1 := by
  by_cases sign : other = negative
  · subst sign
    rw [withSign_sub, withSign_sub]
    refine (nearby.best canonical).resolve_left fun same => apart ?_
    rw [same]
  · -- Zero is nearer than any number of the other sign, and no tie with zero goes away from it.
    have low' : (0 : ℚ) ≤ k.units := Nat.cast_nonneg _
    have zero : Magnitude.Canonical f ⟨0, 0⟩ :=
      ⟨Nat.mul_pos Nat.two_pos f.implicitBit_pos, .inl rfl⟩
    rw [withSign_sub, withSign_apart sign low low']
    left
    rcases nearby.best zero with none | nearer | ⟨-, -, odd⟩
    · have none : m.units = 0 := by simpa [Magnitude.units] using none.symm
      have some : (k.units : ℚ) ≠ 0 := by
        intro none'
        apply apart
        rw [none, none', Nat.cast_zero, withSign_zero, withSign_zero]
      rw [none, Nat.cast_zero, sub_zero, abs_of_nonneg low]
      have := lt_of_le_of_ne low' some.symm
      linarith
    · simp only [Magnitude.units, Nat.zero_mul, Nat.cast_zero, sub_zero] at nearer
      rw [abs_of_nonneg low] at nearer
      exact nearer.trans_le (by linarith)
    · cases odd

end Signs

section Rounds

variable {x y : ℚ} {bits : Nat} {negative : Bool} {m : Magnitude}

theorem rational_of_finite (finite : decode f bits = .finite negative m) :
    rational? f bits = some (withSign negative m.units / 2 ^ f.depth) := by
  rw [rational?, finite]

theorem rational_eq_some : rational? f bits = some y ↔ ∃ negative m,
    decode f bits = .finite negative m ∧ y = withSign negative m.units / 2 ^ f.depth := by
  unfold rational?
  cases decode f bits <;> simp [eq_comm]

/-- The pattern of what is nearby rounds the number, whatever its sign. -/
theorem rounds_of_nearby (nearby : Nearby f (x * 2 ^ f.depth) m) (low : 0 ≤ x)
    (fractions : 0 < f.fractionBits) (finite : isFinite f m = true) (negative : Bool) :
    decode f (signed f negative m) = .finite negative (m.carried f) ∧
      Rounds f (withSign negative x) (signed f negative m) := by
  have same : signed f negative m = signed f negative (m.carried f) := by
    rw [signed, signed, m.pattern_carried]
  have inside : (m.carried f).pattern f < f.infinity := by
    rw [m.pattern_carried]
    exact of_decide_eq_true finite
  have decoded : decode f (signed f negative m) = .finite negative (m.carried f) := by
    rw [same]
    exact decode_signed nearby.canonical inside
  refine ⟨decoded, _, rational_of_finite decoded, fun other z stands apart => ?_⟩
  obtain ⟨negative', k, decoded', rfl⟩ := rational_eq_some.mp stands
  have standing := standing_of_decode decoded
  have standing' := standing_of_decode decoded'
  have scale : (0 : ℚ) < 2 ^ f.depth := by positivity
  have unit : withSign negative x = withSign negative (x * 2 ^ f.depth) / 2 ^ f.depth := by
    cases negative <;> simp [withSign, neg_div, mul_div_cancel_right₀ _ scale.ne']
  have low : 0 ≤ x * 2 ^ f.depth := by positivity
  rw [m.units_carried] at apart ⊢
  rw [unit, ← sub_div, ← sub_div, abs_div, abs_div, abs_of_pos scale,
    div_lt_div_iff_of_pos_right scale, div_left_inj' scale.ne', standing.parity fractions,
    standing'.parity fractions, m.parity_carried fractions]
  apply nearby.best_signed low standing'.canonical
  intro same
  exact apart (by rw [same])

/-- Rounding finds the pattern that rounds a number, whatever its sign. -/
theorem rounds_nearest {num den : Nat} (positive : 0 < den) (fractions : 0 < f.fractionBits)
    (finite : isFinite f (nearest f num den) = true) (negative : Bool) :
    decode f (signed f negative (nearest f num den)) =
        .finite negative ((nearest f num den).carried f) ∧
      Rounds f (withSign negative (num / den)) (signed f negative (nearest f num den)) :=
  rounds_of_nearby (nearest_nearby f num positive) (by positivity) fractions finite negative

/-- Zero is rounded by the zeros of both signs. -/
theorem rounds_zero (finite : decode f bits = .finite negative m) (none : m.significand = 0) :
    Rounds f 0 bits := by
  have value : rational? f bits = some 0 := by
    rw [rational_of_finite finite, Magnitude.units, none, Nat.zero_mul, Nat.cast_zero,
      withSign_zero, zero_div]
  refine ⟨0, value, fun other z _ apart => .inl ?_⟩
  rw [sub_zero, abs_zero, zero_sub, abs_neg]
  exact abs_pos.mpr apart

/-- A number is rounded by one pattern of each sign at most. -/
theorem rounds_unique {bits' : Nat} {m' : Magnitude} (rounds : Rounds f x bits)
    (rounds' : Rounds f x bits') (finite : decode f bits = .finite negative m)
    (finite' : decode f bits' = .finite negative m') (small : bits < 2 * f.signBit)
    (small' : bits' < 2 * f.signBit) : bits = bits' := by
  obtain ⟨y, stands, best⟩ := rounds
  obtain ⟨y', stands', best'⟩ := rounds'
  have same : y = y' := by
    by_contra apart
    rcases best bits' y' stands' (Ne.symm apart) with nearer | ⟨tie, even, odd⟩
    · rcases best' bits y stands apart with nearer' | ⟨tie', -, -⟩
      · exact absurd nearer nearer'.asymm
      · exact absurd tie' nearer.ne'
    · rcases best' bits y stands apart with nearer' | ⟨-, even', -⟩
      · exact absurd tie nearer'.ne'
      · omega
  have standing := standing_of_decode finite
  have standing' := standing_of_decode finite'
  rw [rational_of_finite finite, Option.some.injEq] at stands
  rw [rational_of_finite finite', Option.some.injEq, ← same, ← stands] at stands'
  have scale : (2 : ℚ) ^ f.depth ≠ 0 := by positivity
  have signed := (div_left_inj' scale).mp stands'
  have units : (m.units : ℚ) = m'.units := by
    cases negative <;> simpa [withSign, eq_comm] using signed
  have magnitudes : m = m' :=
    standing.canonical.eq_of_units standing'.canonical (by exact_mod_cast units)
  rw [standing.whole small, standing'.whole small', magnitudes]

end Rounds

end BoundSql.Binary

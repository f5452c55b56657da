import BoundSql.Proofs.Json
import BoundSql.Proofs.Letters
import BoundSql.Proofs.Patterns

/-!
Decimal texts and the doubles that they are read as. The grammar is a sign, digits with a point
after, among or before them, and an exponent; the reader accepts just that. The double of a decimal
is the finite one nearest to its exact value, and there is one unless the value is so great that
it would be infinite, or so small that it would be zero.
-/

namespace BoundSql.Decimal

open Text
open Template (IsNumber NoDigitAhead no_digit_ahead_nil no_digit_ahead_cons takeWhile_digits
  dropWhile_digits digits_takeWhile)

-- Powers are the built-in ones, whatever else is imported.
attribute [local instance (high)] instPowNat

inductive IsSign : Text → Bool → Prop
  | none : IsSign [] false
  | plus : IsSign [plus] false
  | minus : IsSign [minus] true

/-- Digits before and after a point, of which one kind may be missing, or no point at all. -/
inductive IsMantissa : Text → Text → Text → Prop
  | whole {digits} (number : IsNumber digits) : IsMantissa digits digits []
  | places {digits places} (number : IsNumber digits)
      (others : ∀ c ∈ places, isDigit c = true) :
      IsMantissa (digits ++ point :: places) digits places
  | fraction {places} (number : IsNumber places) : IsMantissa (point :: places) [] places

/-- A power of ten, behind the letter `e` of either case, or none. -/
inductive IsExponent : Text → Int → Prop
  | none : IsExponent [] 0
  | power {c s negative digits} (letter : c = 101 ∨ c = 69) (sign : IsSign s negative)
      (number : IsNumber digits) :
      IsExponent (c :: (s ++ digits))
        (if negative then -(Numeral.value digits : Int) else Numeral.value digits)

inductive Written : Text → Decimal → Prop
  | parts {s m e negative whole places n} (sign : IsSign s negative)
      (mantissa : IsMantissa m whole places) (exponent : IsExponent e n) :
      Written (s ++ (m ++ e)) ⟨negative, whole ++ places, n - places.length⟩

section Reading

variable {t rest : Text}

theorem digits_eq_some {digits : Text} : digits? t = some digits ↔ IsNumber t ∧ digits = t := by
  unfold digits?
  constructor
  · intro read
    split at read
    · next all =>
        cases read
        simp only [bne_iff_ne, Bool.and_eq_true, List.all_eq_true] at all
        exact ⟨⟨all.1, all.2⟩, rfl⟩
    · cases read
  · rintro ⟨number, rfl⟩
    have all : (digits != [] && digits.all isDigit) = true := by
      simp only [bne_iff_ne, Bool.and_eq_true, List.all_eq_true]
      exact ⟨number.nonempty, number.digits⟩
    rw [if_pos all]

theorem signed_sign {s : Text} {negative : Bool} (sign : IsSign s negative)
    (bare : ∀ c ∈ t.head?, c ≠ minus ∧ c ≠ plus) : signed (s ++ t) = (negative, t) := by
  cases sign with
  | none =>
      cases t with
      | nil => rfl
      | cons c t =>
          obtain ⟨noMinus, noPlus⟩ := bare c rfl
          simp [signed, noMinus, noPlus]
  | plus => rfl
  | minus => rfl

theorem sign_of_signed {negative : Bool} (front : signed t = (negative, rest)) :
    ∃ s, IsSign s negative ∧ t = s ++ rest := by
  cases t with
  | nil =>
      cases front
      exact ⟨[], .none, rfl⟩
  | cons c t =>
      simp only [signed] at front
      split at front
      · next same =>
          cases front
          exact ⟨[minus], .minus, by rw [same]; rfl⟩
      split at front
      · next same =>
          cases front
          exact ⟨[plus], .plus, by rw [same]; rfl⟩
      · cases front
        exact ⟨[], .none, rfl⟩

theorem lower_eq_e {c : UInt8} : lower c = 101 ↔ c = 101 ∨ c = 69 := lower_eq_letter (by decide)

theorem number_bare (number : IsNumber t) (rest : Text) :
    ∀ c ∈ (t ++ rest).head?, c ≠ minus ∧ c ≠ plus := by
  obtain ⟨c, t, rfl⟩ := List.exists_cons_of_ne_nil number.nonempty
  rintro _ ⟨⟩
  have digit := number.digits c List.mem_cons_self
  constructor <;> rintro rfl <;> cases digit

theorem exponent_eq_some {n : Int} : exponent? t = some n ↔ IsExponent t n := by
  constructor
  · intro read
    cases t with
    | nil =>
        cases read
        exact .none
    | cons c t =>
        by_cases letter : lower c = 101
        · rw [exponent?, if_pos letter] at read
          cases front : signed t with
          | mk negative rest =>
              obtain ⟨s, sign, rfl⟩ := sign_of_signed front
              rw [front] at read
              obtain ⟨digits, found, same⟩ := Option.bind_eq_some_iff.mp read
              obtain ⟨number, rfl⟩ := digits_eq_some.mp found
              cases same
              exact .power (lower_eq_e.mp letter) sign number
        · rw [exponent?, if_neg letter] at read
          cases read
  · intro exponent
    cases exponent with
    | none => rfl
    | power letter sign number =>
        have bare := number_bare number []
        rw [List.append_nil] at bare
        rw [exponent?, if_pos (lower_eq_e.mpr letter), signed_sign sign bare]
        simp [digits_eq_some.mpr ⟨number, rfl⟩]

theorem exponent_apart {n : Int} (exponent : IsExponent t n) :
    ∀ c ∈ t.head?, isDigit c = false ∧ c ≠ point := by
  cases exponent with
  | none => simp
  | power letter =>
      rintro _ ⟨⟩
      rcases letter with rfl | rfl <;> decide

theorem fraction_apart (apart : ∀ c ∈ t.head?, isDigit c = false ∧ c ≠ point) :
    fraction t = ([], t) := by
  cases t with
  | nil => rfl
  | cons c t => rw [fraction, if_neg (apart c rfl).2]

theorem mantissa_read {m whole places : Text} (mantissa : IsMantissa m whole places)
    (apart : ∀ c ∈ rest.head?, isDigit c = false ∧ c ≠ point) :
    (m ++ rest).takeWhile isDigit = whole ∧
      fraction ((m ++ rest).dropWhile isDigit) = (places, rest) := by
  have ended : NoDigitAhead rest := fun c front => (apart c front).1
  have stop (t : Text) : NoDigitAhead (point :: t) := no_digit_ahead_cons.mpr (by decide)
  have after (places : Text) (others : ∀ c ∈ places, isDigit c = true) :
      fraction (point :: (places ++ rest)) = (places, rest) := by
    rw [fraction, if_pos rfl, takeWhile_digits others ended, dropWhile_digits others ended]
  cases mantissa with
  | whole number =>
      rw [takeWhile_digits number.digits ended, dropWhile_digits number.digits ended]
      exact ⟨rfl, fraction_apart apart⟩
  | places number others =>
      rw [List.append_assoc, List.cons_append, takeWhile_digits number.digits (stop _),
        dropWhile_digits number.digits (stop _)]
      exact ⟨rfl, after _ others⟩
  | fraction number => exact ⟨rfl, after _ number.digits⟩

theorem mantissa_of_read {whole places : Text} (digits : IsNumber (whole ++ places))
    (front : t.takeWhile isDigit = whole)
    (back : fraction (t.dropWhile isDigit) = (places, rest)) :
    ∃ m, IsMantissa m whole places ∧ t = m ++ rest := by
  have parts := List.takeWhile_append_dropWhile (p := isDigit) (l := t)
  rw [front] at parts
  cases later : t.dropWhile isDigit with
  | nil =>
      rw [later] at back parts
      cases back
      rw [List.append_nil] at digits
      exact ⟨whole, .whole digits, parts.symm⟩
  | cons c later' =>
      rw [later] at back parts
      simp only [fraction] at back
      split at back
      · next same =>
          cases back
          have others := digits_takeWhile later'
          have whole' : t = whole ++ point :: later'.takeWhile isDigit ++
              later'.dropWhile isDigit := by
            rw [← parts, same, List.append_assoc, List.cons_append,
              List.takeWhile_append_dropWhile]
          cases whole with
          | nil => exact ⟨_, .fraction digits, whole'⟩
          | cons d digits' =>
              have number : IsNumber (d :: digits') :=
                ⟨List.cons_ne_nil _ _, fun c member =>
                  digits.digits c (List.mem_append_left _ member)⟩
              exact ⟨_, .places number others, whole'⟩
      · cases back
        rw [List.append_nil] at digits
        exact ⟨whole, .whole digits, parts.symm⟩

theorem IsMantissa.digits {m whole places : Text} (mantissa : IsMantissa m whole places) :
    IsNumber (whole ++ places) := by
  cases mantissa with
  | whole number => rwa [List.append_nil]
  | places number others => exact number.append others
  | fraction number => exact number

theorem IsMantissa.bare {m whole places : Text} (mantissa : IsMantissa m whole places) :
    ∀ c ∈ (m ++ rest).head?, c ≠ minus ∧ c ≠ plus := by
  cases mantissa with
  | whole number => exact number_bare number _
  | places number =>
      rw [List.append_assoc]
      exact number_bare number _
  | fraction =>
      rintro _ ⟨⟩
      decide

/-- A text is read as a decimal exactly when it is written as one. -/
theorem read_eq_some {d : Decimal} : read? t = some d ↔ Written t d := by
  constructor
  · intro read
    unfold read? at read
    cases front : signed t with
    | mk negative u =>
        obtain ⟨s, sign, rfl⟩ := sign_of_signed front
        simp only [front] at read
        cases back : fraction (u.dropWhile isDigit) with
        | mk places rest =>
            simp only [back] at read
            obtain ⟨digits, found, read⟩ := Option.bind_eq_some_iff.mp read
            obtain ⟨n, exponent, same⟩ := Option.bind_eq_some_iff.mp read
            obtain ⟨number, rfl⟩ := digits_eq_some.mp found
            obtain ⟨m, mantissa, rfl⟩ := mantissa_of_read number rfl back
            cases same
            exact .parts sign mantissa (exponent_eq_some.mp exponent)
  · rintro ⟨sign, mantissa, exponent⟩
    obtain ⟨front, back⟩ := mantissa_read mantissa (exponent_apart exponent)
    unfold read?
    rw [signed_sign sign mantissa.bare]
    simp [front, back, digits_eq_some.mpr ⟨mantissa.digits, rfl⟩, exponent_eq_some.mpr exponent]

theorem Written.digits {d : Decimal} (written : Written t d) : IsNumber d.digits := by
  cases written with
  | parts _ mantissa _ => exact mantissa.digits

theorem Written.unique {d other : Decimal} (one : Written t d) (another : Written t other) :
    other = d :=
  Option.some.inj ((read_eq_some.mpr another).symm.trans (read_eq_some.mpr one))

end Reading

end BoundSql.Decimal

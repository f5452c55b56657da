import BoundSql.Template.Numbered

/-!
What the scan for tokens sees. A token is a number between two dollar signs, and the scan of a
text is known from the bytes at its front: a byte that is no dollar sign, a dollar sign that opens
no token, or a whole token.
-/

namespace BoundSql.Template

open Text

structure IsNumber (t : Text) : Prop where
  nonempty : t ≠ []
  digits : ∀ c ∈ t, isDigit c = true

theorem IsNumber.not_mem {digits : Text} (number : IsNumber digits) {b : UInt8}
    (other : isDigit b = false) : b ∉ digits := by
  intro member
  rw [number.digits b member] at other
  cases other

/-- A number that ends here has been read to its end. -/
def NoDigitAhead (t : Text) : Prop := ∀ c ∈ t.head?, isDigit c = false

theorem no_digit_ahead_nil : NoDigitAhead [] := by simp [NoDigitAhead]

theorem no_digit_ahead_cons {c : UInt8} {t : Text} :
    NoDigitAhead (c :: t) ↔ isDigit c = false := by
  simp [NoDigitAhead]

theorem no_digit_ahead_dropWhile (t : Text) : NoDigitAhead (t.dropWhile isDigit) := by
  intro c front
  have stopped := List.head?_dropWhile_not isDigit t
  rw [Option.mem_def.mp front] at stopped
  exact stopped

theorem no_digit_ahead_of_takeWhile {t : Text} (none : t.takeWhile isDigit = []) :
    NoDigitAhead t := by
  have same := List.takeWhile_append_dropWhile (p := isDigit) (l := t)
  rw [none, List.nil_append] at same
  exact same ▸ no_digit_ahead_dropWhile t

theorem takeWhile_digits {digits t : Text} (all : ∀ c ∈ digits, isDigit c = true)
    (ended : NoDigitAhead t) : (digits ++ t).takeWhile isDigit = digits := by
  rw [List.takeWhile_append_of_pos all]
  cases t with
  | nil => simp
  | cons c t => simp [no_digit_ahead_cons.mp ended]

theorem dropWhile_digits {digits t : Text} (all : ∀ c ∈ digits, isDigit c = true)
    (ended : NoDigitAhead t) : (digits ++ t).dropWhile isDigit = t := by
  rw [List.dropWhile_append_of_pos all]
  cases t with
  | nil => rfl
  | cons c t => simp [no_digit_ahead_cons.mp ended]

theorem digits_takeWhile (t : Text) : ∀ c ∈ t.takeWhile isDigit, isDigit c = true :=
  List.all_eq_true.mp List.all_takeWhile

theorem number_eq_some {t digits rest : Text} :
    number? t = some (digits, rest) ↔ IsNumber digits ∧ t = digits ++ dollar :: rest := by
  constructor
  · intro found
    refine ⟨?_, eq_of_number found⟩
    unfold number? at found
    split at found
    · simp at found
    · split at found
      · next closed =>
          simp only [Option.some.injEq, Prod.mk.injEq] at found
          simp only [Bool.and_eq_true, Bool.not_eq_true', List.isEmpty_eq_false_iff] at closed
          exact ⟨found.1 ▸ closed.2, found.1 ▸ digits_takeWhile t⟩
      · simp at found
  · rintro ⟨number, rfl⟩
    have closed : NoDigitAhead (dollar :: rest) := no_digit_ahead_cons.mpr (by decide)
    rw [number?, takeWhile_digits number.digits closed, dropWhile_digits number.digits closed]
    simp [number.nonempty]

/-- Digits open no token unless a dollar sign closes it. -/
theorem number_none_of_digits {digits t : Text} (all : ∀ c ∈ digits, isDigit c = true)
    (ended : NoDigitAhead t) (other : digits ≠ [] → ∀ c ∈ t.head?, c ≠ dollar) :
    number? (digits ++ t) = none := by
  rw [number?, takeWhile_digits all ended, dropWhile_digits all ended]
  cases t with
  | nil => rfl
  | cons c t =>
      by_cases none : digits = []
      · simp [none]
      · have unclosed : c ≠ dollar := other none c (by simp)
        simp [unclosed]

theorem number_none_of_ended {t : Text} (ended : NoDigitAhead t) : number? t = none :=
  @number_none_of_digits [] t (by simp) ended (by simp)

/-- The value with the number that the digits write, or the token as it stands. -/
def shown (values : List Text) (digits : Text) : Text :=
  if inside : 1 ≤ Numeral.value digits ∧ Numeral.value digits ≤ values.length then
    values[Numeral.value digits - 1]
  else canonical digits

theorem fill_token_number (values : List Text) (digits : Text) :
    fillToken values (.number digits) = shown values digits := by
  rw [fillToken, valueOf, shown]
  split
  · next zero => simp [zero]
  · next n number =>
      by_cases inside : n < values.length
      · have counted : n + 1 ≤ values.length := inside
        simp [number, inside, counted]
      · have outside : ¬ n + 1 ≤ values.length := by omega
        simp [number, inside, outside]

section Scanning

theorem tokens_byte {c : UInt8} (other : c ≠ dollar) (t : Text) :
    tokens (c :: t) = .byte c :: tokens t := by
  rw [tokens, if_neg other]

theorem tokens_dollar {t : Text} (alone : number? t = none) :
    tokens (dollar :: t) = .byte dollar :: tokens t := by
  rw [tokens, if_pos rfl]
  split
  · next found => simp [alone] at found
  · rfl

theorem tokens_canonical {digits : Text} (number : IsNumber digits) (t : Text) :
    tokens (canonical digits ++ t) = .number digits :: tokens t := by
  have front : number? (digits ++ dollar :: t) = some (digits, t) :=
    number_eq_some.mpr ⟨number, rfl⟩
  have opened : canonical digits ++ t = dollar :: (digits ++ dollar :: t) := by simp [canonical]
  rw [opened, tokens, if_pos rfl]
  split
  · next digits' rest' found =>
      simp only [front, Option.some.injEq, Prod.mk.injEq] at found
      rw [← found.1, ← found.2]
  · next missing => simp [front] at missing

end Scanning

section Filling

variable (values : List Text) (t : Text)

theorem fill_nil : fillNumbered values [] = [] := by simp [fillNumbered, tokens]

theorem fill_byte {c : UInt8} (other : c ≠ dollar) :
    fillNumbered values (c :: t) = c :: fillNumbered values t := by
  rw [fillNumbered, tokens_byte other]
  rfl

theorem fill_dollar {t : Text} (alone : number? t = none) :
    fillNumbered values (dollar :: t) = dollar :: fillNumbered values t := by
  rw [fillNumbered, tokens_dollar alone]
  rfl

theorem fill_canonical {digits : Text} (number : IsNumber digits) :
    fillNumbered values (canonical digits ++ t) = shown values digits ++ fillNumbered values t := by
  rw [fillNumbered, tokens_canonical number, List.flatMap_cons, fill_token_number, fillNumbered]

theorem fill_append {before : Text} (absent : dollar ∉ before) :
    fillNumbered values (before ++ t) = before ++ fillNumbered values t := by
  induction before with
  | nil => rfl
  | cons c before ih =>
      obtain ⟨other, later⟩ := List.ne_and_not_mem_of_not_mem_cons absent
      rw [List.cons_append, fill_byte values _ other.symm, ih later, List.cons_append]

end Filling

end BoundSql.Template

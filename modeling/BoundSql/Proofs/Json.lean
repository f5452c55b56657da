import BoundSql.Number.Decimal.Reader
import BoundSql.Proofs.Numerals
import BoundSql.Text.Utf8
import BoundSql.Trace.Entry

/-!
JSON over bytes, read by the grammar of JSON: blanks between tokens, numbers without leading zeros,
strings without bare control bytes, and nothing after the value. Bytes from 80 on stand for
themselves, and a code point that is written as a code stands for its bytes in UTF-8. The members
of an object are kept in their order, repeated names included.
-/

namespace BoundSql

open Text
open Template (IsNumber NoDigitAhead)
open Trace (openBrace closeBrace comma colon)

-- Powers are the built-in ones, whatever else is imported.
attribute [local instance (high)] instPowNat

/-- The number that a decimal stands for. -/
def Decimal.rational (d : Decimal) : Rat :=
  mkRat (if d.negative then -d.quotient.1 else d.quotient.1) d.quotient.2

inductive Json where
  | null
  | bool (b : Bool)
  | number (q : Rat)
  | string (t : Text)
  | array (items : List Json)
  | object (members : List (Text × Json))

namespace Json

def openBracket : UInt8 := 91
def closeBracket : UInt8 := 93

def isBlank (c : UInt8) : Bool := c = 32 || c = 9 || c = 10 || c = 13

def skip (t : Text) : Text := t.dropWhile isBlank

def code? : Text → Option (Nat × Text)
  | a :: b :: c :: d :: t => do
      let digits ← [a, b, c, d].mapM hexValue?
      return (digits.foldl (fun n digit => 16 * n + digit) 0, t)
  | _ => none

/-- The code point beyond the first plane that two codes stand for. -/
def pair? (high low : Nat) : Option Nat :=
  if 0xD800 ≤ high && high < 0xDC00 && 0xDC00 ≤ low && low < 0xE000 then
    some (0x10000 + 1024 * (high - 0xD800) + (low - 0xDC00))
  else none

def codePoint? (t : Text) : Option (Nat × Text) :=
  (code? t).bind fun (high, t) =>
    if Utf8.isScalar high then some (high, t)
    else (after? (ascii "\\u") t).bind fun t =>
      (code? t).bind fun (low, t) => (pair? high low).map fun code => (code, t)

/-- The letters that may follow a backslash, and what they stand for. -/
def letters : List (UInt8 × UInt8) :=
  [(34, 34), (92, 92), (47, 47), (98, 8), (102, 12), (110, 10), (114, 13), (116, 9)]

def escaped? : Text → Option (Text × Text)
  | [] => none
  | c :: t =>
      match letters.lookup c with
      | some b => some ([b], t)
      | none => if c = 117 then (codePoint? t).map fun (cp, t) => (Utf8.encode cp, t) else none

theorem length_code {t rest : Text} {n : Nat} (found : code? t = some (n, rest)) :
    rest.length < t.length := by
  unfold code? at found
  split at found
  · obtain ⟨digits, -, same⟩ := Option.bind_eq_some_iff.mp found
    cases same
    simp only [List.length_cons]
    omega
  · cases found

theorem length_codePoint {t rest : Text} {n : Nat} (found : codePoint? t = some (n, rest)) :
    rest.length < t.length := by
  obtain ⟨⟨high, t'⟩, first, found⟩ := Option.bind_eq_some_iff.mp found
  have shorter := length_code first
  simp only at found
  split at found
  · exact (Prod.mk.inj (Option.some.inj found)).2 ▸ shorter
  · obtain ⟨later, mark, found⟩ := Option.bind_eq_some_iff.mp found
    obtain ⟨⟨low, t''⟩, second, found⟩ := Option.bind_eq_some_iff.mp found
    obtain ⟨code, -, same⟩ := Option.map_eq_some_iff.mp found
    have shorter' := length_code second
    have last : t'' = rest := (Prod.mk.inj same).2
    rw [after?_eq_some.mp mark, List.length_append] at shorter
    rw [← last]
    omega

theorem length_escaped {t rest decoded : Text} (found : escaped? t = some (decoded, rest)) :
    rest.length < t.length := by
  unfold escaped? at found
  split at found
  · cases found
  · split at found
    · cases found
      exact Nat.lt_succ_self _
    · split at found
      · obtain ⟨next, read, same⟩ := Option.map_eq_some_iff.mp found
        cases same
        exact Nat.lt_succ_of_lt (length_codePoint read)
      · cases found

/-- The string whose opening quote has been read, and what follows its closing one. -/
def string? : Text → Option (Text × Text)
  | [] => none
  | c :: t =>
      if c = doubleQuote then some ([], t)
      else if c = backslash then
        match _found : escaped? t with
        | some (decoded, rest) => (string? rest).map fun (s, rest) => (decoded ++ s, rest)
        | none => none
      else if c < 32 then none
      else (string? t).map fun (s, rest) => (c :: s, rest)
termination_by t => t.length
decreasing_by
  · have shorter := length_escaped _found
    simp only [List.length_cons]
    omega
  · simp

def digits? (t : Text) : Option (Text × Text) :=
  if (t.takeWhile isDigit).isEmpty then none else some (t.takeWhile isDigit, t.dropWhile isDigit)

def whole? (t : Text) : Option (Text × Text) :=
  (digits? t).filter fun (digits, _) => digits.head? != some zero || digits.length == 1

def places? (t : Text) : Option (Text × Text) :=
  match after? [point] t with
  | some t => digits? t
  | none => some ([], t)

def exponent? : Text → Option (Int × Text)
  | [] => some (0, [])
  | c :: t =>
      if lower c = 101 then
        let (negative, t) := Decimal.signed t
        (digits? t).map fun (digits, rest) =>
          (if negative then -(Numeral.value digits : Int) else Numeral.value digits, rest)
      else some (0, c :: t)

def unsigned? (negative : Bool) (t : Text) : Option (Decimal × Text) := do
  let (whole, t) ← whole? t
  let (places, t) ← places? t
  let (exponent, rest) ← exponent? t
  return (⟨negative, whole ++ places, exponent - places.length⟩, rest)

def number? : Text → Option (Decimal × Text)
  | [] => none
  | c :: t => if c = minus then unsigned? true t else unsigned? false (c :: t)

def words : List (Text × Json) :=
  [(ascii "null", .null), (ascii "true", .bool true), (ascii "false", .bool false)]

def word? (t : Text) : Option (Json × Text) :=
  words.findSome? fun (word, v) => (after? word t).map fun rest => (v, rest)

/-- The name of a member, and what follows its colon. -/
def name? (t : Text) : Option (Text × Text) := do
  let (name, t) ← string? (← after? [doubleQuote] (skip t))
  return (name, ← after? [colon] (skip t))

-- Two rounds for every byte are enough, for every other one takes a byte at least.
mutual

def value? : Nat → Text → Option (Json × Text)
  | 0, _ => none
  | rounds + 1, t =>
      match skip t with
      | [] => none
      | c :: t =>
          if c = doubleQuote then (string? t).map fun (s, rest) => (.string s, rest)
          else if c = openBracket then
            match after? [closeBracket] (skip t) with
            | some rest => some (.array [], rest)
            | none => (items? rounds t).map fun (items, rest) => (.array items, rest)
          else if c = openBrace then
            match after? [closeBrace] (skip t) with
            | some rest => some (.object [], rest)
            | none => (members? rounds t).map fun (members, rest) => (.object members, rest)
          else if c = minus || isDigit c then
            (number? (c :: t)).map fun (d, rest) => (.number d.rational, rest)
          else word? (c :: t)

def items? : Nat → Text → Option (List Json × Text)
  | 0, _ => none
  | rounds + 1, t => do
      let (v, t) ← value? rounds t
      match skip t with
      | [] => none
      | c :: t =>
          if c = comma then (items? rounds t).map fun (others, rest) => (v :: others, rest)
          else if c = closeBracket then some ([v], t)
          else none

def members? : Nat → Text → Option (List (Text × Json) × Text)
  | 0, _ => none
  | rounds + 1, t => do
      let (name, t) ← name? t
      let (v, t) ← value? rounds t
      match skip t with
      | [] => none
      | c :: t =>
          if c = comma then
            (members? rounds t).map fun (others, rest) => ((name, v) :: others, rest)
          else if c = closeBrace then some ([(name, v)], t)
          else none

end

/-- The value that the whole text writes. -/
def read? (t : Text) : Option Json :=
  match value? (2 * (t.length + 1)) t with
  | some (v, rest) => if (skip rest).isEmpty then some v else none
  | none => none

example : read? (ascii " [1, -0.50e1, \"\\u00e9\\ud83d\\ude00\", [], null ] ") =
    some (.array [.number 1, .number (-5), .string [195, 169, 240, 159, 152, 128], .array [],
      .null]) := by
  cbv

example : read? (ascii "[01]") = none := by cbv

section Strings

theorem hexValue_hexDigit {n : Nat} (small : n < 16) : hexValue? (hexDigit n) = some n := by
  have all : ∀ n < 16, hexValue? (hexDigit n) = some n := by decide
  exact all n small

theorem lookup_short {c letter : UInt8} (short : JsonString.short? c = some letter) :
    letters.lookup letter = some c := by
  revert short
  unfold JsonString.short?
  repeat' split
  all_goals first
    | next same => rintro ⟨⟩; subst same; rfl
    | rintro ⟨⟩

/-- A control byte is written by two zeros and its two digits. -/
theorem escaped_control {c : UInt8} (control : c < 32) (t : Text) :
    escaped? (117 :: zero :: zero :: hexDigit (c.toNat / 16) :: hexDigit (c.toNat % 16) :: t) =
      some ([c], t) := by
  have small : c.toNat < 32 := control
  have zeros : hexValue? zero = some 0 := by decide
  have high := hexValue_hexDigit (n := c.toNat / 16) (by omega)
  have low := hexValue_hexDigit (n := c.toNat % 16) (Nat.mod_lt _ (by decide))
  have read : code? (zero :: zero :: hexDigit (c.toNat / 16) :: hexDigit (c.toNat % 16) :: t) =
      some (c.toNat, t) := by
    simp [code?, zeros, high, low]
    omega
  have scalar : Utf8.isScalar c.toNat = true := by
    simp [Utf8.isScalar]
    omega
  have encoded : Utf8.encode c.toNat = [c] := by
    simp [Utf8.encode, show c.toNat < 128 by omega]
  have other : letters.lookup 117 = none := by decide
  simp [escaped?, other, codePoint?, read, scalar, encoded]

theorem string_escaped {t decoded rest : Text} (read : escaped? t = some (decoded, rest)) :
    string? (backslash :: t) = (string? rest).map fun (s, rest) => (decoded ++ s, rest) := by
  rw [string?, if_neg (by decide), if_pos rfl]
  split
  · next found =>
      rw [read] at found
      cases found
      rfl
  · next found =>
      rw [read] at found
      cases found

theorem string_plain {c : UInt8} {t : Text} (short : JsonString.short? c = none)
    (above : ¬ c < 32) : string? (c :: t) = (string? t).map fun (s, rest) => (c :: s, rest) := by
  have quote : c ≠ doubleQuote := by
    rintro rfl
    cases short
  have slash : c ≠ backslash := by
    rintro rfl
    cases short
  rw [string?, if_neg quote, if_neg slash, if_neg above]

/-- However a byte is written, it is read as itself. -/
theorem string_escapeByte (c : UInt8) (t : Text) :
    string? (JsonString.escapeByte c ++ t) =
      (string? t).map fun (s, rest) => (c :: s, rest) := by
  unfold JsonString.escapeByte
  split
  · next letter short =>
      have read : escaped? (letter :: t) = some ([c], t) := by
        simp [escaped?, lookup_short short]
      exact string_escaped read
  · next short =>
      split
      · next control => exact string_escaped (escaped_control control t)
      · next above => exact string_plain short above

theorem string_escape (t rest : Text) :
    string? (JsonString.escape t ++ doubleQuote :: rest) = some (t, rest) := by
  induction t with
  | nil => rw [JsonString.escape, List.flatMap_nil, List.nil_append, string?, if_pos rfl]
  | cons c t ih =>
      have front : JsonString.escape (c :: t) = JsonString.escapeByte c ++ JsonString.escape t :=
        List.flatMap_cons
      rw [front, List.append_assoc, string_escapeByte, ih]
      rfl

end Strings

section Numbers

/-- What cannot carry a number on. -/
def Ended (rest : Text) : Prop :=
  ∀ c ∈ rest.head?, isDigit c = false ∧ c ≠ point ∧ lower c ≠ 101

theorem Ended.no_digit {rest : Text} (ended : Ended rest) : NoDigitAhead rest :=
  fun c front => (ended c front).1

theorem exponent_ended {rest : Text} (ended : Ended rest) : exponent? rest = some (0, rest) := by
  cases rest with
  | nil => rfl
  | cons c rest => rw [exponent?, if_neg (ended c rfl).2.2]

theorem digits_number {digits rest : Text} (number : IsNumber digits)
    (ended : NoDigitAhead rest) : digits? (digits ++ rest) = some (digits, rest) := by
  rw [digits?, Template.takeWhile_digits number.digits ended,
    Template.dropWhile_digits number.digits ended]
  simp [number.nonempty]

/-- Without a zero in front, unless it is the whole. -/
def Proper (digits : Text) : Prop := ∀ t, digits = zero :: t → t = []

theorem whole_number {digits rest : Text} (number : IsNumber digits) (proper : Proper digits)
    (ended : NoDigitAhead rest) : whole? (digits ++ rest) = some (digits, rest) := by
  rw [whole?, digits_number number ended]
  obtain ⟨c, t, rfl⟩ := List.exists_cons_of_ne_nil number.nonempty
  by_cases leading : c = zero
  · have alone := proper t (by rw [leading])
    simp [alone]
  · simp [leading]

theorem places_none {rest : Text} (ended : Ended rest) : places? rest = some ([], rest) := by
  cases rest with
  | nil => rfl
  | cons c rest =>
      have other : point ≠ c := (ended c rfl).2.1.symm
      simp [places?, after?, other]

theorem places_number {places rest : Text} (number : IsNumber places) (ended : NoDigitAhead rest) :
    places? (point :: (places ++ rest)) = some (places, rest) := by
  simp [places?, after?, digits_number number ended]

end Numbers

section Values

/-- The text writes the value, whatever follows that is no part of a number. -/
def Writes (t : Text) (v : Json) : Prop :=
  ∀ rounds rest, Ended rest → value? (rounds + 1) (t ++ rest) = some (v, rest)

theorem writes_string (t : Text) : Writes (JsonString.quoted t) (.string t) := by
  intro rounds rest _
  have split : JsonString.quoted t ++ rest =
      doubleQuote :: (JsonString.escape t ++ doubleQuote :: rest) := by
    simp [JsonString.quoted]
  have front : skip (doubleQuote :: (JsonString.escape t ++ doubleQuote :: rest)) =
      doubleQuote :: (JsonString.escape t ++ doubleQuote :: rest) := by
    rfl
  rw [split, value?, front]
  simp [string_escape]

theorem value_number {c : UInt8} {t rest : Text} {d : Decimal}
    (front : c = minus ∨ isDigit c = true) (read : number? (c :: t) = some (d, rest))
    (rounds : Nat) : value? (rounds + 1) (c :: t) = some (.number d.rational, rest) := by
  have apart {b : UInt8} (minus : b ≠ minus) (digit : isDigit b = false) : c ≠ b := by
    rintro rfl
    simp [minus, digit] at front
  have blank : isBlank c = false := by
    have space : c ≠ 32 := apart (by decide) (by decide)
    have tab : c ≠ 9 := apart (by decide) (by decide)
    have newline : c ≠ 10 := apart (by decide) (by decide)
    have back : c ≠ 13 := apart (by decide) (by decide)
    simp [isBlank, space, tab, newline, back]
  have stays : skip (c :: t) = c :: t := by simp [skip, blank]
  have quote : c ≠ doubleQuote := apart (by decide) (by decide)
  have bracket : c ≠ openBracket := apart (by decide) (by decide)
  have brace : c ≠ openBrace := apart (by decide) (by decide)
  rw [value?, stays]
  simp [quote, bracket, brace, front, read]

theorem writes_number {negative : Bool} {digits more : Text} {d : Decimal}
    (number : IsNumber digits)
    (read : ∀ rest, Ended rest → unsigned? negative (digits ++ more ++ rest) = some (d, rest)) :
    Writes (Decimal.sign negative ++ (digits ++ more)) (.number d.rational) := by
  intro rounds rest ended
  obtain ⟨c, t, rfl⟩ := List.exists_cons_of_ne_nil number.nonempty
  have digit : isDigit c = true := number.digits c List.mem_cons_self
  have read := read rest ended
  cases negative with
  | true =>
      have signed : number? (minus :: (c :: t ++ more ++ rest)) = some (d, rest) := read
      exact value_number (.inl rfl) signed rounds
  | false =>
      have other : c ≠ minus := by
        rintro rfl
        cases digit
      exact value_number (.inr digit) ((if_neg other).trans read) rounds

theorem writes_whole (negative : Bool) {digits : Text} (number : IsNumber digits)
    (proper : Proper digits) :
    Writes (Decimal.sign negative ++ digits)
      (.number (Decimal.rational ⟨negative, digits, 0⟩)) := by
  have written := @writes_number negative digits [] ⟨negative, digits, 0⟩ number
  rw [List.append_nil] at written
  refine written fun rest ended => ?_
  rw [unsigned?, whole_number number proper ended.no_digit]
  simp [places_none ended, exponent_ended ended]

theorem writes_places (negative : Bool) {whole places : Text} (number : IsNumber whole)
    (proper : Proper whole) (fraction : IsNumber places) :
    Writes (Decimal.sign negative ++ (whole ++ point :: places))
      (.number (Decimal.rational ⟨negative, whole ++ places, -places.length⟩)) := by
  refine writes_number number fun rest ended => ?_
  have dot : NoDigitAhead (point :: (places ++ rest)) :=
    Template.no_digit_ahead_cons.mpr (by decide)
  rw [List.append_assoc, List.cons_append, unsigned?, whole_number number proper dot]
  simp [places_number fraction ended.no_digit, exponent_ended ended]

theorem proper_ofNat (n : Nat) : Proper (Numeral.ofNat n) := fun _ => Numeral.ofNat_eq_zero

theorem writes_ofInt (n : Int) : Writes (Numeral.ofInt n) (.number n) := by
  have written := writes_whole (n < 0) (Numeral.number_ofNat n.natAbs) (proper_ofNat _)
  have shape : Decimal.sign (n < 0) ++ Numeral.ofNat n.natAbs = Numeral.ofInt n := by
    by_cases below : n < 0 <;> simp [Numeral.ofInt, Decimal.sign, below]
  have signed : (if n < 0 then -(n.natAbs : Int) else n.natAbs) = n := by split <;> omega
  have value : Decimal.rational ⟨n < 0, Numeral.ofNat n.natAbs, 0⟩ = n := by
    simp only [Decimal.rational, Decimal.quotient, Numeral.value_ofNat, Int.toNat_zero,
      Int.neg_zero, Nat.pow_zero, Nat.mul_one, decide_eq_true_eq, signed, Rat.mkRat_one]
  rwa [shape, value] at written

/-- A number with decimal places is the rounded one over a power of ten. -/
theorem writes_ofQuotient {places : Nat} (some : 0 < places) (negative : Bool) (num den : Nat) :
    Writes (FixedPoint.ofQuotient places negative num den)
      (.number (mkRat
        (if negative then -(Rounding.halfEven (num * 10 ^ places) den : Nat)
          else (Rounding.halfEven (num * 10 ^ places) den : Nat)) (10 ^ places))) := by
  let n := Rounding.halfEven (num * 10 ^ places) den
  have written := writes_places negative (Numeral.number_ofNat (n / 10 ^ places))
    (proper_ofNat _) (Numeral.number_padded places (n % 10 ^ places))
  rw [Numeral.length_places some, Decimal.rational, Decimal.quotient,
    Numeral.value_places some] at written
  simpa [FixedPoint.ofQuotient, n] using written

end Values

end Json

end BoundSql

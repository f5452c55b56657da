import BoundSql.Template
import BoundSql.Proofs.Numerals
import Mathlib.Data.Nat.Digits.Defs

/-!
The scan for tokens against what it should find. A text is cut into bytes and tokens so that each
byte that stands alone stands where no token begins. There is one such way to cut a text: from the
left, every token is taken where it begins, and the next is looked for behind its closing sign. The
number of a token is the natural number that its digits write, however many there are.
-/

namespace BoundSql

open Text

/-- Digits write the natural number to the base ten whose least digit comes last. -/
theorem Numeral.value_ofDigits (t : Text) :
    value t = Nat.ofDigits 10 (t.reverse.map digitValue) := by
  induction t with
  | nil => rfl
  | cons c t ih =>
      rw [value_cons, ih, List.reverse_cons, List.map_append, Nat.ofDigits_append, List.length_map,
        List.length_reverse, Nat.add_comm, Nat.mul_comm, List.map_singleton,
        Nat.ofDigits_singleton]

namespace Template

/-- A token begins here. -/
def Opens (t : Text) : Prop := ∃ digits rest, IsNumber digits ∧ t = canonical digits ++ rest

/-- A text cut into bytes and tokens from the left. -/
structure Tokenised (t : Text) (ts : List Token) : Prop where
  text : ts.flatMap Token.text = t
  numbers : ∀ digits, .number digits ∈ ts → IsNumber digits
  bytes : ∀ before c after, ts = before ++ .byte c :: after →
    ¬ Opens (c :: after.flatMap Token.text)

/-- A byte stands for itself, and a token for the value of its number, if there is one. -/
def Token.written (values : List Text) : Token → Text
  | .byte c => [c]
  | .number digits =>
      let n := Nat.ofDigits 10 (digits.reverse.map Numeral.digitValue)
      if inside : 1 ≤ n ∧ n ≤ values.length then
        values.get ⟨n - 1, Nat.sub_one_lt_of_le inside.1 inside.2⟩
      else canonical digits

section Opening

variable {t : Text}

theorem opens_dollar : Opens (dollar :: t) ↔ ∃ digits rest, number? t = some (digits, rest) := by
  simp only [number_eq_some, Opens, canonical, List.cons_append, List.cons.injEq, true_and,
    List.append_assoc, List.nil_append]

theorem not_opens_byte {c : UInt8} (other : c ≠ dollar) (t : Text) : ¬ Opens (c :: t) := by
  rintro ⟨digits, rest, -, same⟩
  exact other (List.cons.inj same).1

theorem not_opens_dollar (alone : number? t = none) : ¬ Opens (dollar :: t) := by
  intro opens
  obtain ⟨digits, rest, found⟩ := opens_dollar.mp opens
  cases alone.symm.trans found

end Opening

namespace Tokenised

variable {t : Text} {ts : List Token} {c : UInt8} {digits : Text}

theorem empty : Tokenised [] [] where
  text := rfl
  numbers := by simp
  bytes := by simp

theorem byte (closed : ¬ Opens (c :: t)) (cut : Tokenised t ts) :
    Tokenised (c :: t) (.byte c :: ts) where
  text := congrArg (c :: ·) cut.text
  numbers := by
    intro digits member
    rcases List.mem_cons.mp member with first | later
    · cases first
    · exact cut.numbers digits later
  bytes := by
    intro before b after same
    cases before with
    | nil =>
        cases same
        rwa [cut.text]
    | cons first before => exact cut.bytes before b after (List.cons.inj same).2

theorem number (number : IsNumber digits) (cut : Tokenised t ts) :
    Tokenised (canonical digits ++ t) (.number digits :: ts) where
  text := congrArg (canonical digits ++ ·) cut.text
  numbers := by
    intro others member
    rcases List.mem_cons.mp member with first | later
    · cases first
      exact number
    · exact cut.numbers others later
  bytes := by
    intro before b after same
    cases before with
    | nil => cases same
    | cons first before => exact cut.bytes before b after (List.cons.inj same).2

/-- What is left behind the first item is cut by the items that are left. -/
theorem tail {item : Token} (cut : Tokenised t (item :: ts)) :
    Tokenised (ts.flatMap Token.text) ts where
  text := rfl
  numbers digits member := cut.numbers digits (List.mem_cons_of_mem item member)
  bytes before b after same := cut.bytes (item :: before) b after (congrArg (item :: ·) same)

theorem tokens (t : Text) : Tokenised t (tokens t) := by
  induction t using Template.tokens.induct with
  | case1 =>
      rw [Template.tokens]
      exact empty
  | case2 t digits rest found ih =>
      obtain ⟨whole, rfl⟩ := number_eq_some.mp found
      have front : dollar :: (digits ++ dollar :: rest) = canonical digits ++ rest := by
        simp [canonical]
      rw [front, tokens_canonical whole]
      exact number whole ih
  | case3 t alone ih =>
      rw [tokens_dollar alone]
      exact byte (not_opens_dollar alone) ih
  | case4 c t other ih =>
      rw [tokens_byte other]
      exact byte (not_opens_byte other t) ih

theorem front_unique {digits' rest rest' : Text} (number : IsNumber digits)
    (number' : IsNumber digits') (same : canonical digits ++ rest = canonical digits' ++ rest') :
    digits = digits' ∧ rest = rest' := by
  simp only [canonical, List.cons_append, List.append_assoc, List.nil_append, List.cons.injEq,
    true_and] at same
  have one : number? (digits ++ dollar :: rest) = some (digits, rest) :=
    number_eq_some.mpr ⟨number, rfl⟩
  have other := number_eq_some.mpr ⟨number', same⟩
  simpa using one.symm.trans other

/-- There is only one way to cut a text: an item in front is a token just where one begins. -/
theorem unique {other : List Token} (cut : Tokenised t ts) (cut' : Tokenised t other) :
    ts = other := by
  induction ts generalizing t other with
  | nil =>
      cases other with
      | nil => rfl
      | cons item other =>
          have same := cut.text.trans cut'.text.symm
          cases item <;> simp [Token.text, canonical] at same
  | cons item ts ih =>
      cases other with
      | nil =>
          have same := cut.text.trans cut'.text.symm
          cases item <;> simp [Token.text, canonical] at same
      | cons item' other =>
          have same := cut.text.trans cut'.text.symm
          simp only [List.flatMap_cons] at same
          have rest (fronts : item = item')
              (later : ts.flatMap Token.text = other.flatMap Token.text) :
              item :: ts = item' :: other := by
            rw [fronts, ih cut.tail (later ▸ cut'.tail)]
          cases item with
          | byte c =>
              cases item' with
              | byte c' =>
                  obtain ⟨rfl, later⟩ := List.cons.inj same
                  exact rest rfl later
              | number digits =>
                  have number := cut'.numbers digits List.mem_cons_self
                  exact absurd ⟨digits, _, number, same⟩ (cut.bytes [] c ts rfl)
          | number digits =>
              have number := cut.numbers digits List.mem_cons_self
              cases item' with
              | byte c => exact absurd ⟨digits, _, number, same.symm⟩ (cut'.bytes [] c other rfl)
              | number digits' =>
                  have number' := cut'.numbers digits' List.mem_cons_self
                  obtain ⟨rfl, later⟩ := front_unique number number' same
                  exact rest rfl later

end Tokenised

theorem fillToken_written (values : List Text) : fillToken values = Token.written values := by
  funext item
  cases item with
  | byte c => rfl
  | number digits =>
      rw [fill_token_number, shown]
      simp only [Token.written, Numeral.value_ofDigits, List.get_eq_getElem]

/-- A text is cut in one way, and filling it writes every item of the cut in its place; without
values that is the text itself. The same holds of a template that a pattern brings to this text. -/
theorem fill_tokenised (t : Text) :
    ∃ ts, Tokenised t ts ∧ (∀ other, Tokenised t other → other = ts) ∧
      (∀ values, fillNumbered values t = ts.flatMap (Token.written values)) ∧
      fillNumbered [] t = t ∧
      ∀ p template, normalised p template = t → ∀ literal escaper values,
        explain literal (.numbered p) escaper template values =
          ts.flatMap (Token.written (values.map fun v => literal v escaper)) := by
  have filled (values : List Text) :
      fillNumbered values t = (tokens t).flatMap (Token.written values) := by
    rw [fillNumbered, fillToken_written]
  refine ⟨tokens t, .tokens t, fun other cut => cut.unique (.tokens t), filled,
    fillNumbered_nil t, ?_⟩
  rintro p template rfl literal escaper values
  exact filled _

-- The closing sign of a token without a value opens no other token.
example : fillNumbered [ascii "a"] (ascii "$99$1$") = ascii "$99$1$" := by cbv

end Template

end BoundSql

import BoundSql.Proofs.Placeholders
import BoundSql.Proofs.Tokenising

/-!
Templates whose placeholders are tokens already. The pattern of tokens matches just where the scan
for tokens finds one, and what it matches is brought to the token that it is. So the text that is
scanned is the template itself, wherever its dollar signs stand and whichever of them a token
shares with the text around it.
-/

namespace BoundSql.Template

open Text

theorem tokenShape_pattern :
    Regex.Pattern.ofText? (ascii "\\$(\\d+)\\$") = some (Regex.shaped tokenShape) := by
  decide

theorem tokenShape_closed : NoDigitAhead tokenShape.trail := no_digit_ahead_cons.mpr (by decide)

theorem tokenShape_source {t digits rest : Text}
    (read : tokenShape.reader.read? t = some (digits, rest)) : t = canonical digits ++ rest := by
  obtain ⟨-, -, rfl⟩ := Shape.read_eq_some.mp read
  simp [tokenShape, canonical]

theorem normalised_tokenShape (t : Text) : normalised (Regex.shaped tokenShape) t = t := by
  rw [Regex.normalised_shaped tokenShape_closed]
  exact Reader.rewrite_source tokenShape_source t

/-- With the pattern of tokens every template is in its brought form. It is cut into bytes and
tokens as it stands, and each token is filled; without values the template comes back. -/
theorem explain_tokens :
    ∃ p, Regex.Pattern.ofText? (ascii "\\$(\\d+)\\$") = some p ∧ ∀ template : Text,
      normalised p template = template ∧
      (∀ (literal : Literals) (escaper : Text) (values : List Value),
        explain literal (.numbered p) escaper template values =
          fillNumbered (values.map fun v => literal v escaper) template) ∧
      (∃ ts, Tokenised template ts ∧
        ∀ (literal : Literals) (escaper : Text) (values : List Value),
          explain literal (.numbered p) escaper template values =
            ts.flatMap (Token.written (values.map fun v => literal v escaper))) ∧
      ∀ (literal : Literals) (escaper : Text),
        explain literal (.numbered p) escaper template [] = template := by
  refine ⟨_, tokenShape_pattern, fun template => ?_⟩
  have brought := normalised_tokenShape template
  have scanned (literal : Literals) (escaper : Text) (values : List Value) :
      explain literal (.numbered (Regex.shaped tokenShape)) escaper template values =
        fillNumbered (values.map fun v => literal v escaper) template := by
    rw [explain, fill, brought]
  refine ⟨brought, scanned, ⟨tokens template, .tokens template, ?_⟩, fun literal escaper => ?_⟩
  · intro literal escaper values
    rw [scanned, fillNumbered, fillToken_written]
  · rw [scanned, List.map_nil, fillNumbered_nil]

-- The second sign belongs to the first token, and the last two numbers are never closed.
example : normalised (Regex.shaped tokenShape) (ascii "$1$2$$3 $45") = ascii "$1$2$$3 $45" := by
  cbv

end BoundSql.Template

import BoundSql.Formatter
import BoundSql.Template.Marks
import BoundSql.Template.Numbered

/-!
Templates with their values written in, for people to read. The values become literals before any
of them enters the template, and a literal is never searched for placeholders.
-/

namespace BoundSql.Template

inductive Placeholders where
  | marks
  | numbered (p : Regex.Pattern)

/-- How one value becomes a literal between escapers. -/
abbrev Literals := Value → Text → Text

/-- With the default settings. -/
def defaultLiterals (home : Zone) : Literals := ({} : Formatter).format home

def fill (placeholders : Placeholders) (literals : List Text) (template : Text) : Text :=
  match placeholders with
  | .marks => fillMarks template literals
  | .numbered p => fillNumbered literals (normalised p template)

def explain (literal : Literals) (placeholders : Placeholders) (escaper template : Text)
    (values : List Value) : Text :=
  fill placeholders (values.map fun v => literal v escaper) template

end BoundSql.Template

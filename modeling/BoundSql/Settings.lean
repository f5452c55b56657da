import BoundSql.Trace.Logger

/-!
All settings of a run, with their defaults, and the logger that they make.
-/

namespace BoundSql

open Text

structure Settings where
  formatter : Formatter := {}
  escaper : Text := ascii "'"
  /-- As written, and as read. -/
  pattern : Option (Text × Regex.Pattern) := none
  trace : Trace.Settings := {}

namespace Settings

def placeholders (s : Settings) : Template.Placeholders :=
  match s.pattern with
  | some (_, p) => .numbered p
  | none => .marks

def logger (s : Settings) (home : Zone) : Trace.Logger :=
  ⟨s.trace, s.formatter.format home, s.placeholders, s.escaper⟩

end Settings

end BoundSql

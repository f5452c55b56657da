import BoundSql.Text

/-!
Documents: null, scalars, sequences and maps. A scalar is kept as its text, so that what it means is
left to whoever asks.
-/

namespace BoundSql

open Text

inductive Document where
  | null
  | scalar (t : Text)
  | sequence (items : List Document)
  | map (entries : List (Text × Document))

/-- What a map holds under a key, the first entry if there are several. -/
def Document.lookup (entries : List (Text × Document)) (key : Text) : Document :=
  ((entries.find? (·.1 == key)).map (·.2)).getD .null

end BoundSql

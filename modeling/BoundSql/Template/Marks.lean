import BoundSql.Text

/-!
Templates with question marks. Marks take the values in order; when the values run out, the marks
that are left stay, and values that are left over are not shown.
-/

namespace BoundSql.Template

open Text

def fillMarks : Text → List Text → Text
  | [], _ => []
  | c :: t, [] => c :: fillMarks t []
  | c :: t, v :: values =>
      if c = questionMark then v ++ fillMarks t values else c :: fillMarks t (v :: values)

theorem fillMarks_nil (t : Text) : fillMarks t [] = t := by
  induction t with
  | nil => rfl
  | cons c t ih => rw [fillMarks, ih]

end BoundSql.Template

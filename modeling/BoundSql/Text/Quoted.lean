import BoundSql.Text.Utf8

/-!
Quoted literals. A text is shown between two copies of the escaper, and each occurrence of the
escaper inside it, found from the left without overlap, gets a backslash in front. Backslashes
that are there already stay single: the literal is for reading, not for execution. An empty
escaper occurs at every character boundary.
-/

namespace BoundSql.Quoted

open Text

def wrap (escaper t : Text) : Text := escaper ++ t ++ escaper

-- The escaper is `first :: others`, so that finding it always moves on.
def guarded (first : UInt8) (others : Text) : Text → Text
  | [] => []
  | c :: t =>
      if (first :: others).isPrefixOf (c :: t) then
        backslash :: first :: others ++ guarded first others (t.drop others.length)
      else c :: guarded first others t
termination_by t => t.length
decreasing_by all_goals simp only [List.length_drop, List.length_cons]; omega

section Finding

variable {first : UInt8} {others : Text}

theorem guarded_found (first : UInt8) (others t : Text) :
    guarded first others (first :: others ++ t) =
      backslash :: (first :: others ++ guarded first others t) := by
  have found : (first :: others).isPrefixOf (first :: (others ++ t)) = true := by
    simp [List.isPrefixOf_iff_prefix]
  rw [List.cons_append, guarded, if_pos found, List.drop_left]
  rfl

theorem guarded_missed {c : UInt8} {t : Text} (missed : ¬ first :: others <+: c :: t) :
    guarded first others (c :: t) = c :: guarded first others t := by
  rw [guarded, if_neg (mt List.isPrefixOf_iff_prefix.mp missed)]

theorem guarded_plain {t : Text} (plain : backslash ∉ guarded first others t) :
    guarded first others t = t := by
  induction t using guarded.induct first others with
  | case1 => rw [guarded]
  | case2 c t found ih =>
      rw [guarded, if_pos found] at plain
      exact absurd List.mem_cons_self plain
  | case3 c t missed ih =>
      rw [guarded, if_neg missed] at plain ⊢
      rw [ih (List.not_mem_of_not_mem_cons plain)]

end Finding

def spaced (t : Text) : Text :=
  (Utf8.characters t).flatMap (backslash :: ·) ++ [backslash]

def escape (escaper t : Text) : Text :=
  match escaper with
  | [] => spaced t
  | first :: others => wrap escaper (guarded first others t)

end BoundSql.Quoted

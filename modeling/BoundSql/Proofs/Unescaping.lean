import BoundSql.Text.Quoted

/-!
Literals taken apart. The escaper goes from both ends, and then every backslash in front of an
escaper, from the left without overlap. For an escaper without a backslash this gives the text
back, whatever backslashes it holds itself: an escaper that follows one of these was found when
the text was escaped, so that another backslash came between.
-/

namespace BoundSql.Quoted

open Text

/-- Every `first :: others` in a text, found from the left without overlap, becomes `new`. -/
def replaced (first : UInt8) (others new : Text) : Text → Text
  | [] => []
  | c :: t =>
      if (first :: others).isPrefixOf (c :: t) then
        new ++ replaced first others new (t.drop others.length)
      else c :: replaced first others new t
termination_by t => t.length
decreasing_by all_goals simp only [List.length_drop, List.length_cons]; omega

/-- What stands between two copies of the escaper. -/
def between? (escaper t : Text) : Option Text :=
  (after? escaper t).bind fun rest => (after? escaper.reverse rest.reverse).map List.reverse

def unescape? (escaper t : Text) : Option Text :=
  (between? escaper t).map (replaced backslash escaper escaper)

theorem between_wrap (escaper body : Text) : between? escaper (wrap escaper body) = some body := by
  have front : after? escaper (wrap escaper body) = some (body ++ escaper) :=
    after?_eq_some.mpr (List.append_assoc _ _ _)
  have back : after? escaper.reverse (body ++ escaper).reverse = some body.reverse :=
    after?_eq_some.mpr List.reverse_append
  rw [between?, front, Option.bind_some, back, Option.map_some, List.reverse_reverse]

section Finding

variable {first : UInt8} {others : Text}

theorem replaced_found (new t : Text) :
    replaced first others new (first :: others ++ t) = new ++ replaced first others new t := by
  have found : (first :: others).isPrefixOf (first :: (others ++ t)) = true := by
    simp [List.isPrefixOf_iff_prefix]
  rw [List.cons_append, replaced, if_pos found, List.drop_left]

theorem replaced_missed {new t : Text} {c : UInt8} (missed : ¬ first :: others <+: c :: t) :
    replaced first others new (c :: t) = c :: replaced first others new t := by
  rw [replaced, if_neg (mt List.isPrefixOf_iff_prefix.mp missed)]

/-- A guarded text goes its own way only with a backslash. -/
theorem prefix_of_guarded {t front : Text} (plain : backslash ∉ front)
    (begins : front <+: guarded first others t) : front <+: t := by
  induction t generalizing front with
  | nil => rwa [guarded] at begins
  | cons c t ih =>
      cases front with
      | nil => exact List.nil_prefix
      | cons b front =>
          obtain ⟨other, later⟩ := List.ne_and_not_mem_of_not_mem_cons plain
          by_cases found : first :: others <+: c :: t
          · obtain ⟨rest, same⟩ := found
            rw [← same, guarded_found] at begins
            exact absurd (List.cons_prefix_cons.mp begins).1.symm other
          · rw [guarded_missed found] at begins
            obtain ⟨same, begins⟩ := List.cons_prefix_cons.mp begins
            exact List.cons_prefix_cons.mpr ⟨same, ih later begins⟩

theorem escaper_not_prefix_guarded (plain : backslash ∉ first :: others) (t : Text) :
    ¬ first :: others <+: guarded first others t := by
  intro begins
  obtain ⟨rest, rfl⟩ := prefix_of_guarded plain begins
  rw [guarded_found] at begins
  exact plain ((List.cons_prefix_cons.mp begins).1 ▸ List.mem_cons_self)

/-- Only the backslashes that guard an escaper are dropped. -/
theorem replaced_guarded (plain : backslash ∉ first :: others) (t : Text) :
    replaced backslash (first :: others) (first :: others) (guarded first others t) = t := by
  -- A found escaper is passed as a whole, so the induction is that of the search.
  induction t using guarded.induct first others with
  | case1 => rw [guarded, replaced]
  | case2 c t found ih =>
      obtain ⟨rest, same⟩ := List.isPrefixOf_iff_prefix.mp found
      have later : t.drop others.length = rest := by
        rw [← (List.cons.inj same).2]
        exact List.drop_left
      rw [later] at ih
      rw [← same, guarded_found, ← List.cons_append, replaced_found, ih]
  | case3 c t missed ih =>
      rw [guarded_missed (mt List.isPrefixOf_iff_prefix.mpr missed)]
      have kept : ¬ backslash :: first :: others <+: c :: guarded first others t := by
        intro begins
        exact escaper_not_prefix_guarded plain t (List.cons_prefix_cons.mp begins).2
      rw [replaced_missed kept, ih]

end Finding

/-- A text is read back from its literal, so different texts have different literals. -/
theorem unescape_escape {escaper : Text} (nonempty : escaper ≠ []) (plain : backslash ∉ escaper) :
    (∀ t, unescape? escaper (escape escaper t) = some t) ∧
      ∀ s t, escape escaper s = escape escaper t → s = t := by
  obtain ⟨first, others, rfl⟩ := List.exists_cons_of_ne_nil nonempty
  have back (t : Text) :
      unescape? (first :: others) (escape (first :: others) t) = some t := by
    rw [unescape?, escape, between_wrap, Option.map_some, replaced_guarded plain]
  refine ⟨back, fun s t same => ?_⟩
  have both := back s
  rw [same, back t] at both
  exact (Option.some.inj both).symm

/-- An escaper that overlaps itself, in a text that holds it behind a backslash as well. -/
theorem unescape_escape_overlapping :
    ascii "aba" ≠ [] ∧ backslash ∉ ascii "aba" ∧
      escape (ascii "aba") (ascii "ababa\\aba") = ascii "aba\\ababa\\\\abaaba" ∧
      unescape? (ascii "aba") (escape (ascii "aba") (ascii "ababa\\aba")) =
        some (ascii "ababa\\aba") := by
  have nonempty : ascii "aba" ≠ [] := by decide
  have plain : backslash ∉ ascii "aba" := by decide
  exact ⟨nonempty, plain, by cbv, (unescape_escape nonempty plain).1 _⟩

end BoundSql.Quoted

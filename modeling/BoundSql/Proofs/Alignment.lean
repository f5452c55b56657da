import BoundSql.Proofs.Decoding
import BoundSql.Text.Printable
import Mathlib.Data.List.Infix

/-!
Whether a text can be shown does not depend on where it is cut. A hidden character is found
wherever its encoding begins, behind whatever bytes: the scan goes on one byte behind a byte that
begins no character, and inside a character, which it passes as a whole, no other one begins.
-/

namespace BoundSql.Printable

open Text
open Utf8 (encode isScalar decode? characters WellFormed)

/-- The encoding of a character that is not shown begins behind so many bytes. -/
def HiddenAt (t : Text) (offset : Nat) : Prop :=
  ∃ cp, isScalar cp = true ∧ codePoint cp = false ∧ encode cp <+: t.drop offset

section Scan

variable {s t : Text} {b : UInt8} {cp offset : Nat}

theorem text_nil : text [] = true := by
  rw [text, characters]
  rfl

theorem character_encode (scalar : isScalar cp = true) :
    character (encode cp) = codePoint cp := by
  have read := Utf8.decode_encode scalar []
  rw [List.append_nil] at read
  rw [character, read]

theorem text_encode (scalar : isScalar cp = true) (t : Text) :
    text (encode cp ++ t) = (codePoint cp && text t) := by
  rw [text, Utf8.characters_encode scalar, List.all_cons, character_encode scalar, text]

theorem text_stray (refused : decode? (b :: t) = none) : text (b :: t) = text t := by
  have alone : decode? [b] = none := by
    refine Utf8.decode_eq_none.mpr fun cp scalar begins => ?_
    exact Utf8.decode_eq_none.mp refused cp scalar (begins.trans (List.prefix_append [b] t))
  rw [text, Utf8.characters_stray refused, List.all_cons, character, alone, Bool.true_and, text]

/-- A byte inside a character begins no other one. -/
theorem not_begins_inside (scalar : isScalar cp = true) (inside : 0 < offset)
    (before : offset < (encode cp).length) (t : Text) {other : Nat}
    (scalar' : isScalar other = true) : ¬ encode other <+: (encode cp ++ t).drop offset := by
  intro begins
  obtain ⟨lead, others, led, -, continuations, -⟩ := Utf8.encode_shape scalar
  obtain ⟨lead', others', led', first, -⟩ := Utf8.encode_shape scalar'
  obtain ⟨more, rfl⟩ : ∃ more, offset = more + 1 := ⟨offset - 1, by omega⟩
  rw [led, List.length_cons] at before
  have later : more < others.length := by omega
  rw [led, led', List.cons_append, List.drop_succ_cons,
    List.drop_append_of_le_length (Nat.le_of_lt later), List.drop_eq_getElem_cons later,
    List.cons_append] at begins
  have same := (List.cons_prefix_cons.mp begins).1
  rw [same, continuations _ (List.getElem_mem later)] at first
  cases first

theorem hiddenAt_encode (scalar : isScalar cp = true) :
    (∃ offset, HiddenAt (encode cp ++ t) offset) ↔
      codePoint cp = false ∨ ∃ offset, HiddenAt t offset := by
  constructor
  · rintro ⟨offset, other, scalar', hidden, begins⟩
    rcases Nat.eq_zero_or_pos offset with rfl | inside
    · have read := Utf8.decode_encode scalar t
      have read' :=
        (@Utf8.decode_eq_some _ ⟨other, (encode other).length⟩).mpr ⟨scalar', rfl, begins⟩
      rw [List.drop_zero, read, Option.some.injEq, Utf8.Decoded.mk.injEq] at read'
      rw [read'.1]
      exact .inl hidden
    rcases Nat.lt_or_ge offset (encode cp).length with before | behind
    · exact absurd begins (not_begins_inside scalar inside before t scalar')
    · obtain ⟨more, rfl⟩ := Nat.exists_eq_add_of_le behind
      rw [List.drop_length_add_append] at begins
      exact .inr ⟨more, other, scalar', hidden, begins⟩
  · rintro (hidden | ⟨offset, other, scalar', hidden, begins⟩)
    · exact ⟨0, cp, scalar, hidden, List.prefix_append _ _⟩
    · refine ⟨(encode cp).length + offset, other, scalar', hidden, ?_⟩
      rwa [List.drop_length_add_append]

theorem hiddenAt_stray (refused : decode? (b :: t) = none) :
    (∃ offset, HiddenAt (b :: t) offset) ↔ ∃ offset, HiddenAt t offset := by
  constructor
  · rintro ⟨offset, cp, scalar, hidden, begins⟩
    cases offset with
    | zero => exact absurd begins (Utf8.decode_eq_none.mp refused cp scalar)
    | succ offset => exact ⟨offset, cp, scalar, hidden, begins⟩
  · rintro ⟨offset, hidden⟩
    exact ⟨offset + 1, hidden⟩

theorem text_eq_false (t : Text) : text t = false ↔ ∃ offset, HiddenAt t offset := by
  -- The induction is along the characters that the scan passes.
  have divided := Utf8.divided_characters t
  generalize characters t = cs at divided
  induction divided with
  | nil =>
      refine iff_of_false (by rw [text_nil]; decide) ?_
      rintro ⟨offset, cp, scalar, -, begins⟩
      rw [List.drop_nil] at begins
      exact Utf8.encode_nonempty cp (List.prefix_nil.mp begins)
  | whole scalar _ ih =>
      rw [text_encode scalar, Bool.and_eq_false_iff, hiddenAt_encode scalar]
      exact or_congr_right ih
  | stray none _ ih =>
      have refused := Utf8.decode_eq_none.mpr none
      rw [text_stray refused, hiddenAt_stray refused]
      exact ih

theorem hiddenAt_piece (before after : Text) (hidden : HiddenAt t offset) :
    HiddenAt (before ++ t ++ after) (before.length + offset) := by
  obtain ⟨cp, scalar, hidden, begins⟩ := hidden
  refine ⟨cp, scalar, hidden, ?_⟩
  rw [List.append_assoc, List.drop_length_add_append]
  exact begins.trans (List.IsPrefix.drop (List.prefix_append t after) offset)

theorem text_append (whole : WellFormed s) (t : Text) : text (s ++ t) = (text s && text t) := by
  induction whole with
  | nil => rw [List.nil_append, text_nil, Bool.true_and]
  | cons scalar _ ih =>
      rw [List.append_assoc, text_encode scalar, text_encode scalar, ih, Bool.and_assoc]

end Scan

/-- A text is hidden exactly when the encoding of a hidden character begins somewhere in it. So
pieces of what can be shown can be shown, and what is joined to whole characters can be shown just
if both can. -/
theorem hidden_at_any_offset :
    (∀ t, text t = false ↔ ∃ offset, HiddenAt t offset) ∧
    (∀ before t after, text (before ++ t ++ after) = true → text t = true) ∧
    ∀ s t, WellFormed s → (text (s ++ t) = true ↔ text s = true ∧ text t = true) := by
  refine ⟨text_eq_false, fun before t after shown => ?_, fun s t whole => ?_⟩
  · rw [← Bool.not_eq_false, text_eq_false] at shown ⊢
    rintro ⟨offset, hidden⟩
    exact shown ⟨_, hiddenAt_piece before after hidden⟩
  · rw [text_append whole, Bool.and_eq_true]

/-- A hidden character behind the front of another, a piece out of the middle of characters, and
a cut character behind a whole one. -/
theorem hidden_at_any_offset_cut :
    (HiddenAt [0xE2, 0x80, 0xE2, 0x80, 0x8B] 2 ∧ text [0xE2, 0x80, 0xE2, 0x80, 0x8B] = false) ∧
    (text ([0xE2] ++ [0x82, 0xAC] ++ [0xC3]) = true ∧ text [0x82, 0xAC] = true) ∧
    WellFormed [0xC3, 0xA9] ∧
      (text ([0xC3, 0xA9] ++ [0xE2, 0x80]) = true ↔
        text [0xC3, 0xA9] = true ∧ text [0xE2, 0x80] = true) := by
  obtain ⟨hidden, pieces, joined⟩ := hidden_at_any_offset
  have begins : HiddenAt [0xE2, 0x80, 0xE2, 0x80, 0x8B] 2 := ⟨0x200B, by decide⟩
  have shown : text ([0xE2] ++ [0x82, 0xAC] ++ [0xC3]) = true := by cbv
  have whole : WellFormed [0xC3, 0xA9] :=
    Utf8.wellFormed_encode (show isScalar 0xE9 = true by decide)
  exact ⟨⟨begins, (hidden _).mpr ⟨2, begins⟩⟩, ⟨shown, pieces _ _ _ shown⟩, whole,
    joined _ _ whole⟩

end BoundSql.Printable

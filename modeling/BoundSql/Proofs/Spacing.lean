import BoundSql.Proofs.Decoding
import BoundSql.Text.Quoted

/-!
The literal of an empty escaper taken apart: a backslash is dropped and a character is read, until
nothing is left behind a backslash. A byte that began no character beside its old neighbour begins
none beside a backslash either, which continues no character, so the characters that are read are
those that were written, and every text is found again.
-/

namespace BoundSql.Quoted

open Text
open Utf8 (encode isScalar decode? following characters Divided)

/-- What stands between backslashes, a character behind each but the last. -/
def unspaced? : Text → Option Text
  | [] => none
  | [c] => if c = backslash then some [] else none
  | c :: a :: t =>
      if c = backslash then
        (unspaced? (t.drop (following (a :: t)))).map (a :: t.take (following (a :: t)) ++ ·)
      else none
termination_by t => t.length
decreasing_by simp only [List.length_drop, List.length_cons]; omega

section Reading

variable {t rest : Text} {b : UInt8} {cp : Nat}

/-- A character goes on only with continuations. -/
theorem decode_before_backslash (refused : decode? (b :: t) = none) (rest : Text) :
    decode? (b :: backslash :: rest) = none := by
  rw [Utf8.decode_eq_none] at refused ⊢
  intro cp scalar begins
  obtain ⟨lead, others, led, -, continuations, -⟩ := Utf8.encode_shape scalar
  apply refused cp scalar
  rw [led] at begins ⊢
  obtain ⟨rfl, later⟩ := List.cons_prefix_cons.mp begins
  cases others with
  | nil => exact List.cons_prefix_cons.mpr ⟨rfl, List.nil_prefix⟩
  | cons c others =>
      have continues := continuations c List.mem_cons_self
      rw [(List.cons_prefix_cons.mp later).1] at continues
      exact absurd continues (by decide)

theorem unspaced_encode (scalar : isScalar cp = true) (rest : Text) :
    unspaced? (backslash :: (encode cp ++ rest)) = (unspaced? rest).map (encode cp ++ ·) := by
  have more := Utf8.following_encode scalar rest
  obtain ⟨lead, others, led⟩ := List.exists_cons_of_ne_nil (Utf8.encode_nonempty cp)
  rw [led, List.cons_append, List.length_cons, Nat.add_sub_cancel] at more
  rw [led, List.cons_append, unspaced?, if_pos rfl, more, List.drop_left, List.take_left]

theorem unspaced_stray (refused : decode? (b :: rest) = none) :
    unspaced? (backslash :: b :: rest) = (unspaced? rest).map ([b] ++ ·) := by
  rw [unspaced?, if_pos rfl, Utf8.following_stray refused, List.drop_zero, List.take_zero]

/-- What is written for the characters of a text. -/
theorem unspaced_divided {cs : List Text} (divided : Divided t cs) :
    unspaced? (cs.flatMap (backslash :: ·) ++ [backslash]) = some t := by
  induction divided with
  | nil => rw [List.flatMap_nil, List.nil_append, unspaced?, if_pos rfl]
  | whole scalar _ ih =>
      rw [List.flatMap_cons, List.cons_append, List.cons_append, List.append_assoc,
        unspaced_encode scalar, ih, Option.map_some]
  | @stray b t cs none _ ih =>
      have next : ∃ rest, cs.flatMap (backslash :: ·) ++ [backslash] = backslash :: rest := by
        cases cs <;> exact ⟨_, rfl⟩
      obtain ⟨rest, spaced⟩ := next
      have alone := decode_before_backslash (Utf8.decode_eq_none.mpr none) rest
      rw [← spaced] at alone
      rw [List.flatMap_cons, List.cons_append, List.cons_append, List.append_assoc,
        List.singleton_append, unspaced_stray alone, ih, Option.map_some, List.singleton_append]

end Reading

/-- With an empty escaper a literal is a backslash before each character and one at the end; it is
read back character by character, so different texts have different literals. -/
theorem unspaced_escape :
    (∀ t, ∃ cs, Divided t cs ∧ cs.flatten = t ∧
      escape [] t = cs.flatMap (backslash :: ·) ++ [backslash] ∧
      unspaced? (escape [] t) = some t) ∧
    ∀ s t, escape [] s = escape [] t → s = t := by
  have back (t : Text) : unspaced? (escape [] t) = some t :=
    unspaced_divided (Utf8.divided_characters t)
  constructor
  · intro t
    exact ⟨characters t, Utf8.divided_characters t, Utf8.flatten_characters t, rfl, back t⟩
  · intro s t same
    have both := back s
    rw [same, back t] at both
    exact (Option.some.inj both).symm

/-- A cut sequence before a backslash, and a stray continuation behind a whole character. -/
theorem unspaced_escape_cut :
    escape [] [0xC3, backslash, 0xE2, 0x82, 0xAC, 0x82] =
      [backslash, 0xC3, backslash, backslash, backslash, 0xE2, 0x82, 0xAC, backslash, 0x82,
        backslash] ∧
    unspaced? (escape [] [0xC3, backslash, 0xE2, 0x82, 0xAC, 0x82]) =
      some [0xC3, backslash, 0xE2, 0x82, 0xAC, 0x82] ∧
    escape [] [0xC3, backslash, 0x82] ≠ escape [] [0xC3, 0x82] := by
  obtain ⟨cs, -, -, -, back⟩ := unspaced_escape.1 [0xC3, backslash, 0xE2, 0x82, 0xAC, 0x82]
  refine ⟨by cbv, back, fun same => ?_⟩
  exact absurd (unspaced_escape.2 _ _ same) (by decide)

end BoundSql.Quoted

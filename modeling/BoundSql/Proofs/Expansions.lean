import BoundSql.Time.Pattern

/-!
What a time pattern gives, whatever its length, and the buffer that it is written into. The buffer
is doubled as long as nothing could be written, but only so often, and a text that is longer than
the last of the buffers is lost as a whole.
-/

namespace BoundSql.TimePattern

open Text

-- Powers are the built-in ones, whatever else is imported.
attribute [local instance (high)] instPowNat

namespace Directive

theorem width_le_toWidth (d : Directive) (t : Text) : d.width ≤ (d.toWidth t).length := by
  rw [toWidth, List.length_leftpad]
  exact Nat.le_max_left _ _

/-- Whatever a directive gives fills its width. -/
theorem width_le_render (d : Directive) (field : Field) : d.width ≤ (d.render field).length := by
  cases field with
  | text t | word t | mark t | lowered t => exact d.width_le_toWidth _
  | number digits n | blankNumber digits n => exact d.width_le_toWidth _
  | offset seconds =>
      rw [render, List.length_append]
      exact Nat.le_add_right_of_le (d.width_le_toWidth _)

end Directive

section Parts

variable (home : Zone) (m : Moment)

def Item.text : Item → Text
  | .byte c => [c]
  | .directive d => d.render (d.field home m)

/-- All that a pattern gives up to its first zero byte. -/
def complete (pattern : Text) : Text :=
  (items (pattern.takeWhile (· != 0))).flatMap (Item.text home m)

variable {home m} {item : Item} {list : List Item}

/-- Only what is too long is not rendered, and what is rendered is the whole. -/
theorem render_eq_none (lost : item.render? home m = none) :
    limit < (item.text home m).length := by
  cases item with
  | byte c => cases lost
  | directive d =>
      have wide : limit < d.width := by simpa [Item.render?] using lost
      exact Nat.lt_of_lt_of_le wide (d.width_le_render _)

theorem render_eq_some {t : Text} (rendered : item.render? home m = some t) :
    t = item.text home m := by
  cases item with
  | byte c => exact (Option.some.inj rendered).symm
  | directive d =>
      rw [Item.render?] at rendered
      split at rendered
      · cases rendered
      · exact (Option.some.inj rendered).symm

theorem parts_eq_none (lost : list.mapM (Item.render? home m) = none) :
    limit < (list.flatMap (Item.text home m)).length := by
  induction list with
  | nil => cases lost
  | cons item list ih =>
      rw [List.flatMap_cons, List.length_append]
      cases first : item.render? home m with
      | none => exact Nat.lt_add_right _ (render_eq_none first)
      | some t =>
          cases others : list.mapM (Item.render? home m) with
          | none => exact Nat.lt_add_left _ (ih others)
          | some parts => simp [first, others] at lost

theorem parts_eq_some {parts : List Text} (rendered : list.mapM (Item.render? home m) = some parts) :
    parts.flatten = list.flatMap (Item.text home m) := by
  induction list generalizing parts with
  | nil =>
      cases rendered
      rfl
  | cons item list ih =>
      rw [List.mapM_cons] at rendered
      obtain ⟨t, first, rendered⟩ := Option.bind_eq_some_iff.mp rendered
      obtain ⟨others, rest, same⟩ := Option.bind_eq_some_iff.mp rendered
      cases same
      rw [List.flatten_cons, List.flatMap_cons, ih rest, render_eq_some first]

/-- A pattern gives all or nothing. -/
theorem expand_eq (home : Zone) (m : Moment) (pattern : Text) : expand home m pattern =
    if limit < (complete home m pattern).length then [] else complete home m pattern := by
  rw [expand, expand?]
  cases parts : (items (pattern.takeWhile (· != 0))).mapM (Item.render? home m) with
  | none => exact (if_pos (parts_eq_none parts)).symm
  | some parts' =>
      simp only [Option.bind_eq_bind, Option.bind_some, parts_eq_some parts]
      rw [complete]
      split <;> rfl

/-- A pattern without a percent sign and a zero byte gives itself. -/
theorem complete_plain {pattern : Text} (plain : percent ∉ pattern) (whole : 0 ∉ pattern) :
    complete home m pattern = pattern := by
  induction pattern with
  | nil => rw [complete, List.takeWhile_nil, items, List.flatMap_nil]
  | cons c t ih =>
      obtain ⟨other, plain⟩ := List.ne_and_not_mem_of_not_mem_cons plain
      obtain ⟨some, whole⟩ := List.ne_and_not_mem_of_not_mem_cons whole
      have later := ih plain whole
      rw [complete] at later
      rw [complete, List.takeWhile_cons_of_pos (by simpa using some.symm), items,
        if_neg other.symm, List.flatMap_cons, later]
      rfl

end Parts

section Buffers

/-- Writes a text and a zero byte into a buffer, which is doubled as long as nothing was written. -/
def retried : Nat → Nat → Text → Text
  | 0, _, _ => []
  | tries + 1, size, t =>
      let written := if t.length < size then t else []
      if written = [] then retried tries (size * 2) t else written

theorem retried_nil (tries size : Nat) : retried tries size [] = [] := by
  induction tries generalizing size with
  | zero => rfl
  | succ tries ih => simp [retried, ih]

/-- Only the last buffer decides. -/
theorem retried_eq (tries size : Nat) (t : Text) :
    retried (tries + 1) size t = if t.length < size * 2 ^ tries then t else [] := by
  by_cases none : t = []
  · subst none
    rw [retried_nil, ite_self]
  induction tries generalizing size with
  | zero => simp [retried]
  | succ tries ih =>
      have grown : size * 2 ^ (tries + 1) = size * 2 * 2 ^ tries := by
        rw [Nat.pow_succ, Nat.mul_comm (2 ^ tries), Nat.mul_assoc]
      rw [retried, grown, ih]
      by_cases fits : t.length < size
      · have reach : size ≤ size * 2 * 2 ^ tries := by
          rw [Nat.mul_assoc]
          exact Nat.le_mul_of_pos_right _ (Nat.mul_pos Nat.two_pos (Nat.two_pow_pos _))
        rw [if_pos fits, if_neg none, if_pos (Nat.lt_of_lt_of_le fits reach)]
      · rw [if_neg fits, if_pos rfl]

/-- Eight buffers, the first one of 64 bytes. -/
theorem expand_retried (home : Zone) (m : Moment) (pattern : Text) :
    expand home m pattern = retried 8 64 (complete home m pattern) := by
  have most : 64 * 2 ^ 7 = limit + 1 := rfl
  rw [expand_eq, retried_eq, most]
  simp only [Nat.lt_succ_iff, ← Nat.not_lt, ite_not]

end Buffers

end BoundSql.TimePattern

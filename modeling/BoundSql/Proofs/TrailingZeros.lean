import BoundSql.Formatter
import BoundSql.Proofs.Positional

/-!
Zeros at the end of a text. They are trimmed and nothing else is, and behind a point they do not
count for what digits write.
-/

namespace BoundSql

open Text
open Template (IsNumber)

-- Powers are the built-in ones, whatever else is imported.
attribute [local instance (high)] instPowNat

/-- A point and digits of which the last is no zero, or nothing. -/
inductive IsPlaces : Text → Prop
  | none : IsPlaces []
  | places {digits} (number : IsNumber digits) (last : digits.getLast? ≠ some zero) :
      IsPlaces (point :: digits)

/-- A text with so many digits behind its only point, or without a point if there are none. -/
inductive HasPlaces : Nat → Text → Prop
  | none {t} (plain : point ∉ t) : HasPlaces 0 t
  | some {t digits} (plain : point ∉ t) (number : IsNumber digits) :
      HasPlaces digits.length (t ++ point :: digits)

/-- Without the zeros at the end of its places, and then without a point that nothing follows. -/
def withoutZeros (t : Text) : Text :=
  let places := Formatter.trimZeros (t.dropWhile (· != point))
  t.takeWhile (· != point) ++ if places = [point] then [] else places

/-- Places with their point, if there are any. -/
def pointed (digits : Text) : Text := if digits = [] then [] else point :: digits

namespace Formatter

variable {t : Text}

theorem trimZeros_zeros (t : Text) : ∃ count, t = trimZeros t ++ List.replicate count zero := by
  have parts := List.takeWhile_append_dropWhile (p := (· == zero)) (l := t.reverse)
  have zeros : ∀ c ∈ t.reverse.takeWhile (· == zero), c = zero := by
    intro c member
    exact beq_iff_eq.mp (List.all_eq_true.mp List.all_takeWhile c member)
  refine ⟨(t.reverse.takeWhile (· == zero)).length, ?_⟩
  have same := congrArg List.reverse parts
  rw [List.reverse_append, List.reverse_reverse, List.eq_replicate_of_mem zeros,
    List.reverse_replicate] at same
  exact same.symm

theorem trimZeros_last (t : Text) : (trimZeros t).getLast? ≠ some zero := by
  have stopped := List.head?_dropWhile_not (· == zero) t.reverse
  rw [trimZeros, List.getLast?_reverse]
  intro last
  rw [last] at stopped
  simp at stopped

theorem trimZeros_cons {c : UInt8} (other : c ≠ zero) (t : Text) :
    trimZeros (c :: t) = c :: trimZeros t := by
  have kept : [c].dropWhile (· == zero) = [c] := List.dropWhile_cons_of_neg (by simpa using other)
  rw [trimZeros, trimZeros, List.reverse_cons, List.dropWhile_append]
  split
  · next gone => rw [kept, List.isEmpty_iff.mp gone]; rfl
  · rw [List.reverse_append]; rfl

end Formatter

section Places

variable {t digits : Text}

theorem hasPlaces_pointed (plain : point ∉ t) (all : ∀ c ∈ digits, isDigit c = true) :
    HasPlaces digits.length (t ++ pointed digits) := by
  unfold pointed
  split
  · next none =>
      rw [none, List.append_nil]
      exact .none plain
  · next some => exact .some plain ⟨some, all⟩

theorem isPlaces_pointed (all : ∀ c ∈ digits, isDigit c = true)
    (last : digits.getLast? ≠ some zero) : IsPlaces (pointed digits) := by
  unfold pointed
  split
  · exact .none
  · next some => exact .places ⟨some, all⟩ last

theorem withoutZeros_pointed (plain : point ∉ t) (digits : Text) :
    withoutZeros (t ++ pointed digits) = t ++ pointed (Formatter.trimZeros digits) := by
  have other : ∀ c ∈ t, (c != point) = true := by
    intro c member
    exact bne_iff_ne.mpr fun same => plain (same ▸ member)
  have stop : (pointed digits).takeWhile (· != point) = [] := by
    unfold pointed
    split <;> rfl
  have stay : (pointed digits).dropWhile (· != point) = pointed digits := by
    unfold pointed
    split <;> rfl
  rw [withoutZeros, List.takeWhile_append_of_pos other, List.dropWhile_append_of_pos other, stop,
    stay, List.append_nil]
  congr 1
  by_cases none : digits = []
  · rw [none]
    rfl
  · have apart : point ≠ zero := by decide
    rw [pointed, if_neg none, Formatter.trimZeros_cons apart, pointed]
    by_cases gone : Formatter.trimZeros digits = []
    · rw [gone, if_pos rfl, if_pos rfl]
    · rw [if_neg gone, if_neg (by simpa using gone)]

end Places

/-- Zeros behind the places of a number add nothing to it. -/
theorem Numeral.value_trimZeros (t : Text) :
    (value t / 10 ^ t.length : ℚ) =
      value (Formatter.trimZeros t) / 10 ^ (Formatter.trimZeros t).length := by
  obtain ⟨count, parts⟩ := Formatter.trimZeros_zeros t
  have ten : (10 : ℚ) ^ count ≠ 0 := by positivity
  have size := value_mul_pow (Formatter.trimZeros t) count
  rw [← parts] at size
  have length : t.length = (Formatter.trimZeros t).length + count := by
    conv_lhs => rw [parts, List.length_append, List.length_replicate]
  rw [size, length, pow_add]
  push_cast
  rw [mul_div_mul_right _ _ ten]

end BoundSql

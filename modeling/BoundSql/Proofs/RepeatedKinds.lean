import BoundSql.Proofs.Readings
import BoundSql.Proofs.Unwrapping

/-!
A kind of conversion that is named again changes nothing. An object is asked for the kinds in order
until one fits, and a kind that did not fit the first time does not fit later, so the settings may
keep each kind where it is first named. Whatever a value is wrapped in, and however often, it is
shown the same.
-/

namespace BoundSql

open Text

section Search

variable {α β : Type} [BEq α] [LawfulBEq α] {find? : α → Option β} {a : α}

/-- What gives nothing need not be searched. -/
theorem findSome_without (nothing : find? a = none) (l : List α) :
    (l.filter fun b => !b == a).findSome? find? = l.findSome? find? := by
  induction l with
  | nil => rfl
  | cons b l ih =>
      by_cases same : b = a
      · subst same
        have refused : (find? b).isNone := by simp [nothing]
        rw [List.filter_cons_of_neg (by simp), List.findSome?_cons_of_isNone refused, ih]
      · rw [List.filter_cons_of_pos (by simpa using same), List.findSome?_cons, List.findSome?_cons,
          ih]

theorem findSome_eraseDups (find? : α → Option β) (l : List α) :
    l.eraseDups.findSome? find? = l.findSome? find? := by
  induction count : l.length using Nat.strongRecOn generalizing l with
  | ind n ih =>
      cases l with
      | nil => rfl
      | cons a l =>
          have shorter : (l.filter fun b => !b == a).length < n := by
            rw [← count]
            exact Nat.lt_succ_of_le (List.length_filter_le _ _)
          rw [List.eraseDups_cons, List.findSome?_cons, List.findSome?_cons]
          cases found : find? a with
          | some b => rfl
          | none => exact (ih _ shorter _ rfl).trans (findSome_without found l)

end Search

namespace Formatter

variable {f : Formatter} {kinds others : List Convertible}

section Orders

variable (same : ∀ g, converted? g kinds = converted? g others)

include same

theorem unwrap_orders (v : Value) :
    { f with conversions := kinds }.unwrap? v = { f with conversions := others }.unwrap? v := by
  match v with
  | .generic (some g) => simp only [unwrap?, same g]
  | .null | .bool _ | .time _ | .maybeTime _ | .driver _ | .stringer _ | .bytes _ | .int _
  | .uint _ | .single _ | .double _ | .text _ | .reference _ | .generic none | .endless _ => rfl

/-- Two orders in which every object is converted alike show every value alike. -/
theorem literal_orders (home : Zone) (escaper : Text) (left : Nat) (v : Value) :
    { f with conversions := kinds }.literal home escaper left v =
      { f with conversions := others }.literal home escaper left v := by
  -- The induction is on the steps that are left, each of which may be a conversion.
  induction left generalizing v with
  | zero => rfl
  | succ left ih =>
      rw [literal_round, literal_round, unwrap_orders same]
      cases { f with conversions := others }.unwrap? v with
      | some u => exact ih u
      | none => cases v <;> rfl

end Orders

end Formatter

namespace Settings

open Formatter

/-- A formatter with each kind where it is first named shows every value as one with all of them,
and for any sequence of such names it is the one that the settings keep. -/
theorem format_distinct (f : Formatter) (kinds : List Convertible) :
    (∀ home v escaper, { f with conversions := kinds.eraseDups }.format home v escaper =
      { f with conversions := kinds }.format home v escaper) ∧
    ∀ items, List.Forall₂ Meaning.convertible items kinds →
      ∃ change, Key.conversions (.sequence items) = .ok change ∧
        ∀ s, s.formatter = f →
          (change s).formatter = { f with conversions := kinds.eraseDups } := by
  constructor
  · intro home v escaper
    have same (g : Generic Value) : converted? g kinds.eraseDups = converted? g kinds :=
      findSome_eraseDups _ kinds
    exact literal_orders same home escaper _ v
  · intro items named
    have read := Key.conversions_read.mpr ⟨_, ⟨items, kinds, rfl, named, rfl⟩, rfl⟩
    refine ⟨_, read, ?_⟩
    rintro s rfl
    rfl

/-- A kind that is refused is named twice before the one that fits, in two spellings. -/
theorem format_distinct_spellings :
    let object : Generic Value :=
      ⟨ascii "object", fun | .bytes => some (.int 1) | .time => none | .bool => some (.bool true),
        none⟩
    let v := Value.reference (some (.generic (some object)))
    List.Forall₂ Meaning.convertible
      [.scalar (ascii "bytes"), .scalar (ascii "Bytes"), .scalar (ascii "bool")]
      [.bytes, .bytes, .bool] ∧
    (∃ change, Key.conversions (.sequence
        [.scalar (ascii "bytes"), .scalar (ascii "Bytes"), .scalar (ascii "bool")]) = .ok change ∧
      (change {}).formatter.conversions = [.bytes, .bool] ∧
      (change {}).formatter.format .universal v [] = ascii "true") := by
  intro object v
  have named : List.Forall₂ Meaning.convertible
      [.scalar (ascii "bytes"), .scalar (ascii "Bytes"), .scalar (ascii "bool")]
      [.bytes, .bytes, .bool] :=
    .cons (Meaning.convertible_iff.mpr ⟨_, rfl, rfl⟩) <|
      .cons (Meaning.convertible_iff.mpr ⟨_, rfl, rfl⟩) <|
        .cons (Meaning.convertible_iff.mpr ⟨_, rfl, rfl⟩) .nil
  obtain ⟨sameText, loads⟩ := format_distinct {} [.bytes, .bytes, .bool]
  obtain ⟨change, read, keeps⟩ := loads _ named
  refine ⟨named, change, read, ?_, ?_⟩
  · rw [keeps {} rfl]
    rfl
  · rw [keeps {} rfl, sameText]
    rfl

end Settings

end BoundSql

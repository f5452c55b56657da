import BoundSql.Proofs.Collisions
import BoundSql.Proofs.Cuts

/-!
Filling a template without dollar signs, whatever the pattern. All signs in the brought form are
then those around the matches. If every match captures a number, each is filled where it stands.
If the pattern captures nothing, every match leaves two signs side by side, and a number that is
all there is between two matches stands between signs as well: it is taken for a token.
-/

namespace BoundSql.Template

open Text
open Regex (Segment Match Cut gaps)

theorem isNumber_iff {t : Text} : (t != [] && t.all isDigit) = true ↔ IsNumber t := by
  rw [Bool.and_eq_true, bne_iff_ne, List.all_eq_true]
  exact ⟨fun parts => ⟨parts.1, parts.2⟩, fun number => ⟨number.nonempty, number.digits⟩⟩

instance (t : Text) : Decidable (IsNumber t) := decidable_of_iff _ isNumber_iff

/-- A text with its matches replaced by the values they number. -/
def filledSegment (values : List Text) : Segment → Text
  | .gap t => t
  | .found m => shown values m.number

theorem fill_cut {groups : Nat} {t : Text} {segments : List Segment} (values : List Text)
    (cut : Cut groups t segments) (clean : dollar ∉ t)
    (numbered : ∀ m, Segment.found m ∈ segments → IsNumber m.number) :
    fillNumbered values (segments.flatMap normalSegment) =
      segments.flatMap (filledSegment values) := by
  induction cut with
  | last t =>
      have filled := fill_append values [] clean
      simpa [normalSegment, filledSegment, fill_nil] using filled
  | @between gap t m segments captures later ih =>
      simp only [List.mem_append, not_or] at clean
      have number := numbered m (by simp)
      have tail := ih clean.2.2 fun m' member => numbered m' (by simp [member])
      simp only [List.flatMap_cons, normalSegment, filledSegment]
      rw [fill_append values _ clean.1, fill_canonical values _ number, tail]

/-- Matches that capture numbers are filled where they stand, and the text between them stays. The
gaps and the matches are the whole template, so this is one pass over it. -/
theorem explain_matches {p : Regex.Pattern} {template : Text} (clean : dollar ∉ template)
    (numbered : ∀ m, Segment.found m ∈ p.segments template →
      ∃ digits, m.captures.head? = some (some digits) ∧ IsNumber digits)
    (literal : Literals) (escaper : Text) (values : List Value) :
    (p.segments template).flatMap Segment.source = template ∧
      explain literal (.numbered p) escaper template values =
        (p.segments template).flatMap
          (filledSegment (values.map fun v => literal v escaper)) := by
  have cut := p.segments_cut template
  refine ⟨cut.source, fill_cut _ cut clean fun m member => ?_⟩
  obtain ⟨digits, captured, number⟩ := numbered m member
  rwa [Match.number, captured, Option.join_some, Option.getD_some]

/-- Two placeholders that touch, after a digit, the second one without a value. -/
theorem explain_matches_touching :
    dollar ∉ ascii "5@p1@p12" ∧
      (∀ m, Segment.found m ∈ (Regex.shaped sqlServer).segments (ascii "5@p1@p12") →
        ∃ digits, m.captures.head? = some (some digits) ∧ IsNumber digits) ∧
      explain (defaultLiterals Zone.universal) (.numbered (Regex.shaped sqlServer)) (ascii "'")
        (ascii "5@p1@p12") [.int 7] = ascii "57$12$" := by
  have segments : (Regex.shaped sqlServer).segments (ascii "5@p1@p12") =
      [.gap (ascii "5"), .found ⟨ascii "@p1", [some (ascii "1")]⟩, .gap [],
        .found ⟨ascii "@p12", [some (ascii "12")]⟩, .gap []] := by
    cbv
  have clean : dollar ∉ ascii "5@p1@p12" := by decide
  have numbered : ∀ m, Segment.found m ∈ (Regex.shaped sqlServer).segments (ascii "5@p1@p12") →
      ∃ digits, m.captures.head? = some (some digits) ∧ IsNumber digits := by
    intro m member
    simp only [segments, List.mem_cons, Segment.found.injEq, reduceCtorEq, false_or, or_false,
      List.not_mem_nil] at member
    rcases member with rfl | rfl
    · exact ⟨ascii "1", rfl, by decide⟩
    · exact ⟨ascii "12", rfl, by decide⟩
  refine ⟨clean, numbered, ?_⟩
  rw [(explain_matches clean numbered _ _ _).2, segments]
  cbv

-- Without groups nothing is captured, and every match is brought to two dollar signs.
theorem normal_groupless {t : Text} {segments : List Segment} (cut : Cut 0 t segments) :
    segments.flatMap normalSegment = [dollar, dollar].intercalate (gaps segments) := by
  induction cut with
  | last t => simp [normalSegment, gaps, Segment.gap?]
  | @between gap t m segments captures later ih =>
      obtain ⟨next, others, parts⟩ := List.exists_cons_of_ne_nil later.gaps_ne_nil
      have none : m.number = [] := by simp [Match.number, List.length_eq_zero_iff.mp captures]
      have split : gaps (.gap gap :: .found m :: segments) = gap :: next :: others := by
        rw [← parts]
        rfl
      rw [List.flatMap_cons, List.flatMap_cons, ih, split, parts]
      simp [normalSegment, none, canonical]

/-- What the scan makes of a gap between two dollar signs. -/
def held (values : List Text) (gap : Text) : Text :=
  if IsNumber gap then shown values gap else canonical gap

theorem number_none_of_clean {t : Text} (clean : dollar ∉ t) : number? t = none := by
  refine Option.eq_none_iff_forall_ne_some.mpr ?_
  rintro ⟨digits, rest⟩ found
  rw [eq_of_number found] at clean
  simp at clean

theorem number_none_of_sign (later : Text) : number? (dollar :: later) = none :=
  number_none_of_ended (no_digit_ahead_cons.mpr (by decide))

theorem same_before_sign {t t' later later' : Text} (clean : dollar ∉ t) (clean' : dollar ∉ t')
    (same : t ++ dollar :: later = t' ++ dollar :: later') : t = t' := by
  have whole {t : Text} (clean : dollar ∉ t) (later : Text) :
      (t ++ dollar :: later).takeWhile (· != dollar) = t := by
    have others : ∀ c ∈ t, (c != dollar) = true := fun c member =>
      bne_iff_ne.mpr fun sign => clean (sign ▸ member)
    simp [List.takeWhile_append_of_pos others]
  rw [← whole clean later, same, whole clean' later']

section Enclosed

variable (values : List Text)

theorem fill_held {gap : Text} (clean : dollar ∉ gap) (later : Text) :
    fillNumbered values (dollar :: (gap ++ dollar :: dollar :: later)) =
      held values gap ++ fillNumbered values (dollar :: later) := by
  by_cases number : IsNumber gap
  · have token : dollar :: (gap ++ dollar :: dollar :: later) =
        canonical gap ++ dollar :: later := by simp [canonical]
    rw [token, fill_canonical values _ number, held, if_pos number]
  · have unread : number? (gap ++ dollar :: dollar :: later) = none := by
      refine Option.eq_none_iff_forall_ne_some.mpr ?_
      rintro ⟨digits, rest⟩ found
      obtain ⟨isNumber, same⟩ := number_eq_some.mp found
      have absent := isNumber.not_mem (b := dollar) (by decide)
      exact number (same_before_sign clean absent same ▸ isNumber)
    rw [fill_dollar values unread, fill_append values _ clean,
      fill_dollar values (number_none_of_sign later), held, if_neg number]
    simp [canonical]

theorem joined_signs (gap last : Text) (inner : List Text) :
    [dollar, dollar].intercalate (gap :: (inner ++ [last])) =
      gap ++ dollar :: dollar :: [dollar, dollar].intercalate (inner ++ [last]) := by
  rw [List.intercalate_cons_of_ne_nil (by simp)]
  simp

/-- The second sign of a match opens the gap after it and the first sign of the next one closes it,
whether or not the gap before was a number as well. -/
theorem fill_enclosed {last : Text} (cleanLast : dollar ∉ last) (inner : List Text)
    (clean : ∀ gap ∈ inner, dollar ∉ gap) :
    fillNumbered values (dollar :: [dollar, dollar].intercalate (inner ++ [last])) =
      inner.flatMap (held values) ++ dollar :: last := by
  induction inner with
  | nil =>
      have rest := fill_append values [] cleanLast
      rw [List.append_nil, fill_nil, List.append_nil] at rest
      rw [List.nil_append, List.intercalate_singleton,
        fill_dollar values (number_none_of_clean cleanLast), rest]
      rfl
  | cons gap inner ih =>
      have tail := ih fun other member => clean other (List.mem_cons_of_mem gap member)
      rw [List.cons_append, joined_signs, fill_held values (clean gap List.mem_cons_self), tail,
        List.flatMap_cons, List.append_assoc]

end Enclosed

/-- Only the texts between two matches depend on the values. -/
theorem fill_groupless {p : Regex.Pattern} (groupless : p.groups = 0) {template : Text}
    (clean : dollar ∉ template) :
    ∃ front back : Text, ∀ values, fillNumbered values (normalised p template) =
      front ++ (p.enclosed template).flatMap (held values) ++ back := by
  have cut := p.segments_cut template
  rw [groupless] at cut
  have cleanGaps := cut.gaps_clean clean
  rw [Regex.Pattern.enclosed, normalised, normal_groupless cut]
  obtain ⟨first, others, parts⟩ := List.exists_cons_of_ne_nil cut.gaps_ne_nil
  rw [parts] at cleanGaps ⊢
  have cleanFirst := cleanGaps first List.mem_cons_self
  rcases List.eq_nil_or_concat others with rfl | ⟨inner, last, rfl⟩
  · refine ⟨first, [], fun values => ?_⟩
    have kept := fill_append values [] cleanFirst
    simpa [fill_nil] using kept
  · refine ⟨first ++ [dollar], dollar :: last, fun values => ?_⟩
    have cleanInner : ∀ gap ∈ inner, dollar ∉ gap := fun gap member =>
      cleanGaps gap (by simp [member])
    have cleanLast : dollar ∉ last := cleanGaps last (by simp)
    rw [List.concat_eq_append, joined_signs, fill_append values _ cleanFirst,
      fill_dollar values (number_none_of_sign _), fill_enclosed values cleanLast inner cleanInner]
    simp

theorem shown_nil (digits : Text) : shown [] digits = canonical digits := by
  refine dif_neg fun inside => ?_
  exact absurd (Nat.le_trans inside.1 inside.2) (by simp)

theorem held_or_apart (n : Nat) (gap : Text) :
    held (blanks n) gap = held [] gap ∨
      ∀ later later' : Text, held (blanks n) gap ++ later ≠ held [] gap ++ later' := by
  have unfilled : held [] gap = canonical gap := by
    unfold held
    split
    · exact shown_nil gap
    · rfl
  rw [unfilled]
  unfold held
  split
  · rcases shown_blanks n gap with blank | kept
    · right
      intro later later'
      simp [blank, canonical, blank_ne_dollar]
    · exact .inl kept
  · exact .inl rfl

/-- Two ways to write an item that differ at once, whatever follows, are told apart by a list. -/
theorem flatMap_injective {α : Type} {items : List α} {write write' : α → Text}
    (apart : ∀ item, write item = write' item ∨
      ∀ later later' : Text, write item ++ later ≠ write' item ++ later')
    (same : items.flatMap write = items.flatMap write') :
    ∀ item ∈ items, write item = write' item := by
  induction items with
  | nil => simp
  | cons first items ih =>
      rw [List.flatMap_cons, List.flatMap_cons] at same
      have equal := (apart first).resolve_right fun different => different _ _ same
      rw [equal] at same
      have others := ih (List.append_cancel_left same)
      intro item member
      rcases List.mem_cons.mp member with rfl | member
      · exact equal
      · exact others item member

/-- Without groups no value is let through exactly if no number but zero stands between two
matches by itself. -/
theorem explain_groupless_iff {p : Regex.Pattern} (groupless : p.groups = 0) {template : Text}
    (clean : dollar ∉ template) :
    (∀ (literal : Literals) (escaper : Text) (values values' : List Value),
      explain literal (.numbered p) escaper template values =
        explain literal (.numbered p) escaper template values') ↔
      ∀ digits ∈ p.enclosed template, IsNumber digits → Numeral.value digits = 0 := by
  obtain ⟨front, back, filled⟩ := fill_groupless groupless clean
  constructor
  · intro same digits member number
    have texts := same verbatim [] ((blanks (Numeral.value digits)).map .text) []
    simp only [explain, fill, map_verbatim, List.map_nil, filled] at texts
    have between := List.append_cancel_left (List.append_cancel_right texts)
    have equal := flatMap_injective (held_or_apart _) between digits member
    by_contra positive
    rw [held, held, if_pos number, if_pos number, shown_blank positive (Nat.le_refl _),
      shown_nil] at equal
    simp [canonical] at equal
  · intro zero literal escaper values values'
    have kept (texts : List Text) : (p.enclosed template).flatMap (held texts) =
        (p.enclosed template).flatMap canonical := by
      refine List.flatMap_congr fun digits member => ?_
      unfold held
      split
      · next number => exact shown_zero texts (zero digits member number)
      · rfl
    simp only [explain, fill, filled, kept]

/-- The pattern of a single letter. -/
def letter : Regex.Pattern := ⟨.seq (.bytes (.only 120)) .empty, 0⟩

theorem letter_pattern : Regex.Pattern.ofText? (ascii "x") = some letter := by decide

/-- Numbers at the ends, a number with text beside it and a zero do no harm. -/
theorem explain_groupless_apart :
    letter.groups = 0 ∧ dollar ∉ ascii "1x0xa2x3" ∧
      ∀ (literal : Literals) (escaper : Text) (values values' : List Value),
        explain literal (.numbered letter) escaper (ascii "1x0xa2x3") values =
          explain literal (.numbered letter) escaper (ascii "1x0xa2x3") values' := by
  have clean : dollar ∉ ascii "1x0xa2x3" := by decide
  have enclosed : letter.enclosed (ascii "1x0xa2x3") = [ascii "0", ascii "a2"] := by cbv
  refine ⟨rfl, clean, (explain_groupless_iff rfl clean).mpr ?_⟩
  rw [enclosed]
  decide

/-- The number between two matches is filled like a placeholder. -/
theorem groupless_leak :
    ¬ ∀ (source : Text) (p : Regex.Pattern), Regex.Pattern.ofText? source = some p →
      p.groups = 0 → ∀ template : Text, dollar ∉ template →
        ∀ (literal : Literals) (escaper : Text) (values values' : List Value),
          explain literal (.numbered p) escaper template values =
            explain literal (.numbered p) escaper template values' := by
  intro always
  have same := always _ letter letter_pattern rfl (ascii "x1x") (by decide)
    (defaultLiterals Zone.universal) (ascii "'") [.int 7] []
  have given : explain (defaultLiterals Zone.universal) (.numbered letter) (ascii "'")
      (ascii "x1x") [.int 7] = ascii "$7$" := by
    cbv
  have unfilled : explain (defaultLiterals Zone.universal) (.numbered letter) (ascii "'")
      (ascii "x1x") [] = ascii "$$1$$" := by
    cbv
  rw [given, unfilled] at same
  exact absurd same (by decide)

end BoundSql.Template

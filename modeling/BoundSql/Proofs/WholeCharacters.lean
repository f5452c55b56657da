import BoundSql.Proofs.Characters
import BoundSql.Proofs.Lines
import BoundSql.Proofs.Literals
import BoundSql.Proofs.UsualTimes
import BoundSql.Template
import Mathlib.Logic.Relation

/-!
Explaining keeps characters whole. Marks and escapers are looked for byte by byte, and what is
written around them is ASCII, so where template, escaper and texts are of whole characters the
statement is, and its line in the log as well.
-/

namespace BoundSql

open Text
open Utf8 (WellFormed encode encode_bytes encode_shape isContinuation wellFormed_visible)

namespace Quoted

theorem wellFormed_slash : WellFormed [backslash] := wellFormed_visible (by decide)

theorem wellFormed_spaced {t : Text} (text : WellFormed t) : WellFormed (spaced t) := by
  induction text with
  | nil => simpa [spaced, Utf8.characters] using wellFormed_slash
  | @cons cp t scalar _ ih =>
      have front : spaced (encode cp ++ t) = [backslash] ++ (encode cp ++ spaced t) := by
        simp [spaced, Utf8.characters_encode scalar]
      rw [front]
      exact wellFormed_slash.append (.cons scalar ih)

section

variable {first : UInt8} {others : Text}

/-- An escaper does not begin with a continuation, so it is not found at one. -/
theorem guarded_continuations (lead : isContinuation first = false) {tail : Text}
    (all : ∀ c ∈ tail, isContinuation c = true) (t : Text) :
    guarded first others (tail ++ t) = tail ++ guarded first others t := by
  induction tail with
  | nil => rfl
  | cons c tail ih =>
      have apart : first ≠ c := by
        rintro rfl
        exact Bool.false_ne_true (lead.symm.trans (all first List.mem_cons_self))
      have missed : ¬ (first :: others).isPrefixOf (c :: (tail ++ t)) = true := by
        simp [List.isPrefixOf, apart]
      rw [List.cons_append, guarded, if_neg missed, List.cons_append,
        ih fun b later => all b (List.mem_cons_of_mem c later)]

/-- An escaper is found between characters only, and ends between characters. -/
theorem wellFormed_guarded {t : Text} (escaper : WellFormed (first :: others))
    (text : WellFormed t) : WellFormed (guarded first others t) := by
  -- An escaper may be several characters long, so the induction is on the length of the text.
  induction hn : t.length using Nat.strongRecOn generalizing t with
  | ind n ih =>
      by_cases found : first :: others <+: t
      · obtain ⟨rest, rfl⟩ := found
        have shorter : rest.length < n := by
          rw [← hn, List.length_append, List.length_cons]
          omega
        rw [guarded_found]
        exact wellFormed_slash.append
          (escaper.append (ih _ shorter (escaper.of_append text) rfl))
      · cases text with
        | nil =>
            rw [guarded]
            exact .nil
        | @cons cp t scalar later =>
            obtain ⟨lead, tail, led, -, all, -⟩ := encode_shape scalar
            rw [led, List.cons_append] at found hn
            have shorter : t.length < n := by
              rw [← hn, List.length_cons, List.length_append]
              omega
            have whole := WellFormed.cons scalar (ih _ shorter later rfl)
            have begins := Utf8.lead_of_wellFormed escaper
            rw [led, List.cons_append] at whole ⊢
            rwa [guarded_missed found, guarded_continuations begins all]

end

theorem wellFormed_escape {escaper t : Text} (quote : WellFormed escaper) (text : WellFormed t) :
    WellFormed (escape escaper t) := by
  cases escaper with
  | nil => exact wellFormed_spaced text
  | cons first others => exact (quote.append (wellFormed_guarded quote text)).append quote

end Quoted

namespace JsonString

theorem escape_plain {t : Text} (plain : ∀ c ∈ t, 0x80 ≤ c) : escape t = t := by
  induction t with
  | nil => rfl
  | cons c t ih =>
      obtain ⟨large, later⟩ := List.forall_mem_cons.mp plain
      have itself : escapeByte c = [c] := by
        rcases Trace.escapeByte_cases c with ⟨-, itself⟩ | ⟨small, -⟩
        · exact itself
        · exact absurd small (UInt8.not_lt.mpr large)
      have rest : t.flatMap escapeByte = t := ih later
      rw [escape, List.flatMap_cons, itself, rest, List.singleton_append]

theorem wellFormed_escape {t : Text} (text : WellFormed t) : WellFormed (escape t) := by
  induction text with
  | nil => exact .nil
  | @cons cp t scalar _ ih =>
      have split : escape (encode cp ++ t) = escape (encode cp) ++ escape t := List.flatMap_append
      rw [split]
      rcases encode_bytes scalar with ⟨c, small, single⟩ | large
      · have written : escape (encode cp) = escapeByte c := by
          rw [single, escape, List.flatMap_singleton]
        rw [written]
        rcases Trace.escapeByte_cases c with ⟨above, itself⟩ | ⟨-, visible⟩
        · rw [itself]
          have visible : IsVisible [c] :=
            List.forall_mem_singleton.mpr ⟨UInt8.not_lt.mp above, small⟩
          exact (wellFormed_visible visible).append ih
        · exact (wellFormed_visible visible).append ih
      · rw [escape_plain large]
        exact .cons scalar ih

theorem wellFormed_quoted {t : Text} (text : WellFormed t) : WellFormed (quoted t) := by
  have quote : WellFormed [doubleQuote] := wellFormed_visible (by decide)
  exact (quote.append (wellFormed_escape text)).append quote

end JsonString

namespace Value

/-- One value holds another: as what it refers to, as a driver's answer, or as what it converts
to, whether or not that is of the kind asked for. -/
inductive Encloses : Value → Value → Prop
  | reference {v} : Encloses (.reference (some v)) v
  | driver {v} : Encloses (.driver (some (.value v))) v
  | object {g v} (answers : g.driver = some (.value v)) : Encloses (.generic (some g)) v
  | conversion {g kind v} (converts : g.convert kind = some v) : Encloses (.generic (some g)) v
  | endless {layers v} (first : Encloses (opened layers) v) : Encloses (.endless layers) v

/-- All texts in a value are of whole characters, however deep they are. -/
def WellFormed (v : Value) : Prop :=
  ∀ w, Relation.ReflTransGen Encloses v w → ∀ t ∈ w.texts, Utf8.WellFormed t

variable {v u w : Value}

theorem WellFormed.enclosed (whole : v.WellFormed) (within : v.Encloses u) : u.WellFormed :=
  fun w others => whole w (.head within others)

theorem wellFormed_of (own : ∀ t ∈ v.texts, Utf8.WellFormed t)
    (inner : ∀ u, v.Encloses u → u.WellFormed) : v.WellFormed := by
  intro w reached
  rcases reached.cases_head with rfl | ⟨u, within, others⟩
  · exact own
  · exact inner u within w others

/-- Whatever the order of conversions, only what a value holds comes out of it. -/
theorem encloses_of_unwraps {f : Formatter} (step : f.Unwraps v u) : v.Encloses u := by
  induction step with
  | reference => exact .reference
  | driver => exact .driver
  | object answers => exact .object answers
  | conversion _ _ _ converts _ => exact .conversion converts
  | endless _ ih => exact .endless ih

theorem WellFormed.follows {f : Formatter} {k : Nat} (whole : v.WellFormed)
    (follows : f.Follows k v w) : w.WellFormed := by
  induction follows with
  | stay => exact whole
  | step first _ ih => exact ih (whole.enclosed (encloses_of_unwraps first))

theorem WellFormed.own (whole : v.WellFormed) {t : Text} (own : t ∈ v.texts) :
    Utf8.WellFormed t := whole v .refl t own

end Value

namespace Formatter

variable {escaper : Text} {v : Value}

theorem wellFormed_time (home : Zone) (quote : WellFormed escaper) (t : Instant) :
    WellFormed (({} : Formatter).time home escaper t) := by
  unfold time
  split
  · exact Quoted.wellFormed_escape quote (wellFormed_visible (by decide))
  · exact Quoted.wellFormed_escape quote (wellFormed_visible (visible_usual home t))

theorem wellFormed_shown {home : Zone} {t : Text} (quote : WellFormed escaper)
    (whole : v.WellFormed) (shown : Shown {} home escaper v t) : WellFormed t := by
  cases shown with
  | null => exact wellFormed_visible (by decide)
  | truth b =>
      have both : ∀ b, IsVisible (bool b) := by decide
      exact wellFormed_visible (both b)
  | figure number => exact wellFormed_visible (visible_figure number)
  | time t => exact wellFormed_time home quote t
  | text own => exact Quoted.wellFormed_escape quote (whole.own own)
  | binary => exact (quote.append (wellFormed_visible (by decide))).append quote

theorem wellFormed_format (home : Zone) (quote : WellFormed escaper) (whole : v.WellFormed) :
    WellFormed (({} : Formatter).format home v escaper) := by
  obtain ⟨k, w, follows, shown⟩ := shown_format {} home v escaper
  exact wellFormed_shown quote (whole.follows follows) shown

end Formatter

namespace Trace

/-- A field whose name needs no escapes and whose value is written in whole characters. -/
structure WholeField (m : String × Text) : Prop where
  name : IsVisible (ascii m.1)
  value : WellFormed m.2

section

variable {name : String} {t : Text} (visible : IsVisible (ascii name))
include visible

theorem WholeField.string (text : WellFormed t) : WholeField (name, JsonString.quoted t) :=
  ⟨visible, JsonString.wellFormed_quoted text⟩

theorem WholeField.figure (figure : IsFigure t) : WholeField (name, t) :=
  ⟨visible, wellFormed_visible (visible_figure figure)⟩

end

theorem WholeField.member {m : String × Text} (field : WholeField m) : WellFormed (member m) := by
  have mark : WellFormed [colon] := wellFormed_visible (by decide)
  have name := JsonString.wellFormed_quoted (wellFormed_visible field.name)
  exact name.append (mark.append field.value)

theorem wellFormed_object {fields : List (String × Text)} (all : ∀ m ∈ fields, WholeField m) :
    WellFormed (object fields) := by
  have opened : WellFormed [openBrace] := wellFormed_visible (by decide)
  have between : WellFormed [comma] := wellFormed_visible (by decide)
  have closed : WellFormed [closeBrace] := wellFormed_visible (by decide)
  have inner : WellFormed ([comma].intercalate (fields.map member)) := by
    induction fields with
    | nil => exact .nil
    | cons m fields ih =>
        obtain ⟨first, later⟩ := List.forall_mem_cons.mp all
        by_cases single : fields = []
        · subst single
          rw [joined_single]
          exact first.member
        · rw [joined_cons m single]
          exact first.member.append (between.append (ih later))
  exact (opened.append inner).append closed

namespace Entry

variable {e : Entry}

theorem wellFormed_name (event : Event) : WellFormed event.name := by
  have all : ∀ event : Event, IsVisible event.name := by
    rintro ⟨⟩ <;> decide
  exact wellFormed_visible (all event)

theorem whole_rows (rows : Int) : WholeField ("rows", rowsText rows) := by
  unfold rowsText
  split
  · exact .string (by decide) (wellFormed_visible (by decide))
  · exact .figure (by decide) (Numeral.figure_ofInt rows)

theorem whole_error (error : ∀ message ∈ e.error, WellFormed message) :
    ∀ m ∈ e.errorFields, WholeField m := by
  unfold errorFields
  split
  · next message _ present =>
      exact List.forall_mem_singleton.mpr (.string (by decide) (error message present))
  · exact List.forall_mem_nil _

theorem whole_threshold : ∀ m ∈ e.thresholdFields, WholeField m := by
  unfold thresholdFields
  split
  · exact List.forall_mem_singleton.mpr
      (.figure (by decide) (Numeral.figure_ofInt e.slowThreshold))
  · exact List.forall_mem_nil _

theorem wellFormed_line (caller : WellFormed e.caller) (sql : WellFormed e.sql)
    (error : ∀ message ∈ e.error, WellFormed message) : WellFormed e.line := by
  have stamp := wellFormed_visible (Stamp.visible_text e.timestamp)
  apply wellFormed_object
  simp only [fields, List.forall_mem_append, List.forall_mem_cons]
  refine ⟨⟨⟨⟨?_, ?_, ?_, ?_, ?_, List.forall_mem_nil _⟩, whole_error error⟩, whole_threshold⟩,
    ?_, List.forall_mem_nil _⟩
  · exact .string (by decide) (wellFormed_name e.event)
  · exact .string (by decide) caller
  · exact .figure (by decide) (figure_elapsed e.elapsed)
  · exact whole_rows e.rows
  · exact .string (by decide) sql
  · exact .string (by decide) stamp

end Entry

end Trace

namespace Template

theorem fillMarks_append {before : Text} (absent : questionMark ∉ before) (t : Text)
    (values : List Text) : fillMarks (before ++ t) values = before ++ fillMarks t values := by
  induction before with
  | nil => rfl
  | cons c before ih =>
      obtain ⟨other, later⟩ := List.ne_and_not_mem_of_not_mem_cons absent
      cases values with
      | nil => simp only [fillMarks_nil]
      | cons v values =>
          rw [List.cons_append, fillMarks, if_neg other.symm, ih later, List.cons_append]

theorem wellFormed_fillMarks {t : Text} {values : List Text} (text : WellFormed t)
    (all : ∀ v ∈ values, WellFormed v) : WellFormed (fillMarks t values) := by
  induction text generalizing values with
  | nil => cases values <;> exact .nil
  | @cons cp t scalar later ih =>
      by_cases mark : questionMark ∈ encode cp
      · have single : encode cp = [questionMark] := by
          rcases encode_bytes scalar with ⟨c, -, single⟩ | large
          · rw [single, List.mem_singleton] at mark
            rw [single, mark]
          · exact absurd (large _ mark) (by decide)
        cases values with
        | nil =>
            rw [fillMarks_nil]
            exact .cons scalar later
        | cons v values =>
            obtain ⟨first, others⟩ := List.forall_mem_cons.mp all
            rw [single, List.singleton_append, fillMarks, if_pos rfl]
            exact first.append (ih others)
      · rw [fillMarks_append mark]
        exact .cons scalar (ih all)

/-- Where the marks are filled by the default settings, whole characters stay whole, in the
statement and in the line that traces it. -/
theorem explain_wellFormed (home : Zone) {escaper template : Text} {values : List Value}
    (quote : WellFormed escaper) (text : WellFormed template) (all : ∀ v ∈ values, v.WellFormed) :
    WellFormed (explain (defaultLiterals home) .marks escaper template values) ∧
      ∀ e : Trace.Entry, e.sql = explain (defaultLiterals home) .marks escaper template values →
        WellFormed e.caller → (∀ message ∈ e.error, WellFormed message) → WellFormed e.line := by
  have sql : WellFormed (explain (defaultLiterals home) .marks escaper template values) := by
    apply wellFormed_fillMarks text
    intro shown member
    obtain ⟨v, among, rfl⟩ := List.mem_map.mp member
    exact Formatter.wellFormed_format home quote (all v among)
  refine ⟨sql, fun e same caller error => Trace.Entry.wellFormed_line caller ?_ error⟩
  rwa [same]

/-- An escaper of two bytes, in a text beneath a reference. -/
theorem explain_wellFormed_guillemet :
    WellFormed (encode 0xAB) ∧ WellFormed (encode 0xE9 ++ ascii "=?") ∧
      (Value.reference (some (.text (encode 0xAB ++ ascii "a")))).WellFormed ∧
      explain (defaultLiterals .universal) .marks (encode 0xAB) (encode 0xE9 ++ ascii "=?")
          [.reference (some (.text (encode 0xAB ++ ascii "a")))] =
        encode 0xE9 ++ ascii "=" ++ encode 0xAB ++ ascii "\\" ++ encode 0xAB ++ ascii "a" ++
          encode 0xAB ∧
      WellFormed (explain (defaultLiterals .universal) .marks (encode 0xAB)
        (encode 0xE9 ++ ascii "=?") [.reference (some (.text (encode 0xAB ++ ascii "a")))]) ∧
      WellFormed ({ event := .sql, caller := encode 0x4E16,
                    sql := explain (defaultLiterals .universal) .marks (encode 0xAB)
                      (encode 0xE9 ++ ascii "=?")
                      [.reference (some (.text (encode 0xAB ++ ascii "a")))] } :
        Trace.Entry).line := by
  have quote : WellFormed (encode 0xAB) := Utf8.wellFormed_encode (by decide)
  have template : WellFormed (encode 0xE9 ++ ascii "=?") :=
    .cons (by decide) (wellFormed_visible (by decide))
  have text : WellFormed (encode 0xAB ++ ascii "a") :=
    .cons (by decide) (wellFormed_visible (by decide))
  have value : (Value.reference (some (.text (encode 0xAB ++ ascii "a")))).WellFormed := by
    refine Value.wellFormed_of (List.forall_mem_nil _) ?_
    rintro u ⟨⟩
    refine Value.wellFormed_of (List.forall_mem_singleton.mpr text) ?_
    rintro u ⟨⟩
  have caller : WellFormed (encode 0x4E16) := Utf8.wellFormed_encode (by decide)
  have whole := explain_wellFormed .universal quote template (List.forall_mem_singleton.mpr value)
  exact ⟨quote, template, value, by cbv, whole.1, whole.2 _ rfl caller (by rintro message ⟨⟩)⟩

end Template

end BoundSql

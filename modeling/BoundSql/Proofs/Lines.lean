import Mathlib
import BoundSql.Proofs.Json
import BoundSql.Time.Stamp

/-!
Lines of the log, read back. Whatever bytes an entry holds, its line is one object on one line of
text, with a member for every field and no other, and each member is the entry's own.
-/

namespace BoundSql.Trace

open Text

-- Powers are the built-in ones, whatever else is imported.
attribute [local instance (high)] instPowNat

section Bytes

/-- No byte that a terminal or a reader of lines could take for a command. -/
def NoControl (t : Text) : Prop := ∀ c ∈ t, ¬ c < 32

instance (t : Text) : Decidable (NoControl t) := List.decidableBAll (fun c => ¬ c < 32) t

theorem noControl_nil : NoControl [] := List.forall_mem_nil _

theorem noControl_append {t rest : Text} :
    NoControl (t ++ rest) ↔ NoControl t ∧ NoControl rest := List.forall_mem_append

theorem noControl_cons {c : UInt8} {t : Text} :
    NoControl (c :: t) ↔ ¬ c < 32 ∧ NoControl t := List.forall_mem_cons

theorem noControl_visible {t : Text} (visible : IsVisible t) : NoControl t :=
  fun c member => UInt8.not_lt.mpr (visible c member).1

theorem visible_short {c letter : UInt8} (short : JsonString.short? c = some letter) :
    c < 128 ∧ 32 ≤ letter ∧ letter < 128 := by
  revert short
  unfold JsonString.short?
  repeat' split
  all_goals first
    | next same => rintro ⟨⟩; subst same; decide
    | rintro ⟨⟩

theorem visible_hexDigit {n : Nat} (small : n < 16) : 32 ≤ hexDigit n ∧ hexDigit n < 128 := by
  have all : ∀ n < 16, 32 ≤ hexDigit n ∧ hexDigit n < 128 := by decide
  exact all n small

/-- A byte that does not stand for itself is one of ASCII, and written by visible ones. -/
theorem escapeByte_cases (c : UInt8) :
    ¬ c < 32 ∧ JsonString.escapeByte c = [c] ∨ c < 128 ∧ IsVisible (JsonString.escapeByte c) := by
  unfold JsonString.escapeByte
  split
  · next letter short =>
      obtain ⟨small, written⟩ := visible_short short
      exact .inr ⟨small, visible_cons.mpr ⟨by decide, visible_cons.mpr ⟨written, by decide⟩⟩⟩
  · split
    · next control =>
        have small : c.toNat < 32 := control
        have high := visible_hexDigit (n := c.toNat / 16) (by omega)
        have low := visible_hexDigit (n := c.toNat % 16) (Nat.mod_lt _ (by decide))
        refine .inr ⟨UInt8.lt_trans control (by decide), visible_append.mpr ⟨by decide, ?_⟩⟩
        exact visible_cons.mpr ⟨high, visible_cons.mpr ⟨low, by decide⟩⟩
    · next above => exact .inl ⟨above, rfl⟩

theorem noControl_escapeByte (c : UInt8) : NoControl (JsonString.escapeByte c) := by
  rcases escapeByte_cases c with ⟨above, itself⟩ | ⟨-, visible⟩
  · rw [itself]
    exact noControl_cons.mpr ⟨above, noControl_nil⟩
  · exact noControl_visible visible

theorem noControl_quoted (t : Text) : NoControl (JsonString.quoted t) := by
  refine noControl_append.mpr ⟨noControl_cons.mpr ⟨by decide, ?_⟩, by decide⟩
  intro c member
  obtain ⟨b, -, within⟩ := List.mem_flatMap.mp member
  exact noControl_escapeByte b c within

end Bytes

section Objects

open Json (Writes Ended skip name? members? value?)

theorem name_member (m : String × Text) (t : Text) :
    name? (member m ++ t) = some (ascii m.1, m.2 ++ t) := by
  have split : member m ++ t =
      doubleQuote :: (JsonString.escape (ascii m.1) ++ doubleQuote :: colon :: (m.2 ++ t)) := by
    simp [member, JsonString.quoted]
  have quote : skip (doubleQuote :: (JsonString.escape (ascii m.1) ++
      doubleQuote :: colon :: (m.2 ++ t))) = doubleQuote :: (JsonString.escape (ascii m.1) ++
        doubleQuote :: colon :: (m.2 ++ t)) := rfl
  have mark : skip (colon :: (m.2 ++ t)) = colon :: (m.2 ++ t) := rfl
  rw [split, name?, quote]
  simp [after?, Json.string_escape, mark]

theorem ended_comma (t : Text) : Ended (comma :: t) := by
  rintro _ ⟨⟩
  decide

theorem ended_closeBrace (t : Text) : Ended (closeBrace :: t) := by
  rintro _ ⟨⟩
  decide

section Members

variable {m : String × Text} {v : Json} (written : Writes m.2 v) (rounds : Nat)
include written

theorem members_last (rest : Text) :
    members? (rounds + 2) (member m ++ closeBrace :: rest) = some ([(ascii m.1, v)], rest) := by
  have stays : skip (closeBrace :: rest) = closeBrace :: rest := rfl
  rw [members?, name_member]
  simp [written rounds _ (ended_closeBrace rest), stays, show closeBrace ≠ comma by decide]

theorem members_more (t : Text) :
    members? (rounds + 2) (member m ++ comma :: t) =
      (members? (rounds + 1) t).map fun (others, rest) => ((ascii m.1, v) :: others, rest) := by
  have stays : skip (comma :: t) = comma :: t := rfl
  rw [members?, name_member]
  simp [written rounds _ (ended_comma t), stays]

end Members

/-- One field, as it is written and as it is read. -/
structure Field (m : String × Text) (v : Text × Json) : Prop where
  named : v.1 = ascii m.1
  written : Writes m.2 v.2
  clean : NoControl m.2

theorem Field.string (name : String) (t : Text) :
    Field (name, JsonString.quoted t) (ascii name, .string t) :=
  ⟨rfl, Json.writes_string t, noControl_quoted t⟩

theorem Field.int (name : String) (n : Int) :
    Field (name, Numeral.ofInt n) (ascii name, .number n) :=
  ⟨rfl, Json.writes_ofInt n, noControl_visible (visible_figure (Numeral.figure_ofInt n))⟩

theorem joined_single (m : String × Text) :
    [comma].intercalate ([m].map member) = member m := by
  rw [List.map_singleton, List.intercalate_singleton]

theorem joined_cons (m : String × Text) {fields : List (String × Text)} (others : fields ≠ []) :
    [comma].intercalate ((m :: fields).map member) =
      member m ++ comma :: [comma].intercalate (fields.map member) := by
  rw [List.map_cons, List.intercalate_cons_of_ne_nil (by simpa using others), List.append_assoc,
    List.singleton_append]

variable {fields : List (String × Text)} {members : List (Text × Json)}

theorem members_fields (same : List.Forall₂ Field fields members) (some : fields ≠ [])
    {rounds : Nat} (enough : fields.length ≤ rounds) (rest : Text) :
    members? (rounds + 1) ([comma].intercalate (fields.map member) ++ closeBrace :: rest) =
      .some (members, rest) := by
  induction same generalizing rounds with
  | nil => exact absurd rfl some
  | @cons m v fields members field others ih =>
      obtain ⟨rounds, rfl⟩ := Nat.exists_eq_add_of_lt enough
      obtain ⟨name, v⟩ := v
      obtain ⟨rfl, written, -⟩ := field
      by_cases single : fields = []
      · subst single
        cases others
        rw [joined_single]
        exact members_last written _ rest
      · have next := ih single (Nat.le_add_right fields.length rounds)
        rw [joined_cons m single, List.append_assoc, List.cons_append, members_more written, next]
        rfl

theorem length_le_joined (fields : List (String × Text)) :
    fields.length ≤ ([comma].intercalate (fields.map member)).length := by
  induction fields with
  | nil => exact Nat.le_refl 0
  | cons m fields ih =>
      have long : 0 < (member m).length := by simp [member, JsonString.quoted]
      by_cases single : fields = []
      · subst single
        rw [joined_single]
        exact long
      · rw [joined_cons m single, List.length_append, List.length_cons, List.length_cons]
        omega

theorem joined_front (some : fields ≠ []) :
    ∃ later, [comma].intercalate (fields.map member) = doubleQuote :: later := by
  cases fields with
  | nil => exact absurd rfl some
  | cons m fields =>
      by_cases single : fields = []
      · subst single
        exact ⟨_, joined_single m⟩
      · exact ⟨_, joined_cons m single⟩

/-- Fields that are written one by one make an object that is read as their values. -/
theorem read_object (same : List.Forall₂ Field fields members) (some : fields ≠ []) :
    Json.read? (object fields) = .some (.object members) := by
  obtain ⟨later, front⟩ := joined_front some
  have bound := length_le_joined fields
  -- Every field takes a round, and a byte of the object at least.
  have enough : fields.length ≤ 2 * (object fields).length := by
    simp only [object, List.cons_append, List.length_cons, List.length_append]
    omega
  have inner := members_fields same some enough []
  have opened : skip (object fields) = openBrace :: doubleQuote :: (later ++ [closeBrace]) := by
    rw [object, front]
    rfl
  have filled : after? [closeBrace] (skip (doubleQuote :: (later ++ [closeBrace]))) = none := rfl
  rw [front, List.cons_append] at inner
  have read : value? (2 * ((object fields).length + 1)) (object fields) =
      .some (.object members, []) := by
    rw [Nat.mul_add, Nat.mul_one, value?, opened]
    simp [filled, inner, show openBrace ≠ doubleQuote by decide,
      show openBrace ≠ Json.openBracket by decide]
  rw [Json.read?, read]
  rfl

theorem noControl_object (same : List.Forall₂ Field fields members) :
    NoControl (object fields) := by
  refine noControl_append.mpr ⟨noControl_cons.mpr ⟨by decide, ?_⟩, by decide⟩
  induction same with
  | nil => exact noControl_nil
  | @cons m v fields members field others ih =>
      have first : NoControl (member m) := noControl_append.mpr
        ⟨noControl_quoted _, noControl_cons.mpr ⟨by decide, field.clean⟩⟩
      by_cases single : fields = []
      · subst single
        rwa [joined_single]
      · rw [joined_cons m single]
        exact noControl_append.mpr ⟨first, noControl_cons.mpr ⟨by decide, ih⟩⟩

end Objects

theorem Event.name_injective {a b : Event} (same : a.name = b.name) : a = b := by
  revert same
  cases a <;> cases b <;> decide

namespace Entry

variable (e : Entry)

/-- Thousandths of a millisecond, rounded. -/
def thousandths : Int :=
  let n := Rounding.halfEven ((elapsedMagnitude e.elapsed).units * 10 ^ 3) (2 ^ Binary.double.depth)
  if e.elapsed < 0 then -n else n

def errorMembers : List (Text × Json) :=
  if e.event = .sqlError then e.error.toList.map fun message => (ascii "error", .string message)
  else []

def thresholdMembers : List (Text × Json) :=
  if e.event = .slowSql then [(ascii "slow_threshold_ms", .number e.slowThreshold)] else []

/-- What a reader of the line is told. -/
def members : List (Text × Json) :=
  [(ascii "event", .string e.event.name),
   (ascii "caller", .string e.caller),
   (ascii "elapsed_ms", .number (mkRat e.thousandths 1000)),
   (ascii "rows", if e.rows < 0 then .string [minus] else .number e.rows),
   (ascii "sql", .string e.sql)] ++
  e.errorMembers ++ e.thresholdMembers ++
  [(ascii "timestamp", .string (Stamp.text e.timestamp))]

theorem figure_elapsed (nanoseconds : Int) : IsFigure (elapsedText nanoseconds) :=
  FixedPoint.figure_ofMagnitude _ _ _ _

theorem elapsed_field :
    Field ("elapsed_ms", elapsedText e.elapsed)
      (ascii "elapsed_ms", .number (mkRat e.thousandths 1000)) := by
  refine ⟨rfl, ?_, noControl_visible (visible_figure (figure_elapsed e.elapsed))⟩
  have places : 0 < 3 := by decide
  have written := Json.writes_ofQuotient places (e.elapsed < 0)
    (elapsedMagnitude e.elapsed).units (2 ^ Binary.double.depth)
  simp only [decide_eq_true_eq] at written
  exact written

theorem rows_field :
    Field ("rows", rowsText e.rows)
      (ascii "rows", if e.rows < 0 then .string [minus] else .number e.rows) := by
  unfold rowsText
  split
  · exact .string "rows" [minus]
  · exact .int "rows" e.rows

theorem error_fields : List.Forall₂ Field e.errorFields e.errorMembers := by
  unfold errorFields errorMembers
  split
  · next message event present =>
      rw [if_pos event, present]
      exact .cons (.string "error" message) .nil
  · next absent =>
      split
      · next event =>
          cases present : e.error with
          | none => exact .nil
          | some message => exact (absent message event present).elim
      · exact .nil

theorem threshold_fields : List.Forall₂ Field e.thresholdFields e.thresholdMembers := by
  unfold thresholdFields thresholdMembers
  split
  · exact .cons (.int "slow_threshold_ms" e.slowThreshold) .nil
  · exact .nil

theorem line_fields : List.Forall₂ Field e.fields e.members := by
  refine List.rel_append (List.rel_append (List.rel_append ?_ e.error_fields) e.threshold_fields) ?_
  · exact .cons (.string "event" _) <| .cons (.string "caller" _) <| .cons e.elapsed_field <|
      .cons e.rows_field <| .cons (.string "sql" _) .nil
  · exact .cons (.string "timestamp" _) .nil

def names : List Text :=
  [ascii "event", ascii "caller", ascii "elapsed_ms", ascii "rows", ascii "sql"] ++
    [ascii "error"] ++ [ascii "slow_threshold_ms"] ++ [ascii "timestamp"]

theorem names_sublist : (e.members.map Prod.fst).Sublist names := by
  have error : (e.errorMembers.map Prod.fst).Sublist [ascii "error"] := by
    unfold errorMembers
    split
    · cases e.error with
      | none => exact List.nil_sublist _
      | some message => exact .refl _
    · exact List.nil_sublist _
  have threshold : (e.thresholdMembers.map Prod.fst).Sublist [ascii "slow_threshold_ms"] := by
    unfold thresholdMembers
    split
    · exact .refl _
    · exact List.nil_sublist _
  rw [members, List.map_append, List.map_append, List.map_append]
  exact (((List.Sublist.refl _).append error).append threshold).append (.refl _)

theorem names_nodup : (e.members.map Prod.fst).Nodup :=
  e.names_sublist.nodup (by decide)

theorem members_agree {e e' : Entry} (same : e'.members = e.members) :
    e'.event = e.event ∧ e'.caller = e.caller ∧ e'.sql = e.sql := by
  simp only [members, List.cons_append, List.cons.injEq, Prod.mk.injEq, Json.string.injEq,
    true_and] at same
  exact ⟨Event.name_injective same.1, same.2.1, same.2.2.2.2.1⟩

end Entry

/-- The line of an entry is its members as one object on one line, each member once, so entries
with one line tell the same of their event, caller and statement. -/
theorem line_reads (e : Entry) :
    NoControl e.line ∧ Json.read? e.line = some (.object e.members) ∧
      (e.members.map Prod.fst).Nodup ∧
      ∀ e' : Entry, e'.line = e.line →
        e'.event = e.event ∧ e'.caller = e.caller ∧ e'.sql = e.sql := by
  have reads (e : Entry) : Json.read? e.line = some (.object e.members) :=
    read_object e.line_fields (List.cons_ne_nil _ _)
  refine ⟨noControl_object e.line_fields, reads e, e.names_nodup, fun e' same => ?_⟩
  have told := (reads e').symm.trans (same ▸ reads e)
  exact Entry.members_agree (Json.object.inj (Option.some.inj told))

/-- A count of rows that is not known and an error that is not traced leave no mark on a line. -/
theorem line_reads_unmarked :
    ({ event := .sql, caller := ascii "a\"b", sql := [newline], rows := -7,
       error := some (ascii "lost") } : Entry).line =
      ({ event := .sql, caller := ascii "a\"b", sql := [newline] } : Entry).line ∧
    ({ event := .sql, caller := ascii "a\"b", sql := [newline], rows := -7,
       error := some (ascii "lost") } : Entry).caller = ascii "a\"b" ∧
    Json.read? ({ event := .sql, caller := ascii "a\"b", sql := [newline] } : Entry).line =
      some (.object
        [(ascii "event", .string (ascii "sql")),
         (ascii "caller", .string (ascii "a\"b")),
         (ascii "elapsed_ms", .number 0),
         (ascii "rows", .string (ascii "-")),
         (ascii "sql", .string [newline]),
         (ascii "timestamp", .string (ascii "1970-01-01T00:00:00.000Z"))]) := by
  have reads := line_reads { event := .sql, caller := ascii "a\"b", sql := [newline] }
  have still :
      Entry.thousandths { event := .sql, caller := ascii "a\"b", sql := [newline] } = 0 := by
    decide +kernel
  refine ⟨rfl, (reads.2.2.2 _ rfl).2.1, reads.2.1.trans ?_⟩
  simp only [Entry.members, still]
  cbv

end BoundSql.Trace

import BoundSql.Proofs.Numerals
import BoundSql.Proofs.Unwrapping

/-!
What a value can look like in a statement. A text, wherever it comes from, is shown between two
copies of the escaper, with a backslash before every copy inside, so it never ends its literal.
All that is shown bare is the null literal, a truth value or a number.
-/

namespace BoundSql

open Text

/-- A backslash stands right before every occurrence of the byte. -/
def Guarded (c : UInt8) (body : Text) : Prop :=
  ∀ before after, body = before ++ c :: after → before.getLast? = some backslash

def Closed (c : UInt8) (t : Text) : Prop := ∃ body, t = c :: (body ++ [c]) ∧ Guarded c body

theorem guarded_of_not_mem {c : UInt8} {body : Text} (absent : c ∉ body) : Guarded c body := by
  rintro before after rfl
  simp at absent

theorem Guarded.cons {b c : UInt8} {body : Text} (guarded : Guarded c body) (other : b ≠ c) :
    Guarded c (b :: body) := by
  intro before after same
  cases before with
  | nil => exact absurd (List.cons.inj same).1 other
  | cons first before =>
      have last := guarded before after (List.cons.inj same).2
      rw [List.getLast?_cons, last]
      rfl

theorem Guarded.escaped {c : UInt8} {body : Text} (guarded : Guarded c body)
    (plain : c ≠ backslash) : Guarded c (backslash :: c :: body) := by
  intro before after same
  match before with
  | [] => exact absurd (List.cons.inj same).1.symm plain
  | [first] => exact congrArg some (List.cons.inj same).1.symm
  | first :: second :: before =>
      have rest := (List.cons.inj (List.cons.inj same).2).2
      have last := guarded before after rest
      rw [List.getLast?_cons, List.getLast?_cons, last]
      rfl

namespace Quoted

variable {c : UInt8}

theorem guarded_single (plain : c ≠ backslash) (t : Text) : Guarded c (guarded c [] t) := by
  induction t with
  | nil =>
      rw [guarded]
      exact guarded_of_not_mem List.not_mem_nil
  | cons b t ih =>
      rw [guarded]
      split
      · exact ih.escaped plain
      · next other =>
          refine ih.cons fun same => other ?_
          simp [same]

theorem closed_escape (plain : c ≠ backslash) (t : Text) : Closed c (escape [c] t) :=
  ⟨guarded c [] t, rfl, guarded_single plain t⟩

end Quoted

/-- The texts that a value holds itself. -/
def Value.texts : Value → List Text
  | .bytes b => [b]
  | .text t => [t]
  | .stringer (some s) => [s.text]
  | .generic (some g) => [g.text]
  | _ => []

namespace Formatter

/-- What a value that leads to no other can be shown as. -/
inductive Shown (f : Formatter) (home : Zone) (escaper : Text) (v : Value) : Text → Prop
  | null : Shown f home escaper v f.nullLiteral
  | truth (b : Bool) : Shown f home escaper v (bool b)
  | figure {t} (number : IsFigure t) : Shown f home escaper v t
  | time (t : Instant) : Shown f home escaper v (f.time home escaper t)
  | text {t} (own : t ∈ v.texts) : Shown f home escaper v (Quoted.escape escaper t)
  | binary : Shown f home escaper v (Quoted.wrap escaper (ascii "<binary>"))

section Showing

variable {f : Formatter} {home : Zone} {escaper : Text}

theorem shown_stringer (s : Stringer) :
    Shown f home escaper (.stringer (some s)) (stringer escaper s) := by
  have own : s.text ∈ (Value.stringer (some s)).texts := List.mem_singleton_self _
  unfold stringer
  cases s.primitive with
  | absent | text => exact .text own
  | bool b => exact .truth b
  | int n => exact .figure (Numeral.figure_ofInt n.toInt)
  | uint n => exact .figure (.whole false (Numeral.number_ofNat n.toNat))
  | double bits => exact .figure (FixedPoint.figure_six bits)

theorem shown_bytes (b : Text) : Shown f home escaper (.bytes b) (bytes escaper b) := by
  unfold bytes
  split
  · exact .text (List.mem_singleton_self _)
  · exact .binary

theorem shown_plain (w : Value) : Shown f home escaper w (f.plain home escaper w) := by
  match w with
  | .null | .maybeTime none | .driver _ | .stringer none | .reference _ | .generic none
  | .endless _ =>
      exact .null
  | .bool b => exact .truth b
  | .int n => exact .figure (Numeral.figure_ofInt n.toInt)
  | .uint n => exact .figure (.whole false (Numeral.number_ofNat n.toNat))
  | .single bits => exact .figure (Shortest.figure_text _ _)
  | .double bits => exact .figure (Shortest.figure_text _ _)
  | .time t | .maybeTime (some t) => exact .time t
  | .bytes b => exact shown_bytes b
  | .text _ => exact .text (List.mem_singleton_self _)
  | .stringer (some s) => exact shown_stringer s
  | .generic (some g) =>
      rw [plain]
      split
      · exact .null
      · exact .text (List.mem_singleton_self _)

/-- A value is shown as one that it leads to, or as null. -/
theorem shown_format (f : Formatter) (home : Zone) (v : Value) (escaper : Text) :
    ∃ k w, f.Follows k v w ∧ Shown f home escaper w (f.format home v escaper) := by
  rcases last_or_follows f 32 v with ⟨k, w, within, follows, last⟩ | ⟨w, follows⟩
  · rw [format_last within follows last]
    exact ⟨k, w, follows, shown_plain w⟩
  · rw [format_beyond follows]
    exact ⟨33, w, follows, .null⟩

end Showing

/-- A value that is shown by a text: its own, or one that is made for it. -/
inductive Textual : Value → Prop
  | text {t} : Textual (.text t)
  | bytes {b} : Textual (.bytes b)
  | time {t} : Textual (.time t)
  | maybeTime {t} : Textual (.maybeTime (some t))
  | stringer {s} (plain : s.primitive = .absent ∨ s.primitive = .text) :
      Textual (.stringer (some s))
  | generic {g} (plain : g.driver = none) : Textual (.generic (some g))

section Closing

variable {f : Formatter} {home : Zone} {c : UInt8} {v w : Value}

theorem closed_time (plain : c ≠ backslash) (t : Instant) : Closed c (f.time home [c] t) := by
  unfold time
  split
  · exact Quoted.closed_escape plain _
  · exact Quoted.closed_escape plain _

theorem closed_bytes (plain : c ≠ backslash) (apart : c ∉ ascii "<binary>") (b : Text) :
    Closed c (bytes [c] b) := by
  unfold bytes
  split
  · exact Quoted.closed_escape plain b
  · exact ⟨ascii "<binary>", rfl, guarded_of_not_mem apart⟩

theorem closed_textual (plain : c ≠ backslash) (apart : c ∉ ascii "<binary>")
    (textual : Textual w) : Closed c (f.plain home [c] w) := by
  cases textual with
  | text => exact Quoted.closed_escape plain _
  | bytes => exact closed_bytes plain apart _
  | time => exact closed_time plain _
  | maybeTime => exact closed_time plain _
  | @stringer s kind =>
      have same : stringer [c] s = Quoted.escape [c] s.text := by
        unfold stringer
        rcases kind with kind | kind <;> rw [kind]
      rw [Formatter.plain, same]
      exact Quoted.closed_escape plain _
  | @generic g kind =>
      have same : f.plain home [c] (.generic (some g)) = Quoted.escape [c] g.text := by
        simp [Formatter.plain, kind]
      rw [same]
      exact Quoted.closed_escape plain _

/-- Shown bare, as null, a truth value or a number, or else a closed literal. -/
def Contained (f : Formatter) (c : UInt8) (t : Text) : Prop :=
  t = f.nullLiteral ∨ t = ascii "true" ∨ t = ascii "false" ∨ IsFigure t ∨ Closed c t

theorem contained_shown (plain : c ≠ backslash) (apart : c ∉ ascii "<binary>") {t : Text}
    (shown : Shown f home [c] w t) : f.Contained c t := by
  have closed {t : Text} (closed : Closed c t) : f.Contained c t :=
    .inr (.inr (.inr (.inr closed)))
  cases shown with
  | null => exact .inl rfl
  | truth b =>
      cases b with
      | true => exact .inr (.inl rfl)
      | false => exact .inr (.inr (.inl rfl))
  | figure number => exact .inr (.inr (.inr (.inl number)))
  | time t => exact closed (closed_time plain t)
  | text _ => exact closed (Quoted.closed_escape plain _)
  | binary => exact closed ⟨ascii "<binary>", rfl, guarded_of_not_mem apart⟩

theorem contained_plain (plain : c ≠ backslash) (apart : c ∉ ascii "<binary>") (w : Value) :
    f.Contained c (f.plain home [c] w) :=
  contained_shown plain apart (shown_plain w)

end Closing

/-- Whatever a value holds, and however deep, its literal is bare or closed, and it is closed if
what is shown in the end is a text. -/
theorem format_contained (f : Formatter) (home : Zone) {c : UInt8} (plain : c ≠ backslash)
    (apart : c ∉ ascii "<binary>") (v : Value) :
    f.Contained c (f.format home v [c]) ∧
      ∀ k w, k ≤ 32 → f.Follows k v w → f.IsLast w → Textual w →
        Closed c (f.format home v [c]) := by
  constructor
  · rcases last_or_follows f 32 v with ⟨k, w, within, follows, last⟩ | ⟨w, follows⟩
    · rw [format_last within follows last]
      exact contained_plain plain apart w
    · exact .inl (format_beyond follows)
  · intro k w within follows last textual
    rw [format_last within follows last]
    exact closed_textual plain apart textual

/-- A quote in a text beneath a reference and a driver's answer ends nothing. -/
theorem format_contained_quote :
    (39 : UInt8) ≠ backslash ∧ (39 : UInt8) ∉ ascii "<binary>" ∧
      Closed 39 (({} : Formatter).format .universal
        (.reference (some (.driver (some (.value (.text (ascii "it's"))))))) [39]) ∧
      ({} : Formatter).format .universal
        (.reference (some (.driver (some (.value (.text (ascii "it's"))))))) [39] =
          ascii "'it\\'s'" := by
  have plain : (39 : UInt8) ≠ backslash := by decide
  have apart : (39 : UInt8) ∉ ascii "<binary>" := by decide
  refine ⟨plain, apart, ?_, by cbv⟩
  exact (format_contained {} .universal plain apart _).2 2 (.text (ascii "it's")) (by decide)
    (.step .reference (.step .driver .stay)) (isLast_iff.mpr rfl) .text

end Formatter

end BoundSql

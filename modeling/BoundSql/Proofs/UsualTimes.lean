import BoundSql.Formatter
import BoundSql.Proofs.Expansions
import BoundSql.Proofs.Numerals
import BoundSql.Time.Stamp

/-!
Times as they are usually shown. The default pattern gives the date and the clock, like the time
stamps of log lines, and all of it is visible ASCII.
-/

namespace BoundSql

open Text

namespace TimePattern

namespace Directive

/-- A percent sign and a letter. -/
def bare (conversion : Char) : Directive where
  fill := .usual
  raised := false
  swapped := false
  width := 0
  modifier := none
  conversion := some conversion
  written := [percent, conversion.toUInt8]

variable (conversion : Char)

theorem toWidth_bare (t : Text) : (bare conversion).toWidth t = t := by
  simp [toWidth, bare, List.leftpad]

theorem render_natural (digits n : Nat) :
    (bare conversion).render (.number digits n) = Numeral.padded digits n := by
  have natural : ¬ (n : Int) < 0 := Int.not_lt.mpr (Int.natCast_nonneg n)
  rw [render, toWidth_bare]
  simp [number, bare, natural]

theorem render_integer (n : Int) :
    (bare conversion).render (.number 1 n) = Numeral.ofInt n := by
  have unfilled {width : Nat} (narrow : width ≤ 1) :
      Numeral.padded width n.natAbs = Numeral.ofNat n.natAbs := by
    have some := List.length_pos_iff.mpr (Numeral.number_ofNat n.natAbs).nonempty
    have none : width - (Numeral.ofNat n.natAbs).length = 0 := by omega
    rw [Numeral.padded, List.leftpad, none]
    rfl
  rw [render, toWidth_bare]
  simp [number, bare, Numeral.ofInt, unfilled]

end Directive

/-- The default pattern. -/
def usual : Text := ascii "%Y-%m-%d %H:%M:%S"

theorem items_byte {c : UInt8} (other : c ≠ percent) (t : Text) :
    items (c :: t) = .byte c :: items t := by
  rw [items, if_neg other]

theorem items_bare {c : UInt8} {conversion : Char}
    (read : ∀ t, Directive.read (c :: t) = (.bare conversion, t)) (t : Text) :
    items (percent :: c :: t) = .directive (.bare conversion) :: items t := by
  rw [items, if_pos rfl, read]

theorem items_usual : items usual =
    [.directive (.bare 'Y'), .byte minus, .directive (.bare 'm'), .byte minus,
     .directive (.bare 'd'), .byte blank, .directive (.bare 'H'), .byte 58,
     .directive (.bare 'M'), .byte 58, .directive (.bare 'S')] := by
  have year := @items_bare 89 'Y' fun _ => rfl
  have month := @items_bare 109 'm' fun _ => rfl
  have day := @items_bare 100 'd' fun _ => rfl
  have hours := @items_bare 72 'H' fun _ => rfl
  have minutes := @items_bare 77 'M' fun _ => rfl
  have seconds := @items_bare 83 'S' fun _ => rfl
  have dash := @items_byte minus (by decide)
  have gap := @items_byte blank (by decide)
  have colon := @items_byte 58 (by decide)
  have none : items [] = [] := by rw [items]
  have bytes : usual = percent :: 89 :: minus :: percent :: 109 :: minus :: percent :: 100 ::
    blank :: percent :: 72 :: 58 :: percent :: 77 :: 58 :: percent :: 83 :: [] := rfl
  rw [bytes, year, dash, month, dash, day, gap, hours, colon, minutes, colon, seconds, none]

variable (home : Zone) (m : Moment)

theorem text_bare (conversion : Char) {field : Field}
    (known : field? home m conversion = some field) :
    Item.text home m (.directive (.bare conversion)) = (Directive.bare conversion).render field := by
  simp [Item.text, Directive.field, Directive.bare, known]

theorem complete_usual : complete home m usual = m.dashDate ++ blank :: m.clock := by
  have year := text_bare home m 'Y' rfl
  have month := text_bare home m 'm' rfl
  have day := text_bare home m 'd' rfl
  have hours := text_bare home m 'H' rfl
  have minutes := text_bare home m 'M' rfl
  have seconds := text_bare home m 'S' rfl
  rw [Directive.render_integer] at year
  rw [Directive.render_natural] at month day hours minutes seconds
  have byte (c : UInt8) : Item.text home m (.byte c) = [c] := rfl
  have dash : ascii "-" = [minus] := rfl
  have mark : ascii ":" = [58] := rfl
  have whole : usual.takeWhile (· != 0) = usual := by decide
  rw [complete, whole, items_usual]
  simp only [List.flatMap_cons, List.flatMap_nil, year, month, day, hours, minutes, seconds, byte]
  simp [Moment.dashDate, Moment.clock, Moment.hourMinute, Moment.two, dash, mark]

/-- The default pattern shows the date and the clock, unless they are longer than any text may
be. -/
theorem expand_usual : expand home m usual =
    if limit < (m.dashDate ++ blank :: m.clock).length then []
    else m.dashDate ++ blank :: m.clock := by
  rw [expand_eq, complete_usual]

end TimePattern

namespace Moment

variable (m : Moment)

theorem visible_two (n : Nat) : IsVisible (two n) := visible_number (Numeral.number_padded 2 n)

theorem visible_dashDate : IsVisible m.dashDate := by
  have year := visible_figure (Numeral.figure_ofInt m.date.year)
  have dash : IsVisible (ascii "-") := by decide
  simp only [dashDate, visible_append]
  exact ⟨⟨⟨⟨year, dash⟩, visible_two _⟩, dash⟩, visible_two _⟩

theorem visible_clock : IsVisible m.clock := by
  have mark : IsVisible (ascii ":") := by decide
  simp only [clock, hourMinute, visible_append]
  exact ⟨⟨⟨⟨visible_two _, mark⟩, visible_two _⟩, mark⟩, visible_two _⟩

end Moment

theorem Stamp.visible_text (t : Instant) : IsVisible (text t) := by
  have thousandths := visible_number (Numeral.number_padded 3 t.milliseconds)
  simp only [text, visible_append, visible_cons]
  exact ⟨⟨⟨⟨Moment.visible_dashDate _, by decide⟩, Moment.visible_clock _⟩, by decide, thousandths⟩,
    by decide⟩

namespace Formatter

theorem visible_fractionText (f : Formatter) (t : Instant) : IsVisible (f.fractionText t) := by
  have digits : IsVisible (f.fractionDigitsOf t) := by
    intro c member
    apply visible_number (Numeral.number_padded 9 t.fraction)
    simp only [fractionDigitsOf] at member
    split at member
    · exact List.mem_of_mem_take (mem_trimZeros member)
    · exact List.mem_of_mem_take member
  unfold fractionText
  split
  · decide
  · exact visible_cons.mpr ⟨by decide, digits⟩

theorem visible_usual (home : Zone) (t : Instant) :
    IsVisible (({} : Formatter).timeText home t) := by
  have pattern : ({} : Formatter).timePattern = TimePattern.usual := rfl
  refine visible_append.mpr ⟨?_, visible_fractionText _ t⟩
  rw [pattern, TimePattern.expand_usual]
  split
  · decide
  · exact visible_append.mpr ⟨Moment.visible_dashDate _,
      visible_cons.mpr ⟨by decide, Moment.visible_clock _⟩⟩

end Formatter

end BoundSql

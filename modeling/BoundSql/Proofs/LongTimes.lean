import BoundSql.Proofs.Expansions
import BoundSql.Settings.Flow
import BoundSql.Settings.Reader

/-!
Times with long patterns. Any pattern is accepted, and the time is shown with all that the pattern
gives just if this is not longer than the greatest of the buffers. Of a longer one only the fraction
is left.
-/

namespace BoundSql

open Text

namespace Settings

/-- Settings that say nothing but how times are written. -/
def patternDocument (pattern : Text) : Document :=
  .map [(ascii "formatter", .map [(ascii "time_format", .scalar pattern)])]

theorem ofDocument_pattern (dialect : Dialect) (origin : Origin) (pattern : Text) :
    ofDocument dialect origin (patternDocument pattern) =
      .ok { formatter := { timePattern := pattern } } := by
  -- There is one key in the document; all the others are looked up in vain.
  simp +decide only [ofDocument, patternDocument, groups, readGroup, readKey, Document.lookup,
    List.foldlM_cons, List.foldlM_nil, List.find?_cons, List.find?_nil]
  rfl

end Settings

namespace Formatter

variable (f : Formatter) (home : Zone) (t : Instant)

/-- All that the time pattern gives for an instant. -/
def expansion : Text :=
  TimePattern.complete home (Moment.ofSeconds (f.zone home) t.seconds) f.timePattern

theorem length_fractionText_le : (f.fractionText t).length ≤ 10 := by
  have trimmed (digits : Text) : (trimZeros digits).length ≤ digits.length := by
    rw [trimZeros, List.length_reverse]
    exact Nat.le_trans (List.dropWhile_sublist _).length_le (Nat.le_of_eq List.length_reverse)
  have cut : ((Numeral.padded 9 t.fraction).take (min f.fractionDigits 9)).length ≤ 9 :=
    Nat.le_trans (List.length_take_le _ _) (Nat.min_le_right _ _)
  have digits : (f.fractionDigitsOf t).length ≤ 9 := by
    simp only [fractionDigitsOf]
    split
    · exact Nat.le_trans (trimmed _) cut
    · exact cut
  rw [fractionText]
  split
  · exact Nat.zero_le _
  · exact Nat.succ_le_succ digits

theorem timeText_eq : f.timeText home t =
    (if TimePattern.limit < (f.expansion home t).length then [] else f.expansion home t) ++
      f.fractionText t := by
  rw [timeText, TimePattern.expand_eq]
  rfl

theorem timeText_fits (fits : (f.expansion home t).length ≤ TimePattern.limit) :
    f.timeText home t = f.expansion home t ++ f.fractionText t := by
  rw [timeText_eq, if_neg (Nat.not_lt.mpr fits)]

/-- A fraction has too few bytes to be mistaken for a long expansion. -/
theorem timeText_lost (lost : TimePattern.limit < (f.expansion home t).length) :
    f.timeText home t = f.fractionText t ∧ ¬ f.expansion home t <+: f.timeText home t := by
  have only : f.timeText home t = f.fractionText t := by
    rw [timeText_eq, if_pos lost, List.nil_append]
  refine ⟨only, fun front => ?_⟩
  rw [only] at front
  have short := Nat.le_trans front.length_le (f.length_fractionText_le t)
  have limit : TimePattern.limit = 8191 := rfl
  omega

/-- A time is written into the last of eight buffers, and then its fraction. It begins with all that
the pattern gives, and the fraction follows that, just if the buffer was large enough. -/
theorem timeText_whole_iff :
    f.timeText home t = TimePattern.retried 8 64 (f.expansion home t) ++ f.fractionText t ∧
    (f.timeText home t = f.expansion home t ++ f.fractionText t ↔
      (f.expansion home t).length ≤ TimePattern.limit) ∧
    (f.expansion home t <+: f.timeText home t ↔
      (f.expansion home t).length ≤ TimePattern.limit) := by
  refine ⟨?_, ⟨fun whole => ?_, f.timeText_fits home t⟩, ⟨fun front => ?_, fun fits => ?_⟩⟩
  · rw [timeText, TimePattern.expand_retried]
    rfl
  · refine Nat.not_lt.mp fun lost => (f.timeText_lost home t lost).2 ?_
    rw [whole]
    exact List.prefix_append _ _
  · exact Nat.not_lt.mp fun lost => (f.timeText_lost home t lost).2 front
  · rw [f.timeText_fits home t fits]
    exact List.prefix_append _ _

/-- One byte more than the greatest buffer takes, and the date and the clock are gone. -/
theorem expansion_lost : ¬ ∀ (pattern : Text) (s : Settings) (home : Zone) (t : Instant),
    pattern ≠ [] → 0 ∉ pattern →
    Settings.ofDocument .flow .inline (Settings.patternDocument pattern) = .ok s →
    s.formatter.timeText home t = s.formatter.expansion home t ++ s.formatter.fractionText t := by
  intro whole
  obtain ⟨pattern, letters, length⟩ : ∃ pattern : Text, (∀ c ∈ pattern, c = 120) ∧
      pattern.length = 8192 :=
    ⟨List.replicate 8192 120, fun _ => List.eq_of_mem_replicate, List.length_replicate⟩
  have absent {c : UInt8} (other : c ≠ 120) : c ∉ pattern := fun member => other (letters c member)
  have some : pattern ≠ [] := by
    rintro rfl
    cases length
  let f : Formatter := { timePattern := pattern }
  let t : Instant := ⟨1704164645500000000⟩
  have given : f.expansion Zone.universal t = pattern :=
    TimePattern.complete_plain (absent (by decide)) (absent (by decide))
  have lost : TimePattern.limit < (f.expansion Zone.universal t).length := by
    rw [given, length]
    decide
  have shown := whole pattern _ Zone.universal t some (absent (by decide))
    (Settings.ofDocument_pattern .flow .inline pattern)
  apply (f.timeText_lost Zone.universal t lost).2
  rw [shown]
  exact List.prefix_append _ _

end Formatter

end BoundSql

import BoundSql.Regex.Segments
import BoundSql.Text.Numeral

/-!
Templates with numbered placeholders. A pattern tells what a placeholder looks like: every match is
first brought to the form `$N$`, where `N` is what the first group holds. Then each `$N$` in the
text, found from the left, takes the value of that number. Numbers count from 1 and are not
bounded; a number without a value leaves its placeholder as it is.
-/

namespace BoundSql.Template

open Text

def canonical (number : Text) : Text := dollar :: number ++ [dollar]

def normalSegment : Regex.Segment → Text
  | .gap t => t
  | .found m => canonical m.number

def normalised (p : Regex.Pattern) (t : Text) : Text := (p.segments t).flatMap normalSegment

inductive Token where
  | byte (c : UInt8)
  | number (digits : Text)
  deriving DecidableEq

/-- The digits between an opening sign that has been read and a closing one, and what follows. -/
def number? (t : Text) : Option (Text × Text) :=
  match t.dropWhile isDigit with
  | [] => none
  | c :: rest =>
      if c = dollar && !(t.takeWhile isDigit).isEmpty then some (t.takeWhile isDigit, rest)
      else none

theorem eq_of_number {t digits rest : Text} (found : number? t = some (digits, rest)) :
    t = digits ++ dollar :: rest := by
  unfold number? at found
  split at found
  · simp at found
  · next c tail later =>
      split at found
      · next closed =>
          simp only [Option.some.injEq, Prod.mk.injEq] at found
          simp only [Bool.and_eq_true, decide_eq_true_eq] at closed
          rw [← found.1, ← found.2, ← closed.1, ← later, List.takeWhile_append_dropWhile]
      · simp at found

theorem length_number {t digits rest : Text} (found : number? t = some (digits, rest)) :
    rest.length < t.length := by
  rw [eq_of_number found]
  simp only [List.length_append, List.length_cons]
  omega

def tokens : Text → List Token
  | [] => []
  | c :: t =>
      if c = dollar then
        match _found : number? t with
        | some (digits, rest) => .number digits :: tokens rest
        | none => .byte c :: tokens t
      else .byte c :: tokens t
termination_by t => t.length
decreasing_by
  · have shorter := length_number _found
    simp only [List.length_cons]
    omega
  · simp
  · simp

def Token.text : Token → Text
  | .byte c => [c]
  | .number digits => canonical digits

theorem text_tokens (t : Text) : (tokens t).flatMap Token.text = t := by
  induction t using tokens.induct with
  | case1 => simp [tokens]
  | case2 t digits rest found ih =>
      rw [tokens, if_pos rfl]
      split
      · next digits' rest' found' =>
          simp only [found, Option.some.injEq, Prod.mk.injEq] at found'
          rw [← found'.1, ← found'.2, List.flatMap_cons, ih, eq_of_number found]
          simp [Token.text, canonical]
      · next none => simp [found] at none
  | case3 t missing ih =>
      rw [tokens, if_pos rfl]
      split
      · next found => simp [missing] at found
      · rw [List.flatMap_cons, ih]
        rfl
  | case4 c t other ih =>
      rw [tokens, if_neg other, List.flatMap_cons, ih]
      rfl

/-- The value with the number that the digits write. -/
def valueOf (values : List Text) (digits : Text) : Option Text :=
  match Numeral.value digits with
  | 0 => none
  | n + 1 => values[n]?

def fillToken (values : List Text) : Token → Text
  | .byte c => [c]
  | .number digits => (valueOf values digits).getD (canonical digits)

def fillNumbered (values : List Text) (t : Text) : Text := (tokens t).flatMap (fillToken values)

theorem fillNumbered_nil (t : Text) : fillNumbered [] t = t := by
  have unfilled : fillToken [] = Token.text := by
    funext token
    cases token with
    | byte c => rfl
    | number digits =>
        have missing : valueOf [] digits = none := by
          unfold valueOf
          split <;> rfl
        simp [fillToken, missing, Token.text]
  rw [fillNumbered, unfilled, text_tokens]

end BoundSql.Template

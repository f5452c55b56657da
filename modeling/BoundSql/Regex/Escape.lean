import BoundSql.Regex.ByteSet
import BoundSql.Text.Numeral

/-!
What a backslash and the bytes after it stand for. Most letters stand for themselves; digits other
than a lone zero refer back to a group, with as many digits as there are.
-/

namespace BoundSql.Regex

open Text

inductive Escape where
  | byte (c : UInt8)
  | member (m : Member)
  | boundary (negated : Bool)
  | back (index : Nat)

-- The low byte of a code given by so many digits.
def hexCode? (count : Nat) (t : Text) : Option (Escape × Text) := do
  let digits ← (t.take count).mapM hexValue?
  if digits.length = count then
    some (.byte (digits.foldl (fun n d => 16 * n + d) 0).toUInt8, t.drop count)
  else none

def Escape.read? (inBracket : Bool) : Text → Option (Escape × Text)
  | [] => none
  | c :: t =>
      match Char.ofUInt8 c with
      | '0' => some (.byte 0, t)
      | 't' => some (.byte 9, t)
      | 'n' => some (.byte 10, t)
      | 'v' => some (.byte 11, t)
      | 'f' => some (.byte 12, t)
      | 'r' => some (.byte 13, t)
      | 'b' => some (if inBracket then .byte 8 else .boundary false, t)
      | 'B' => some (.boundary true, t)
      | 'd' => some (.member (.kind .digit), t)
      | 'D' => some (.member (.unlike .digit), t)
      | 's' => some (.member (.kind .space), t)
      | 'S' => some (.member (.unlike .space), t)
      | 'w' => some (.member (.kind .word), t)
      | 'W' => some (.member (.unlike .word), t)
      | 'c' => t.head?.map fun c => (.byte c, t.drop 1)
      | 'x' => hexCode? 2 t
      | 'u' => hexCode? 4 t
      | _ =>
          if isDigit c then
            some (.back (Numeral.value (c :: t.takeWhile isDigit)), t.dropWhile isDigit)
          else some (.byte c, t)

end BoundSql.Regex

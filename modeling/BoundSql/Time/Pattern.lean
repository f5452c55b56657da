import BoundSql.Time.Figures

/-!
Time patterns. A pattern is text with directives: a percent sign, flags, a width, a modifier and
the letter of a conversion. Numbers are filled to their usual number of digits, and whatever a
directive gives is filled to the width. A directive that means nothing stands for itself.
-/

namespace BoundSql.TimePattern

open Text

/-- How a number is filled: as its conversion prefers, or as the last of the flags `_0-` says. -/
inductive Fill where
  | usual
  | blanks
  | zeros
  | bare
  deriving DecidableEq

structure Directive where
  fill : Fill
  raised : Bool
  swapped : Bool
  width : Nat
  modifier : Option Char
  conversion : Option Char
  written : Text

inductive Item where
  | byte (c : UInt8)
  | directive (d : Directive)

def isFillFlag (c : UInt8) : Bool := c == 95 || c == 48 || c == 45

def isFlag (c : UInt8) : Bool := isFillFlag c || c == 94 || c == 35

def isModifier (c : UInt8) : Bool := c == 69 || c == 79

def fillOf (flags : Text) : Fill :=
  match (flags.filter isFillFlag).getLast? with
  | none => .usual
  | some c => if c = 95 then .blanks else if c = 48 then .zeros else .bare

/-- Reads the directive whose percent sign has been read, and gives what follows it. -/
def Directive.read (t : Text) : Directive × Text :=
  let flags := t.takeWhile isFlag
  let t := t.dropWhile isFlag
  let width := t.takeWhile isDigit
  let t := t.dropWhile isDigit
  let modifier := (t.take 1).filter isModifier
  let t := t.drop modifier.length
  let conversion := t.take 1
  -- A percent sign as the conversion begins a directive of its own for the eye.
  let written := if conversion = [percent] then conversion
    else percent :: flags ++ width ++ modifier ++ conversion
  ({ fill := fillOf flags
     raised := flags.contains 94
     swapped := flags.contains 35
     width := Numeral.value width
     modifier := modifier.head?.map Char.ofUInt8
     conversion := conversion.head?.map Char.ofUInt8
     written := written },
   t.drop 1)

theorem Directive.length_read (t : Text) : (Directive.read t).2.length ≤ t.length := by
  have flags := length_dropWhile isFlag t
  have digits := length_dropWhile isDigit (t.dropWhile isFlag)
  simp only [Directive.read, List.length_drop]
  omega

def items : Text → List Item
  | [] => []
  | c :: t =>
      if c = percent then .directive (Directive.read t).1 :: items (Directive.read t).2
      else .byte c :: items t
termination_by t => t.length
decreasing_by
  · have shorter := Directive.length_read t
    simp only [List.length_cons]
    omega
  · simp

/-! What the conversions give. A field says how letter case and filling apply to it. -/

inductive Field where
  /-- `^` raises it. -/
  | text (t : Text)
  /-- `^` and `#` raise it. -/
  | word (t : Text)
  /-- `^` raises it and `#` lowers it. -/
  | mark (t : Text)
  | lowered (t : Text)
  | number (digits : Nat) (n : Int)
  | blankNumber (digits : Nat) (n : Int)
  | offset (seconds : Int)

/-- The modifiers that a conversion does not go with. -/
def refused (conversion : Char) : List Char :=
  if "%aADF".toList.contains conversion then ['E', 'O']
  else if "bhBdeHIkljMmSUWVgGw".toList.contains conversion then ['E']
  else if "cxXY".toList.contains conversion then ['O']
  else []

/-- `home` is the zone of the clock on this machine, by which seconds are counted back. -/
def field? (home : Zone) (m : Moment) : Char → Option Field
  | '%' => some (.text [percent])
  | 'n' => some (.text [newline])
  | 't' => some (.text [9])
  | 'a' => some (.word (m.dayName.take 3))
  | 'A' => some (.word m.dayName)
  | 'b' => some (.word (m.monthName.take 3))
  | 'h' => some (.word (m.monthName.take 3))
  | 'B' => some (.word m.monthName)
  | 'p' => some (.mark m.half)
  | 'P' => some (.lowered m.half)
  | 'Z' => some (.mark m.zone.abbreviation)
  | 'c' => some (.text m.full)
  | 'D' => some (.text m.slashDate)
  | 'x' => some (.text m.slashDate)
  | 'F' => some (.text m.dashDate)
  | 'R' => some (.text m.hourMinute)
  | 'T' => some (.text m.clock)
  | 'X' => some (.text m.clock)
  | 'r' => some (.text m.halfDayClock)
  | 's' => some (.text (Numeral.ofInt (m.wallSeconds - home.offset)))
  | 'C' => some (.number 1 (m.date.year / 100))
  | 'd' => some (.number 2 m.date.day)
  | 'e' => some (.blankNumber 2 m.date.day)
  | 'H' => some (.number 2 m.hours)
  | 'I' => some (.number 2 m.twelveHour)
  | 'k' => some (.blankNumber 2 m.hours)
  | 'l' => some (.blankNumber 2 m.twelveHour)
  | 'j' => some (.number 3 (m.yearDay + 1))
  | 'M' => some (.number 2 m.minutes)
  | 'm' => some (.number 2 m.date.month)
  | 'S' => some (.number 2 m.secondsOfMinute)
  | 'u' => some (.number 1 ((m.weekday + 6) % 7 + 1 : Nat))
  | 'U' => some (.number 2 (m.weekFrom 0))
  | 'W' => some (.number 2 (m.weekFrom 1))
  | 'V' => some (.number 2 m.weekOfYear)
  | 'g' => some (.number 2 (m.weekYear % 100))
  | 'G' => some (.number 1 m.weekYear)
  | 'w' => some (.number 1 m.weekday)
  | 'Y' => some (.number 1 m.date.year)
  | 'y' => some (.number 2 m.yearOfCentury)
  | 'z' => some (.offset m.zone.offset)
  | _ => none

namespace Directive

/-- A directive that means nothing, as text. Short names of months take their flags before they
refuse a modifier. -/
def itself (d : Directive) : Field :=
  if d.conversion = some 'b' || d.conversion = some 'h' then .word d.written else .text d.written

def field (home : Zone) (m : Moment) (d : Directive) : Field :=
  let known := do
    let conversion ← d.conversion
    if d.modifier.any (refused conversion).contains then none else field? home m conversion
  known.getD d.itself

def filler (d : Directive) : UInt8 := if d.fill = .zeros then zero else blank

def toWidth (d : Directive) (t : Text) : Text := List.leftpad d.width d.filler t

def raise (d : Directive) (t : Text) : Text := if d.raised then uppercase t else t

def number (d : Directive) (fill : Fill) (digits : Nat) (n : Int) : Text :=
  let digits := max digits d.width
  match fill with
  | .bare => Numeral.ofInt n
  | .blanks => List.leftpad digits blank (Numeral.ofInt n)
  | _ =>
      if n < 0 then minus :: Numeral.padded (digits - 1) n.natAbs
      else Numeral.padded digits n.natAbs

def render (d : Directive) : Field → Text
  | .text t => d.toWidth (d.raise t)
  | .word t => d.toWidth (if d.swapped then uppercase t else d.raise t)
  | .mark t => d.toWidth (if d.swapped then lowercase t else d.raise t)
  | .lowered t => d.toWidth (lowercase t)
  | .number digits n => d.toWidth (d.number d.fill digits n)
  | .blankNumber digits n =>
      d.toWidth (d.number (if d.fill = .usual then .blanks else d.fill) digits n)
  | .offset seconds =>
      let minutes := seconds.natAbs / 60
      -- The sign is a field of its own, filled to the width as well.
      d.toWidth [if seconds < 0 then minus else plus] ++
        d.toWidth (d.number d.fill 4 (minutes / 60 * 100 + minutes % 60 : Nat))

end Directive

/-- The longest text that a pattern can give; a longer one is lost as a whole. -/
def limit : Nat := 8191

def Item.render? (home : Zone) (m : Moment) : Item → Option Text
  | .byte c => some [c]
  | .directive d => if limit < d.width then none else some (d.render (d.field home m))

/-- A pattern ends at its first zero byte. -/
def expand? (home : Zone) (m : Moment) (pattern : Text) : Option Text := do
  let parts ← (items (pattern.takeWhile (· != 0))).mapM (Item.render? home m)
  let whole := parts.flatten
  if limit < whole.length then none else some whole

def expand (home : Zone) (m : Moment) (pattern : Text) : Text :=
  (expand? home m pattern).getD []

end BoundSql.TimePattern

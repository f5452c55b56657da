import BoundSql.Text

/-!
Sets of bytes, as brackets and class escapes describe them. Classes know ASCII only. A range is
ordered as signed bytes are, so that bytes from 80 on come before all others.
-/

namespace BoundSql.Regex

open Text

inductive Kind where
  | alnum
  | alpha
  | blank
  | cntrl
  | digit
  | graph
  | lower
  | print
  | punct
  | space
  | upper
  | word
  | xdigit
  deriving DecidableEq

namespace Kind

def holds (k : Kind) (c : UInt8) : Bool :=
  match k with
  | alnum => isLetter c || isDigit c
  | alpha => isLetter c
  | blank => c == 32 || c == 9
  | cntrl => c < 32 || c == 127
  | digit => isDigit c
  | graph => 32 < c && c < 127
  | lower => isLower c
  | print => 32 ≤ c && c < 127
  | punct => 32 < c && c < 127 && !(isLetter c || isDigit c)
  | space => isSpace c
  | upper => isUpper c
  | word => isLetter c || isDigit c || c == 95
  | xdigit => (hexValue? c).isSome

def names : List (String × Kind) :=
  [("d", digit), ("w", word), ("s", space), ("alnum", alnum), ("alpha", alpha), ("blank", blank),
   ("cntrl", cntrl), ("digit", digit), ("graph", graph), ("lower", lower), ("print", print),
   ("punct", punct), ("space", space), ("upper", upper), ("xdigit", xdigit)]

/-- Names go in any letter case. -/
def named? (name : Text) : Option Kind :=
  (names.find? fun entry => ascii entry.1 == lowercase name).map (·.2)

end Kind

/-- The names of the ASCII characters in the portable character set, in order. -/
def characterNames : List String :=
  ["NUL", "SOH", "STX", "ETX", "EOT", "ENQ", "ACK", "alert", "backspace", "tab", "newline",
   "vertical-tab", "form-feed", "carriage-return", "SO", "SI", "DLE", "DC1", "DC2", "DC3", "DC4",
   "NAK", "SYN", "ETB", "CAN", "EM", "SUB", "ESC", "IS4", "IS3", "IS2", "IS1", "space",
   "exclamation-mark", "quotation-mark", "number-sign", "dollar-sign", "percent-sign",
   "ampersand", "apostrophe", "left-parenthesis", "right-parenthesis", "asterisk", "plus-sign",
   "comma", "hyphen", "period", "slash", "zero", "one", "two", "three", "four", "five", "six",
   "seven", "eight", "nine", "colon", "semicolon", "less-than-sign", "equals-sign",
   "greater-than-sign", "question-mark", "commercial-at",
   "A", "B", "C", "D", "E", "F", "G", "H", "I", "J", "K", "L", "M",
   "N", "O", "P", "Q", "R", "S", "T", "U", "V", "W", "X", "Y", "Z",
   "left-square-bracket", "backslash", "right-square-bracket", "circumflex", "underscore",
   "grave-accent",
   "a", "b", "c", "d", "e", "f", "g", "h", "i", "j", "k", "l", "m",
   "n", "o", "p", "q", "r", "s", "t", "u", "v", "w", "x", "y", "z",
   "left-curly-bracket", "vertical-line", "right-curly-bracket", "tilde", "DEL"]

def character? (name : Text) : Option UInt8 :=
  (characterNames.findIdx? fun entry => ascii entry == name).map Nat.toUInt8

def order (c : UInt8) : Int := c.toInt8.toInt

inductive Member where
  | byte (c : UInt8)
  | range (first last : UInt8)
  | kind (k : Kind)
  | unlike (k : Kind)
  /-- The same byte in either letter case. -/
  | folded (c : UInt8)
  deriving DecidableEq

def Member.holds (m : Member) (c : UInt8) : Bool :=
  match m with
  | byte b => c == b
  | range first last => order first ≤ order c && order c ≤ order last
  | kind k => k.holds c
  | unlike k => !k.holds c
  | folded b => Text.lower c == Text.lower b

structure ByteSet where
  negated : Bool
  members : List Member
  deriving DecidableEq

namespace ByteSet

def holds (s : ByteSet) (c : UInt8) : Bool := s.members.any (·.holds c) != s.negated

def only (c : UInt8) : ByteSet := ⟨false, [.byte c]⟩

def anyOf (m : Member) : ByteSet := ⟨false, [m]⟩

-- Newline and return end a line.
def withinLine : ByteSet := ⟨true, [.byte 10, .byte 13]⟩

end ByteSet

end BoundSql.Regex

/-!
Texts are byte strings. Templates, values, settings and log lines may hold any bytes, of which
only some happen to be UTF-8, so nothing here assumes an encoding. Letter case and the byte
classes are those of ASCII.
-/

namespace BoundSql

abbrev Text := List UInt8

namespace Text

/-- The bytes of an ASCII literal. -/
def ascii (s : String) : Text := s.toList.map fun c => c.toUInt8

abbrev newline : UInt8 := 10
abbrev blank : UInt8 := 32
abbrev doubleQuote : UInt8 := 34
abbrev dollar : UInt8 := 36
abbrev percent : UInt8 := 37
abbrev plus : UInt8 := 43
abbrev minus : UInt8 := 45
abbrev point : UInt8 := 46
abbrev zero : UInt8 := 48
abbrev questionMark : UInt8 := 63
abbrev backslash : UInt8 := 92

def isDigit (c : UInt8) : Bool := 48 ≤ c && c ≤ 57

def isUpper (c : UInt8) : Bool := 65 ≤ c && c ≤ 90

def isLower (c : UInt8) : Bool := 97 ≤ c && c ≤ 122

def isLetter (c : UInt8) : Bool := isUpper c || isLower c

-- Blank, tab, newline, vertical tab, form feed, return.
def isSpace (c : UInt8) : Bool := c = 32 || (9 ≤ c && c ≤ 13)

def lower (c : UInt8) : UInt8 := if isUpper c then c + 32 else c

def upper (c : UInt8) : UInt8 := if isLower c then c - 32 else c

def lowercase (t : Text) : Text := t.map lower

def uppercase (t : Text) : Text := t.map upper

/-- The value of a hexadecimal digit of either case. -/
def hexValue? (c : UInt8) : Option Nat :=
  if isDigit c then some (c.toNat - 48)
  else if 65 ≤ c && c ≤ 70 then some (c.toNat - 55)
  else if 97 ≤ c && c ≤ 102 then some (c.toNat - 87)
  else none

def hexDigit (n : Nat) : UInt8 := if n < 10 then 48 + n.toUInt8 else 87 + n.toUInt8

/-- What follows `lead` in `t`, if `t` starts with it. -/
def after? (lead t : Text) : Option Text :=
  match lead, t with
  | [], t => some t
  | _ :: _, [] => none
  | a :: lead, b :: t => if a = b then after? lead t else none

theorem after?_eq_some {lead t rest : Text} :
    after? lead t = some rest ↔ t = lead ++ rest := by
  induction lead generalizing t with
  | nil => simp [after?]
  | cons a lead ih =>
      cases t with
      | nil => simp [after?]
      | cons b t =>
          by_cases same : a = b
          · simp [after?, same, ih]
          · simp [after?, same, Ne.symm same]

theorem length_dropWhile (p : UInt8 → Bool) (t : Text) : (t.dropWhile p).length ≤ t.length :=
  (List.dropWhile_sublist p).length_le

end Text

end BoundSql

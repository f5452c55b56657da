import BoundSql.Text

/-!
JSON strings over bytes. Quotes, backslashes and control bytes are escaped, so a written string
has no byte below the blank and ends at its first bare quote; every other byte stands for itself.
-/

namespace BoundSql.JsonString

open Text

def short? (c : UInt8) : Option UInt8 :=
  if c = 34 then some 34
  else if c = 92 then some 92
  else if c = 8 then some 98
  else if c = 12 then some 102
  else if c = 10 then some 110
  else if c = 13 then some 114
  else if c = 9 then some 116
  else none

def escapeByte (c : UInt8) : Text :=
  match short? c with
  | some letter => [backslash, letter]
  | none =>
      if c < 32 then ascii "\\u00" ++ [hexDigit (c.toNat / 16), hexDigit (c.toNat % 16)]
      else [c]

def escape (t : Text) : Text := t.flatMap escapeByte

def quoted (t : Text) : Text := doubleQuote :: escape t ++ [doubleQuote]

end BoundSql.JsonString

import BoundSql.Settings.Dialect
import BoundSql.Settings.Scalar

/-!
Flow notation: braces around maps, brackets around sequences, scalars quoted or of one plain word. A
plain word may stand for null.
-/

namespace BoundSql

open Text

namespace Document

abbrev openBrace : UInt8 := 123
abbrev closeBrace : UInt8 := 125
abbrev openBracket : UInt8 := 91
abbrev closeBracket : UInt8 := 93
abbrev comma : UInt8 := 44
abbrev colon : UInt8 := 58

def isBlank (c : UInt8) : Bool := c == blank || c == newline

def isPlain (c : UInt8) : Bool :=
  !(isBlank c || [openBrace, closeBrace, openBracket, closeBracket, comma, colon,
    doubleQuote].contains c)

def skip (t : Text) : Text := t.dropWhile isBlank

def ofWord (word : Text) : Document :=
  if ["null", "Null", "NULL", "~"].any fun n => ascii n == word then .null else .scalar word

def unescape? (c : UInt8) : Option UInt8 :=
  if c = backslash then some backslash
  else if c = doubleQuote then some doubleQuote
  else if c = 110 then some newline
  else if c = 116 then some 9
  else none

/-- The rest of a quoted scalar whose opening quote has been read. -/
def quoted? : Text → Option (Text × Text)
  | [] => none
  | c :: t =>
      if c = doubleQuote then some ([], t)
      else if c = backslash then
        match t with
        | [] => none
        | e :: t => do
            let (body, rest) ← quoted? t
            return ((← unescape? e) :: body, rest)
      else (quoted? t).map fun (body, rest) => (c :: body, rest)

def word? (t : Text) : Option (Text × Text) :=
  let word := t.takeWhile isPlain
  if word.isEmpty then none else some (word, t.dropWhile isPlain)

def key? (t : Text) : Option (Text × Text) :=
  match t with
  | [] => none
  | c :: rest => if c = doubleQuote then quoted? rest else word? t

def expect? (c : UInt8) (t : Text) : Option Text :=
  match skip t with
  | [] => none
  | d :: rest => if d = c then some rest else none

-- The first argument bounds the nesting and the length; the length of the text is enough.
mutual

def value? : Nat → Text → Option (Document × Text)
  | 0, _ => none
  | left + 1, t =>
      match skip t with
      | [] => none
      | c :: rest =>
          if c = openBrace then
            match expect? closeBrace rest with
            | some rest => some (.map [], rest)
            | none => (entries? left rest).map fun (entries, rest) => (.map entries, rest)
          else if c = openBracket then
            match expect? closeBracket rest with
            | some rest => some (.sequence [], rest)
            | none => (items? left rest).map fun (items, rest) => (.sequence items, rest)
          else if c = doubleQuote then
            (quoted? rest).map fun (body, rest) => (.scalar body, rest)
          else (word? (c :: rest)).map fun (word, rest) => (ofWord word, rest)

def items? : Nat → Text → Option (List Document × Text)
  | 0, _ => none
  | left + 1, t => do
      let (item, rest) ← value? left t
      match expect? comma rest with
      | some rest =>
          let (items, rest) ← items? left rest
          return (item :: items, rest)
      | none => return ([item], ← expect? closeBracket rest)

def entries? : Nat → Text → Option (List (Text × Document) × Text)
  | 0, _ => none
  | left + 1, t => do
      let (key, rest) ← key? (skip t)
      let (value, rest) ← value? left (← expect? colon rest)
      match expect? comma rest with
      | some rest =>
          let (entries, rest) ← entries? left rest
          return ((key, value) :: entries, rest)
      | none => return ([(key, value)], ← expect? closeBrace rest)

end

/-- A text with nothing but blanks is null. -/
def ofText? (t : Text) : Option Document :=
  if (skip t).isEmpty then some .null
  else
    match value? (t.length + 1) t with
    | some (d, rest) => if (skip rest).isEmpty then some d else none
    | none => none

end Document

/-- Of a text that is refused nothing more is said. -/
def Dialect.flow : Dialect where
  document t := (Document.ofText? t).elim (.error (.general (ascii "malformed document"))) .ok
  switch? := Scalar.bool?
  int32? := Scalar.int32?
  uint32? := Scalar.uint32?
  patternComplaint _ := ascii "malformed pattern"
  empty := rfl

theorem Dialect.flow_document {t : Text} {d : Document} (read : Document.ofText? t = some d) :
    flow.document t = .ok d := by
  simp only [flow, read, Option.elim_some]

end BoundSql

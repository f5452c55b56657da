import BoundSql.Regex.Escape

/-!
Sets of bytes in brackets. A dash makes a range when there is a byte on both sides of it that is
free for one; at the edges of the bracket and after a range it is a byte like any other, and after
a class it is refused.
-/

namespace BoundSql.Regex

open Text

inductive Element where
  | finish
  | dash
  | byte (c : UInt8)
  /-- A character by its name, which cannot end a range. -/
  | symbol (c : UInt8)
  | member (m : Member)

-- A name between two marks, after which the inner bracket closes.
def name? (mark : UInt8) (t : Text) : Option (Text × Text) :=
  match t.dropWhile (· != mark) with
  | _ :: close :: rest => if close = 93 then some (t.takeWhile (· != mark), rest) else none
  | _ => none

def Element.read? : Text → Option (Element × Text)
  | [] => none
  | c :: t =>
      match Char.ofUInt8 c with
      | ']' => some (.finish, t)
      | '-' => some (.dash, t)
      | '\\' => do
          match ← Escape.read? true t with
          | (.byte c, rest) => some (.byte c, rest)
          | (.member m, rest) => some (.member m, rest)
          | _ => none
      | '[' => do
          let mark ← t.head?
          match Char.ofUInt8 mark with
          | '.' =>
              let (name, rest) ← name? mark (t.drop 1)
              return (.symbol (← character? name), rest)
          | ':' =>
              let (name, rest) ← name? mark (t.drop 1)
              return (.member (.kind (← Kind.named? name)), rest)
          | '=' =>
              let (name, rest) ← name? mark (t.drop 1)
              return (.member (.folded (← character? name)), rest)
          | _ => return (.byte c, t)
      | _ => some (.byte c, t)

/-- What a dash would follow: the end of a range or nothing, a byte, or a class. -/
inductive Last where
  | nothing
  | byte (c : UInt8)
  | member

-- A byte joins the set only when it is clear that it begins no range.
def Last.settle (last : Last) (members : List Member) : List Member :=
  match last with
  | .byte c => .byte c :: members
  | _ => members

def range? (first last : UInt8) : Option Member :=
  if order first ≤ order last then some (.range first last) else none

-- Every round takes at least a byte, so as many rounds as bytes are enough.
def members? : Nat → Last → List Member → Text → Option (List Member × Text)
  | 0, _, _, _ => none
  | rounds + 1, last, members, t => do
      match ← Element.read? t with
      | (.finish, rest) => return (last.settle members, rest)
      | (.byte c, rest) => members? rounds (.byte c) (last.settle members) rest
      | (.symbol c, rest) => members? rounds (.byte c) (last.settle members) rest
      | (.member m, rest) => members? rounds .member (m :: last.settle members) rest
      | (.dash, rest) =>
          let (next, beyond) ← Element.read? rest
          match next, last with
          | .finish, _ => return (.byte minus :: last.settle members, beyond)
          | _, .nothing => members? rounds (.byte minus) members rest
          | .byte c, .byte first => members? rounds .nothing ((← range? first c) :: members) beyond
          | .dash, .byte first =>
              members? rounds .nothing ((← range? first minus) :: members) beyond
          | _, _ => none

/-- Reads the bracket whose opening has been read. -/
def bracket? (t : Text) : Option (ByteSet × Text) :=
  let negated := t.head? == some 94
  let t := if negated then t.drop 1 else t
  (members? t.length .nothing [] t).map fun (members, rest) => (⟨negated, members⟩, rest)

end BoundSql.Regex

import BoundSql.Text.Numeral

/-!
Fixed offsets from universal time. A zone rule gives an abbreviation, bare letters or anything in
angle brackets, and then the time to add to local time to reach universal time, so that west of
Greenwich is positive.
-/

namespace BoundSql

open Text

/-- `offset` is in seconds, positive to the east. -/
structure Zone where
  offset : Int
  abbreviation : Text
  deriving DecidableEq

namespace Zone

def universal : Zone := ⟨0, ascii "GMT"⟩

/-- Where no rule, or none that can be read, is given. -/
def fallback : Zone := ⟨0, ascii "UTC"⟩

def abbreviation? : Text → Option (Text × Text)
  | [] => none
  | c :: t =>
      if c = 60 then
        match t.dropWhile (· != 62) with
        | [] => none
        | _ :: rest => some (t.takeWhile (· != 62), rest)
      else
        let letters := (c :: t).takeWhile isLetter
        if letters.length < 3 then none else some (letters, (c :: t).dropWhile isLetter)

-- Hours, minutes and seconds between colons; the list holds what one of each is worth.
def clock : List Nat → Text → Nat
  | [], _ => 0
  | worth :: smaller, t =>
      worth * Numeral.value (t.takeWhile isDigit) +
        match t.dropWhile isDigit with
        | c :: rest => if c = 58 then clock smaller rest else 0
        | [] => 0

def west (t : Text) : Int :=
  match t with
  | [] => 0
  | c :: rest =>
      if c = minus then -(clock [3600, 60, 1] rest : Int)
      else clock [3600, 60, 1] (if c = plus then rest else t)

def ofRule (t : Text) : Zone :=
  match abbreviation? t with
  | some (name, rest) => ⟨-west rest, name⟩
  | none => fallback

end Zone

end BoundSql

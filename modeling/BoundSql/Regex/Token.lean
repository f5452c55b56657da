import BoundSql.Regex.Bracket

/-!
The tokens of a pattern. A bracket is one token, and so is a repetition with its mark of reluctance.
Each function reads one thing from the front of a text and gives the rest, or refuses.
-/

namespace BoundSql.Regex

open Text

inductive Opening where
  | group
  | plain
  | look (negated : Bool)
  deriving DecidableEq

/-- `counted least extra` is at least `least` times and at most `extra` more, if that is bounded. -/
inductive Repetition where
  | star
  | plus
  | maybe
  | counted (least : Nat) (extra : Option Nat)
  deriving DecidableEq

inductive Token where
  | bytes (s : ByteSet)
  | back (index : Nat)
  | start
  | finish
  | boundary (negated : Bool)
  | opening (o : Opening)
  | closing
  | bar
  | repetition (r : Repetition) (reluctant : Bool)
  deriving DecidableEq

-- After the opening brace: a count, and perhaps a comma and another count.
def counts? (t : Text) : Option (Repetition × Text) := do
  let least := t.takeWhile isDigit
  if least.isEmpty then none
  else
    let t := t.dropWhile isDigit
    let bounded := t.head? != some 44
    let t := if bounded then t else t.drop 1
    let most := if bounded then least else t.takeWhile isDigit
    let t := if bounded then t else t.dropWhile isDigit
    if t.head? != some 125 then none
    else if most.isEmpty then some (.counted (Numeral.value least) none, t.drop 1)
    else if Numeral.value least ≤ Numeral.value most then
      some (.counted (Numeral.value least) (some (Numeral.value most - Numeral.value least)),
        t.drop 1)
    else none

/-- A repetition takes a question mark after it as its own. -/
def reluctance (r : Repetition) (t : Text) : Token × Text :=
  let reluctant := t.head? == some questionMark
  (.repetition r reluctant, if reluctant then t.drop 1 else t)

def opening? (t : Text) : Option (Opening × Text) :=
  if t.head? == some questionMark then
    match t.drop 1 with
    | [] => none
    | c :: rest =>
        match Char.ofUInt8 c with
        | ':' => some (.plain, rest)
        | '=' => some (.look false, rest)
        | '!' => some (.look true, rest)
        | _ => none
  else some (.group, t)

def Token.read? (c : UInt8) (t : Text) : Option (Token × Text) :=
  match Char.ofUInt8 c with
  | '\\' => (Escape.read? false t).map fun (e, rest) =>
      match e with
      | .byte c => (.bytes (.only c), rest)
      | .member m => (.bytes (.anyOf m), rest)
      | .boundary negated => (.boundary negated, rest)
      | .back index => (.back index, rest)
  | '.' => some (.bytes .withinLine, t)
  | '[' => (bracket? t).map fun (s, rest) => (.bytes s, rest)
  | '^' => some (.start, t)
  | '$' => some (.finish, t)
  | '(' => (opening? t).map fun (o, rest) => (.opening o, rest)
  | ')' => some (.closing, t)
  | '|' => some (.bar, t)
  | '*' => some (reluctance .star t)
  | '+' => some (reluctance .plus t)
  | '?' => some (reluctance .maybe t)
  | '{' => (counts? t).map fun (r, rest) => reluctance r rest
  | _ => some (.bytes (.only c), t)

-- Every token takes at least a byte, so as many rounds as bytes are enough.
def tokens? : Nat → Text → Option (List Token)
  | _, [] => some []
  | 0, _ :: _ => none
  | rounds + 1, c :: t => do
      let (token, rest) ← Token.read? c t
      return token :: (← tokens? rounds rest)

end BoundSql.Regex

import BoundSql.Regex.Matching

/-!
A text cut up by the successive matches of a pattern. Matches are found from the left and do not
overlap. After an empty match, one that is not empty is tried for at the same place before the
search moves on.
-/

namespace BoundSql.Regex

structure Match where
  text : Text
  captures : List (Option Text)

inductive Segment where
  | gap (t : Text)
  | found (m : Match)

structure Cursor where
  place : Nat
  before : Option UInt8
  rest : Text

namespace Pattern

def roundsFor (t : Text) : Nat := 2 * (t.length + 1)

/-- The match that begins at the cursor, and the cursor after it. -/
def matchAt? (p : Pattern) (rounds : Nat) (afterText nonempty : Bool) (c : Cursor) :
    Option (Match × Cursor) :=
  let scope : Scope := ⟨c.place, afterText, nonempty, rounds⟩
  match run scope [] p.node scope.accept
      ⟨c.place, c.before, c.rest, List.replicate p.groups none, []⟩ with
  | .found e =>
      some (⟨c.rest.take (e.place - c.place), e.captures⟩, ⟨e.place, e.before, e.rest⟩)
  | .failed _ => none

structure Hit where
  gap : Text
  hit : Match
  after : Cursor

-- Only at the first place may the start of the text be the start of the match.
def searchFrom (p : Pattern) (rounds : Nat) (afterText : Bool) (place : Nat)
    (before : Option UInt8) (rest : Text) : Option Hit :=
  match p.matchAt? rounds afterText false ⟨place, before, rest⟩, rest with
  | some (m, after), _ => some ⟨[], m, after⟩
  | none, [] => none
  | none, c :: t =>
      (p.searchFrom rounds true (place + 1) (some c) t).map fun h => { h with gap := c :: h.gap }

def search (p : Pattern) (rounds : Nat) (afterText : Bool) (c : Cursor) : Option Hit :=
  p.searchFrom rounds afterText c.place c.before c.rest

/-- The match after one that was empty and ended at the cursor, and whether the search that found
it counts the bytes before as seen. -/
def afterEmpty? (p : Pattern) (rounds : Nat) (seen : Bool) (c : Cursor) : Option (Hit × Bool) :=
  match c.rest with
  | [] => none
  | b :: t =>
      match p.matchAt? rounds seen true c with
      | some (m, after) => some (⟨[], m, after⟩, seen)
      | none =>
          (p.search rounds true ⟨c.place + 1, some b, t⟩).map fun h =>
            ({ h with gap := b :: h.gap }, true)

def next? (p : Pattern) (rounds : Nat) (seen : Bool) (last : Match) (c : Cursor) :
    Option (Hit × Bool) :=
  if last.text.isEmpty then p.afterEmpty? rounds seen c
  else (p.search rounds true c).map fun h => (h, true)

-- At most two matches end at one place, so two for every place are enough.
def continued (p : Pattern) (rounds : Nat) : Nat → Bool → Match → Cursor → List Segment
  | 0, _, _, c => [.gap c.rest]
  | left + 1, seen, last, c =>
      match p.next? rounds seen last c with
      | none => [.gap c.rest]
      | some (h, seen) => .gap h.gap :: .found h.hit :: p.continued rounds left seen h.hit h.after

def segments (p : Pattern) (t : Text) : List Segment :=
  let rounds := roundsFor t
  match p.search rounds false ⟨0, none, t⟩ with
  | none => [.gap t]
  | some h => .gap h.gap :: .found h.hit :: p.continued rounds rounds false h.hit h.after

end Pattern

/-- What the first group holds; nothing if it took no part. -/
def Match.number (m : Match) : Text := (m.captures.head?.join).getD []

end BoundSql.Regex

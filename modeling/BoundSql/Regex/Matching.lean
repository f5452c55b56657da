import BoundSql.Regex.Node

/-!
Matching by trying choices in order, each with all that follows it. What follows is a function
from the state reached to the outcome, so a match of a tree is found by recursion on the tree.

A repetition may begin a round at most twice in a row at one place. Every round after that would
have to move on, so along one path there are at most two rounds for every place in the text, and a
number of rounds given beforehand is never used up.
-/

namespace BoundSql.Regex

open Text

/-- Where a repetition stands in its pattern; unrolled copies stand in different places. -/
abbrev Path := List Nat

structure Visit where
  path : Path
  place : Nat
  count : Nat

/-- `place` counts the bytes before `rest`, the last of which is `before`. -/
structure State where
  place : Nat
  before : Option UInt8
  rest : Text
  captures : List (Option Text)
  visits : List Visit

namespace State

def advance (s : State) (c : UInt8) (rest : Text) : State :=
  { s with place := s.place + 1, before := some c, rest := rest }

def pass (s : State) (t rest : Text) : State :=
  { s with place := s.place + t.length, before := t.getLast?.or s.before, rest := rest }

def capture? (s : State) (index : Nat) : Option Text := (s.captures[index - 1]?).join

def withCaptures (s : State) (captures : List (Option Text)) : State :=
  { s with captures := captures }

/-- How many rounds in a row the repetition has begun here. -/
def roundsHere (s : State) (path : Path) : Nat :=
  match s.visits.find? (·.path == path) with
  | some visit => if visit.place = s.place then visit.count else 0
  | none => 0

def mayEnter (s : State) (path : Path) : Bool := s.roundsHere path < 2

def enter (s : State) (path : Path) : State :=
  { s with visits := ⟨path, s.place, s.roundsHere path + 1⟩ ::
      s.visits.filter (·.path != path) }

end State

/-- A failure hands back the captures, for those made in a look ahead outlive it. -/
inductive Outcome where
  | found (s : State)
  | failed (captures : List (Option Text))

namespace Outcome

def orElse (o : Outcome) (other : List (Option Text) → Outcome) : Outcome :=
  match o with
  | found s => found s
  | failed captures => other captures

/-- A group that ended on a failed way has its earlier capture back. -/
def restoring (o : Outcome) (index : Nat) (earlier : Option Text) : Outcome :=
  match o with
  | found s => found s
  | failed captures => failed (captures.set (index - 1) earlier)

end Outcome

/-- What a match is judged by from outside: where it began, whether the byte before counts as
seen, whether it must not be empty, and how many rounds a repetition is given. -/
structure Scope where
  origin : Nat
  afterText : Bool
  nonempty : Bool
  rounds : Nat

abbrev Rest := State → Outcome

def fail (s : State) : Outcome := .failed s.captures

def Scope.accept (scope : Scope) (s : State) : Outcome :=
  if scope.nonempty && s.place == scope.origin then fail s else .found s

def Scope.atStart (scope : Scope) (s : State) : Bool :=
  s.place == scope.origin && !scope.afterText

def isWord (c : Option UInt8) : Bool := c.any Kind.word.holds

def Scope.atBoundary (scope : Scope) (s : State) : Bool :=
  (!scope.atStart s && isWord s.before) != isWord s.rest.head?

/-- Another round or none, the one that is preferred first. -/
def fork (path : Path) (reluctant : Bool) (more rest : Rest) (s : State) : Outcome :=
  let again (s : State) : Outcome := if s.mayEnter path then more (s.enter path) else fail s
  if reluctant then (rest s).orElse fun captures => again (s.withCaptures captures)
  else (again s).orElse fun captures => rest (s.withCaptures captures)

def loop (body : Rest → Rest) (path : Path) (reluctant : Bool) (rest : Rest) : Nat → Rest
  | 0 => rest
  | rounds + 1 => fork path reluctant (body (loop body path reluctant rest rounds)) rest

/-- The copies of a body from the given one on, so many of them, all needed. -/
def copies (body : Nat → Rest → Rest) (rest : Rest) : Nat → Nat → Rest
  | _, 0 => rest
  | first, count + 1 => body first (copies body rest (first + 1) count)

/-- The copies of a body from the given one on, so many of them, each only after the one before. -/
def optionalCopies (body : Nat → Rest → Rest) (path : Nat → Path) (reluctant : Bool)
    (rest : Rest) : Nat → Nat → Rest
  | _, 0 => rest
  | first, count + 1 =>
      fork (path first) reluctant
        (body first (optionalCopies body path reluctant rest (first + 1) count)) rest

def run (scope : Scope) (path : Path) : Node → Rest → Rest
  | .empty, rest => rest
  | .bytes set, rest => fun s =>
      match s.rest with
      | c :: t => if set.holds c then rest (s.advance c t) else fail s
      | [] => fail s
  | .start, rest => fun s => if scope.atStart s then rest s else fail s
  | .finish, rest => fun s => if s.rest.isEmpty then rest s else fail s
  | .boundary negated, rest => fun s =>
      if scope.atBoundary s != negated then rest s else fail s
  | .back index, rest => fun s =>
      match s.capture? index with
      | some t =>
          match after? t s.rest with
          | some later => rest (s.pass t later)
          | none => fail s
      | none => fail s
  | .group index body, rest => fun s =>
      run scope (0 :: path) body
        (fun e =>
          let captured := s.rest.take (e.place - s.place)
          (rest (e.withCaptures (e.captures.set (index - 1) (some captured)))).restoring index
            (e.capture? index))
        s
  | .look negated body, rest => fun s =>
      let inside : Scope := { scope with origin := s.place }
      match run inside (0 :: path) body inside.accept { s with visits := [] } with
      | .found e =>
          let seen := s.withCaptures e.captures
          if negated then fail seen else rest seen
      | .failed _ => if negated then rest s else fail s
  | .seq a b, rest => run scope (0 :: path) a (run scope (1 :: path) b rest)
  | .either a b, rest => fun s =>
      (run scope (0 :: path) a rest s).orElse fun captures =>
        run scope (1 :: path) b rest (s.withCaptures captures)
  | .repetition .star reluctant body, rest =>
      loop (run scope (0 :: path) body) path reluctant rest scope.rounds
  | .repetition .plus reluctant body, rest =>
      -- The first round and the later ones are one body, and share what it has visited.
      run scope (0 :: path) body
        (loop (run scope (0 :: path) body) path reluctant rest scope.rounds)
  | .repetition .maybe reluctant body, rest =>
      fork path reluctant (run scope (0 :: path) body rest) rest
  | .repetition (.counted least extra) reluctant body, rest =>
      let copy (i : Nat) : Rest → Rest := run scope ((2 * i + 1) :: path) body
      let mark (i : Nat) : Path := (2 * i) :: path
      copies copy
        (match extra with
        | some more => optionalCopies copy mark reluctant rest least more
        | none => loop (copy least) (mark least) reluctant rest scope.rounds)
        0 least

end BoundSql.Regex

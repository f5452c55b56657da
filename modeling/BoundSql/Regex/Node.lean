import BoundSql.Regex.Token

/-!
Patterns as trees, built from tokens by keeping the groups that are still open on a stack. A
pattern is refused when its parentheses do not pair, a repetition has nothing to repeat, a back
reference names no finished group, or the machine that it stands for has too many states.
-/

namespace BoundSql.Regex

inductive Node where
  | empty
  | bytes (s : ByteSet)
  | start
  | finish
  | boundary (negated : Bool)
  | back (index : Nat)
  | group (index : Nat) (body : Node)
  | look (negated : Bool) (body : Node)
  | seq (first second : Node)
  | either (first second : Node)
  | repetition (r : Repetition) (reluctant : Bool) (body : Node)
  deriving DecidableEq

namespace Node

-- A count copies its body once per round, and every round past the least has a fork.
def unrolled (least : Nat) (extra : Option Nat) (body : Nat) : Nat :=
  match extra with
  | some more => 1 + least * body + more * (body + 1) + 1
  | none => 1 + least * body + body + 1

/-- The states that can be reached from the start of the node. -/
def states : Node → Nat
  | group _ body => body.states + 2
  | look _ body => body.states + 2
  | seq a b => a.states + b.states
  | either a b => a.states + b.states + 2
  | repetition .star _ body => body.states + 1
  | repetition .plus _ body => body.states + 1
  | repetition .maybe _ body => body.states + 2
  | repetition (.counted least extra) _ body => unrolled least extra body.states
  | _ => 1

/-- All states made on the way; the body that a count has copied stays behind. -/
def built : Node → Nat
  | group _ body => body.built + 2
  | look _ body => body.built + 2
  | seq a b => a.built + b.built
  | either a b => a.built + b.built + 2
  | repetition .star _ body => body.built + 1
  | repetition .plus _ body => body.built + 1
  | repetition .maybe _ body => body.built + 2
  | repetition (.counted least extra) _ body => body.built + unrolled least extra body.states
  | _ => 1

end Node

/-- A group that is open: its finished alternatives, and the terms of the one being read. -/
structure Open where
  opening : Opening
  index : Nat
  done : Option Node
  terms : List Node
  /-- Whether the last term may be repeated. -/
  repeatable : Bool

namespace Open

def fresh (opening : Opening) (index : Nat) : Open := ⟨opening, index, none, [], false⟩

-- Terms are kept last first.
def alternative (g : Open) : Node := g.terms.foldl (fun rest term => .seq term rest) .empty

def choice (g : Open) : Node :=
  match g.done with
  | none => g.alternative
  | some earlier => .either earlier g.alternative

def add (g : Open) (term : Node) (repeatable : Bool) : Open :=
  { g with terms := term :: g.terms, repeatable := repeatable }

def branch (g : Open) : Open :=
  { g with done := some g.choice, terms := [], repeatable := false }

/-- The term that the closed group is, added to the group around it. -/
def closeInto (g outer : Open) : Open :=
  match g.opening with
  | .group => outer.add (.group g.index g.choice) true
  | .plain => outer.add (.seq .empty g.choice) true
  | .look negated => outer.add (.look negated g.choice) false

def isGroup (g : Open) (index : Nat) : Bool := g.opening == .group && g.index == index

end Open

/-- The innermost open group, those around it, and how many groups have been opened. -/
structure Reading where
  inner : Open
  outer : List Open
  groups : Nat

namespace Reading

-- The whole pattern is read as if between parentheses of its own.
def begun : Reading := ⟨.fresh .plain 0, [], 0⟩

def add (r : Reading) (term : Node) (repeatable : Bool) : Reading :=
  { r with inner := r.inner.add term repeatable }

def finished (r : Reading) (index : Nat) : Bool :=
  1 ≤ index && index ≤ r.groups && !((r.inner :: r.outer).any (·.isGroup index))

def repeated? (r : Reading) (n : Repetition) (reluctant : Bool) : Option Reading :=
  match r.inner.terms with
  | term :: earlier =>
      if r.inner.repeatable then
        some { r with inner := { r.inner with terms := .repetition n reluctant term :: earlier } }
      else none
  | [] => none

def step? (r : Reading) : Token → Option Reading
  | .bytes s => some (r.add (.bytes s) true)
  | .back index => if r.finished index then some (r.add (.back index) true) else none
  | .start => some (r.add .start false)
  | .finish => some (r.add .finish false)
  | .boundary negated => some (r.add (.boundary negated) false)
  | .bar => some { r with inner := r.inner.branch }
  | .repetition n reluctant => r.repeated? n reluctant
  | .opening .group => some ⟨.fresh .group (r.groups + 1), r.inner :: r.outer, r.groups + 1⟩
  | .opening o => some ⟨.fresh o 0, r.inner :: r.outer, r.groups⟩
  | .closing =>
      match r.outer with
      | outer :: others => some ⟨r.inner.closeInto outer, others, r.groups⟩
      | [] => none

end Reading

structure Pattern where
  node : Node
  groups : Nat
  deriving DecidableEq

namespace Pattern

def stateLimit : Nat := 100000

-- The whole match is a group as well, and the end is a state.
def fits (node : Node) : Bool := node.built + 3 ≤ stateLimit

def ofTokens? (tokens : List Token) : Option Pattern := do
  let r ← tokens.foldlM Reading.step? .begun
  if r.outer.isEmpty && fits r.inner.choice then some ⟨r.inner.choice, r.groups⟩ else none

def ofText? (t : Text) : Option Pattern := (tokens? t.length t).bind ofTokens?

end Pattern

end BoundSql.Regex

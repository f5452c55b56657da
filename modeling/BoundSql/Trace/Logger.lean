import BoundSql.Template
import BoundSql.Trace.Entry

/-!
Which statements leave a trace. An error comes first, then a statement slower than the threshold,
then any other; each needs a level that lets it through. The text of a statement is asked for only
when it will be written, and what is written the filter of the back end never holds back, though
it is set apart from the choice of the event.
-/

namespace BoundSql.Trace

open Text

inductive Level where
  | debug
  | info
  | warn
  | error
  | silent
  deriving DecidableEq

def Level.rank : Level → Nat
  | debug => 0
  | info => 1
  | warn => 2
  | error => 3
  | silent => 4

def Severity.rank : Severity → Nat
  | debug => 0
  | info => 1
  | warn => 2
  | error => 3

instance : LE Level := ⟨fun a b => a.rank ≤ b.rank⟩

instance (a b : Level) : Decidable (a ≤ b) := inferInstanceAs (Decidable (a.rank ≤ b.rank))

/-- What the back end keeps: whatever is at least so severe, or nothing. -/
inductive Filter where
  | atLeast (least : Severity)
  | off
  deriving DecidableEq

def Filter.keeps : Filter → Severity → Bool
  | atLeast least, s => least.rank ≤ s.rank
  | off, _ => false

/-- The filter that the back end is set to. -/
def Level.filter : Level → Filter
  | debug => .atLeast .debug
  | info => .atLeast .info
  | warn => .atLeast .warn
  | error => .atLeast .error
  | silent => .off

/-- The threshold is in milliseconds and zero turns it off. An empty path stands for no file. -/
structure Settings where
  level : Level := .info
  logPath : Text := ascii "/tmp/sqlexplain.log"
  slowThreshold : Int := 200
  ignoreNotFound : Bool := false
  parameterized : Bool := false
  deriving DecidableEq

structure Failure where
  message : Text
  notFound : Bool
  deriving DecidableEq

structure Record where
  severity : Severity
  line : Text
  deriving DecidableEq

/-- The record as it is written out, with the time on the wall in front. -/
def Record.written (home : Zone) (now : Instant) (r : Record) : Text :=
  let m := Moment.ofSeconds home now.seconds
  ascii "[" ++ m.dashDate ++ blank :: m.clock ++ point :: Numeral.padded 3 now.milliseconds ++
    ascii "] " ++ r.line ++ [newline]

namespace Settings

def keep (s : Settings) (severity : Severity) (line : Text) : List Record :=
  if s.level.filter.keeps severity then [⟨severity, line⟩] else []

def write (s : Settings) (e : Entry) : List Record := s.keep e.event.severity e.line

def reports (s : Settings) (failure : Option Failure) : Bool :=
  failure.any fun f => !(f.notFound && s.ignoreNotFound)

def isSlow (s : Settings) (elapsed : Int) : Bool :=
  s.slowThreshold != 0 && s.slowThreshold * 1000000 < elapsed

/-- What a finished statement is traced as, if at all. -/
def event? (s : Settings) (elapsed : Int) (failure : Option Failure) : Option Event :=
  if s.level = .silent then none
  else if s.reports failure && s.level ≤ .error then some .sqlError
  else if s.isSlow elapsed && s.level ≤ .warn then some .slowSql
  else if s.level ≤ .info then some .sql
  else none

end Settings

/-- A finished statement as its caller knows it, but for its text and rows. -/
structure Finished where
  caller : Text
  elapsed : Int
  failure : Option Failure := none
  timestamp : Instant

/-- What came of a statement: how often its text was asked for, and the records kept. -/
structure Traced where
  calls : Nat
  records : List Record
  deriving DecidableEq

def Traced.called (t : Traced) : Bool := t.calls != 0

namespace Settings

def entry (s : Settings) (f : Finished) (event : Event) (sql : Text) (rows : Int) : Entry :=
  { event := event
    caller := f.caller
    sql := sql
    rows := rows
    elapsed := f.elapsed
    error := if event = .sqlError then f.failure.map (·.message) else none
    slowThreshold := if event = .slowSql then s.slowThreshold else 0
    timestamp := f.timestamp }

/-- The steps of tracing, whatever else may happen when the statement is asked for. -/
def steps {m : Type → Type} [Monad m] (s : Settings) (f : Finished) (statement : m (Text × Int)) :
    m (List Record) :=
  match s.event? f.elapsed f.failure with
  | none => return []
  | some event => do
      let (sql, rows) ← statement
      return s.write (s.entry f event sql rows)

/-- A statement that counts how often it is asked for. -/
def counted (statement : Unit → Text × Int) : StateM Nat (Text × Int) := do
  modify (· + 1)
  return statement ()

def trace (s : Settings) (f : Finished) (statement : Unit → Text × Int) : Traced :=
  let (records, calls) := (s.steps f (counted statement)).run 0
  ⟨calls, records⟩

end Settings

/-- A logger can explain statements in its own way, besides tracing them. -/
structure Logger where
  settings : Settings
  literals : Template.Literals
  placeholders : Template.Placeholders
  escaper : Text

namespace Logger

/-- With parameterized queries the values are never looked at. -/
def explain (l : Logger) (template : Text) (values : List Value) : Text :=
  if l.settings.parameterized then template
  else Template.explain l.literals l.placeholders l.escaper template values

/-- `opens` tells which files can be opened for writing at their end. -/
def usable (s : Settings) (opens : Text → Bool) : Bool := s.logPath.isEmpty || opens s.logPath

end Logger

end BoundSql.Trace

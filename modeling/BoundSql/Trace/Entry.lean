import BoundSql.Number.FixedPoint
import BoundSql.Text.JsonString
import BoundSql.Time.Stamp

/-!
Trace entries and the lines that show them. A line is one JSON object on one line, with its fields
in a fixed order; which fields there are depends on the event alone, and for an error on whether
there is a text for it.
-/

namespace BoundSql.Trace

open Text

-- Powers are the built-in ones, whatever else is imported.
attribute [local instance (high)] instPowNat

inductive Event where
  | sql
  | slowSql
  | sqlError
  deriving DecidableEq

inductive Severity where
  | debug
  | info
  | warn
  | error
  deriving DecidableEq

def Event.name : Event → Text
  | sql => ascii "sql"
  | slowSql => ascii "slow_sql"
  | sqlError => ascii "sql_error"

def Event.severity : Event → Severity
  | sql => .info
  | slowSql => .warn
  | sqlError => .error

/-- `elapsed` is in nanoseconds and `slowThreshold` in milliseconds; negative `rows` are unknown. -/
structure Entry where
  event : Event
  caller : Text := []
  sql : Text := []
  rows : Int := -1
  elapsed : Int := 0
  error : Option Text := none
  slowThreshold : Int := 0
  timestamp : Instant := Instant.zero
  deriving DecidableEq

/-- Milliseconds as a double, first of the count of nanoseconds and then of its millionth. -/
def elapsedMagnitude (nanoseconds : Int) : Binary.Magnitude :=
  let count := Binary.nearest Binary.double nanoseconds.natAbs 1
  Binary.nearest Binary.double count.units (2 ^ Binary.double.depth * 1000000)

def elapsedText (nanoseconds : Int) : Text :=
  FixedPoint.ofMagnitude 3 Binary.double (nanoseconds < 0) (elapsedMagnitude nanoseconds)

def rowsText (rows : Int) : Text :=
  if rows < 0 then JsonString.quoted [minus] else Numeral.ofInt rows

namespace Entry

def errorFields (e : Entry) : List (String × Text) :=
  match e.event, e.error with
  | .sqlError, some message => [("error", JsonString.quoted message)]
  | _, _ => []

def thresholdFields (e : Entry) : List (String × Text) :=
  if e.event = .slowSql then [("slow_threshold_ms", Numeral.ofInt e.slowThreshold)] else []

/-- The names of the fields with their values as written. -/
def fields (e : Entry) : List (String × Text) :=
  [("event", JsonString.quoted e.event.name),
   ("caller", JsonString.quoted e.caller),
   ("elapsed_ms", elapsedText e.elapsed),
   ("rows", rowsText e.rows),
   ("sql", JsonString.quoted e.sql)] ++
  e.errorFields ++ e.thresholdFields ++
  [("timestamp", JsonString.quoted (Stamp.text e.timestamp))]

end Entry

def openBrace : UInt8 := 123
def closeBrace : UInt8 := 125
def comma : UInt8 := 44
def colon : UInt8 := 58

def member (m : String × Text) : Text := JsonString.quoted (ascii m.1) ++ colon :: m.2

def object (members : List (String × Text)) : Text :=
  openBrace :: [comma].intercalate (members.map member) ++ [closeBrace]

def Entry.line (e : Entry) : Text := object e.fields

end BoundSql.Trace

import BoundSql.Settings
import BoundSql.Settings.Fault

/-!
The keys that settings are known by, in their order. Every key has a reader of its own for values
that are not null, and what it reads does not depend on any other key. Names among the values go
in any letter case; switches and integers are what the dialect says.
-/

namespace BoundSql.Settings

abbrev Change := Settings → Settings

structure Key where
  name : String
  read : Document → Except Problem Change

namespace Key

open Text

variable (dialect : Dialect)

def onFormatter (f : Formatter → Formatter) : Change :=
  fun s => { s with formatter := f s.formatter }

def onTrace (f : Trace.Settings → Trace.Settings) : Change :=
  fun s => { s with trace := f s.trace }

def scalar : Document → Except Problem Text
  | .scalar t => .ok t
  | _ => .error .notScalar

def converted {α : Type} (read? : Text → Option α) (d : Document) : Except Problem α := do
  match read? (← scalar d) with
  | some a => .ok a
  | none => .error .notConvertible

def timePattern (d : Document) : Except Problem Change :=
  return onFormatter ({ · with timePattern := ← scalar d })

def fractionDigits (d : Document) : Except Problem Change := do
  let n ← converted dialect.signed? d
  if 0 ≤ n && n ≤ 9 then return onFormatter ({ · with fractionDigits := n.toNat })
  else .error (.digitsOutOfRange n)

def trimFraction (d : Document) : Except Problem Change :=
  return onFormatter ({ · with trimFraction := ← converted dialect.switch? d })

def clock? (raw : Text) : Option Clock :=
  if lowercase raw = ascii "utc" then some .universal
  else if lowercase raw = ascii "local" then some .home
  else none

def clock (d : Document) : Except Problem Change := do
  let raw ← scalar d
  match clock? raw with
  | some c => return onFormatter ({ · with clock := c })
  | none => .error (.unknownClock raw)

def zeroTime (d : Document) : Except Problem Change :=
  return onFormatter ({ · with zeroTime := ← scalar d })

def nullLiteral (d : Document) : Except Problem Change := do
  match ← scalar d with
  | [] => .error .emptyNullLiteral
  | t => return onFormatter ({ · with nullLiteral := t })

def convertible? (raw : Text) : Option Convertible :=
  if lowercase raw = ascii "time" then some .time
  else if lowercase raw = ascii "bool" then some .bool
  else if lowercase raw = ascii "bytes" then some .bytes
  else none

def convertible (d : Document) : Except Problem Convertible := do
  let raw ← match d with
    | .null => .ok []
    | d => scalar d
  match convertible? raw with
  | some c => .ok c
  | none => .error (.unknownConvertible raw)

/-- The first occurrences, in order. -/
def distinct : List Convertible → List Convertible
  | [] => []
  | c :: rest => c :: (distinct rest).filter (· != c)

def conversions : Document → Except Problem Change
  | .sequence items =>
      return onFormatter ({ · with conversions := distinct (← items.mapM convertible) })
  | _ => .error .notSequence

def escaperText (d : Document) : Except Problem Change :=
  return ({ · with escaper := ← scalar d })

def numberedPattern (d : Document) : Except Problem Change := do
  match ← scalar d with
  | [] => return id
  | raw =>
      match Regex.Pattern.ofText? raw with
      | some p => return ({ · with pattern := some (raw, p) })
      | none => .error (.unusablePattern raw (dialect.patternComplaint raw))

def levels : List (String × Trace.Level) :=
  [("debug", .debug), ("info", .info), ("warn", .warn), ("warning", .warn), ("error", .error),
   ("silent", .silent), ("off", .silent)]

def level? (raw : Text) : Option Trace.Level :=
  (levels.find? fun entry => ascii entry.1 == lowercase raw).map (·.2)

def level (d : Document) : Except Problem Change := do
  let raw ← scalar d
  match level? raw with
  | some l => return onTrace ({ · with level := l })
  | none => .error (.unknownLevel raw)

def logPath (d : Document) : Except Problem Change :=
  return onTrace ({ · with logPath := ← scalar d })

def slowThreshold (d : Document) : Except Problem Change :=
  return onTrace ({ · with slowThreshold := ← converted dialect.unsigned? d })

def ignoreNotFound (d : Document) : Except Problem Change :=
  return onTrace ({ · with ignoreNotFound := ← converted dialect.switch? d })

def parameterized (d : Document) : Except Problem Change :=
  return onTrace ({ · with parameterized := ← converted dialect.switch? d })

end Key

open Key

structure Group where
  name : String
  keys : List Key

def groups (dialect : Dialect) : List Group :=
  [⟨"formatter",
     [⟨"time_format", timePattern⟩, ⟨"fraction_digits", fractionDigits dialect⟩,
      ⟨"trim_fraction_zeros", trimFraction dialect⟩, ⟨"time_zone", clock⟩,
      ⟨"zero_time", zeroTime⟩, ⟨"null_literal", nullLiteral⟩,
      ⟨"convertible_types", conversions⟩]⟩,
   ⟨"explain", [⟨"escaper", escaperText⟩, ⟨"numbered_placeholder", numberedPattern dialect⟩]⟩,
   ⟨"logger",
     [⟨"level", level⟩, ⟨"log_path", logPath⟩, ⟨"slow_threshold_ms", slowThreshold dialect⟩,
      ⟨"ignore_record_not_found", ignoreNotFound dialect⟩,
      ⟨"parameterized_queries", parameterized dialect⟩]⟩]

end BoundSql.Settings

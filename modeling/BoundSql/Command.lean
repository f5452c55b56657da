import BoundSql.Argument
import BoundSql.Settings.Reader

/-!
The command: the first word is a template, the others are values. It shows the template with the
values written in, and leaves one trace of having done so. Without words, with settings that are
refused or with a log file that cannot be opened it shows nothing and leaves no trace; without
settings it runs on the defaults.
-/

namespace BoundSql.Command

open Text

def usage : Text :=
  ascii "usage: sqlexplain <sql-template> [values...]\n" ++
  ascii "  values: null | true | false | <int> | <decimal> | 0x<hex> | <text>\n" ++
  ascii "  env   : SQLEXPLAIN_CONFIG (default: config/sqlexplain.yaml)\n"

/-- What a run finds: the dialect of settings, the settings file, which files can be opened, the
zone of the clock, and the place in the program that statements are traced from. -/
structure Surroundings where
  dialect : Dialect
  settingsPath : Text
  settingsFile : Option Text
  opens : Text → Bool
  home : Zone
  caller : Text

/-- What a run leaves. -/
structure Result where
  exitCode : Nat
  stdout : Text := []
  stderr : Text := []
  records : List Trace.Record := []
  deriving DecidableEq

def misused : Result := { exitCode := 2, stderr := usage }

def refused : Result := { exitCode := 1 }

/-- The settings to run with, unless those that are there are refused. -/
def settings? (w : Surroundings) : Option Settings :=
  match Settings.ofFile w.dialect w.settingsPath w.settingsFile with
  | .ok s => some s
  | .error (.fileMissing _) => some {}
  | .error _ => none

structure Session where
  logger : Trace.Logger
  caller : Text
  template : Text
  values : List Value

namespace Session

def start (w : Surroundings) (s : Settings) (template : Text) (values : List Text) : Session :=
  { logger := s.logger w.home
    caller := w.caller
    template := template
    values := values.map Argument.value }

def explained (s : Session) : Text := s.logger.explain s.template s.values

def trace (s : Session) (elapsed : Int) (now : Instant) : Trace.Traced :=
  s.logger.settings.trace { caller := s.caller, elapsed := elapsed, timestamp := now }
    fun _ => (s.explained, -1)

def result (s : Session) (elapsed : Int) (now : Instant) : Result :=
  { exitCode := 0
    stdout := s.explained ++ [newline]
    records := (s.trace elapsed now).records }

end Session

/-- A session, or what the run leaves without one. -/
def session (w : Surroundings) (words : List Text) : Except Result Session :=
  match words with
  | [] => .error misused
  | template :: values =>
      match settings? w with
      | none => .error refused
      | some s =>
          if Trace.Logger.usable s.trace w.opens then .ok (.start w s template values)
          else .error refused

def run (w : Surroundings) (words : List Text) (elapsed : Int) (now : Instant) : Result :=
  match session w words with
  | .ok s => s.result elapsed now
  | .error r => r

end BoundSql.Command

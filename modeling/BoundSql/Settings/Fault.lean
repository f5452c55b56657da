import BoundSql.Settings.Dialect
import BoundSql.Text.Numeral

/-!
Why settings are refused. Settings are taken as a whole or not at all, and the fault that is named
is the first one in the fixed order of the keys.
-/

namespace BoundSql.Settings

open Text

/-- What is wrong with the value of a key. -/
inductive Problem where
  | notMap
  | notScalar
  | notSequence
  | notConvertible
  | digitsOutOfRange (n : Int)
  | unknownClock (raw : Text)
  | emptyNullLiteral
  | unknownConvertible (raw : Text)
  | unusablePattern (raw reason : Text)
  | unknownLevel (raw : Text)
  deriving DecidableEq

def Problem.message : Problem → Text
  | notMap => ascii "expected a map"
  | notScalar => ascii "expected a scalar value"
  | notSequence => ascii "expected a sequence"
  | notConvertible => ascii "bad conversion"
  | digitsOutOfRange n =>
      ascii "fraction_digits " ++ Numeral.ofInt n ++ ascii " out of range 0..9"
  | unknownClock raw =>
      ascii "unknown time_zone '" ++ raw ++ ascii "' (expected utc or local)"
  | emptyNullLiteral => ascii "null literal must not be empty"
  | unknownConvertible raw =>
      ascii "unknown convertible type '" ++ raw ++ ascii "' (expected time, bool or bytes)"
  | unusablePattern raw reason => ascii "invalid regex '" ++ raw ++ ascii "': " ++ reason
  | unknownLevel raw =>
      ascii "unknown log level '" ++ raw ++
        ascii "' (expected debug, info, warn, error or silent)"

/-- Where a text is from: the file that was read, or no file at all. -/
inductive Origin where
  | file (path : Text)
  | inline
  deriving DecidableEq

namespace Origin

def context : Origin → Text
  | file path => path
  | inline => ascii "<inline>"

/-- Only a file is named where a text is refused. -/
def mention : Origin → Text
  | file path => ascii " in '" ++ path ++ ascii "'"
  | inline => []

end Origin

inductive Fault where
  | fileMissing (path : Text)
  | malformed (origin : Origin) (complaint : Complaint)
  | rootNotMap (origin : Origin)
  | invalid (key : Text) (problem : Problem)
  deriving DecidableEq

namespace Fault

/-- Where the fault is: a file or a key. -/
def context : Fault → Text
  | fileMissing path => path
  | malformed origin _ => origin.context
  | rootNotMap origin => origin.context
  | invalid key _ => key

def message : Fault → Text
  | fileMissing path => ascii "config file '" ++ path ++ ascii "' does not exist"
  | malformed origin (.located line column reason) =>
      ascii "YAML parse error" ++ origin.mention ++ ascii " at line " ++
        Numeral.ofNat (line + 1) ++ ascii ", col " ++ Numeral.ofNat (column + 1) ++ ascii ": " ++
        reason
  | malformed origin (.general reason) =>
      ascii "YAML error" ++ origin.mention ++ ascii ": " ++ reason
  | rootNotMap _ => ascii "top-level node is not a YAML map"
  | invalid _ problem => problem.message

end Fault

end BoundSql.Settings

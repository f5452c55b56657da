import BoundSql.Settings.Document

/-!
How settings are written. A dialect tells which document a text is, what a scalar means as a switch
or as an integer, and what is said of texts that it refuses. Settings are read in any dialect.
-/

namespace BoundSql

/-- What is said of a text that is no document, with the line and the column where it goes wrong,
counted from zero, if these are known. -/
inductive Complaint where
  | located (line column : Nat) (reason : Text)
  | general (reason : Text)
  deriving DecidableEq

structure Dialect where
  document : Text → Except Complaint Document
  switch? : Text → Option Bool
  int32? : Text → Option Int32
  uint32? : Text → Option UInt32
  /-- What is said of a text that is no pattern. -/
  patternComplaint : Text → Text
  /-- A text with nothing in it is null. -/
  empty : document [] = .ok .null

namespace Dialect

variable (dialect : Dialect)

def signed? (t : Text) : Option Int := (dialect.int32? t).map Int32.toInt

def unsigned? (t : Text) : Option Int := (dialect.uint32? t).map fun n => n.toNat

end Dialect

end BoundSql

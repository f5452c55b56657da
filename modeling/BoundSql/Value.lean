import BoundSql.Time.Moment

/-!
Bound values. Besides plain values there are references, and objects known by what they offer: a
driver value beneath them, a text of their own, or conversions. An object that offers several is
taken by the first of these. Values that lead back to themselves, directly or by way of others, are
chains without end, and so are those that lead on to ever new ones.
-/

namespace BoundSql

-- Powers are the built-in ones, whatever else is imported.
attribute [local instance (high)] instPowNat

/-- The plain kinds that an object without other means may be converted to. -/
inductive Convertible where
  | time
  | bool
  | bytes
  deriving DecidableEq

/-- What the primitive beneath an object with a text of its own is, if there is one. -/
inductive Primitive where
  | absent
  | text
  | bool (b : Bool)
  | int (n : Int64)
  | uint (n : UInt64)
  | double (bits : UInt64)
  deriving DecidableEq

structure Stringer where
  text : Text
  primitive : Primitive
  deriving DecidableEq

/-- What asking a driver for the value beneath gives. -/
inductive Answer (α : Type) where
  | value (v : α)
  | failed (reason : Text)

structure Generic (α : Type) where
  text : Text
  convert : Convertible → Option α
  /-- Set if the object also answers as a driver does. -/
  driver : Option (Answer α)

/-- How a value of an endless chain leads to the next one: as a reference to it, as a driver that
answers with it, or as an object of another kind that answers like a driver. -/
inductive Layer where
  | reference
  | driver
  | object
  deriving DecidableEq

/-- Floating point values are bit patterns. An object may be missing where one is expected. -/
inductive Value where
  | null
  | bool (b : Bool)
  | time (t : Instant)
  | maybeTime (t : Option Instant)
  | driver (answer : Option (Answer Value))
  | stringer (object : Option Stringer)
  | bytes (b : Text)
  | int (n : Int64)
  | uint (n : UInt64)
  | single (bits : UInt32)
  | double (bits : UInt64)
  | text (t : Text)
  | reference (target : Option Value)
  | generic (object : Option (Generic Value))
  | endless (layers : Nat → Layer)

/-- One layer around a value. -/
def Layer.around (v : Value) : Layer → Value
  | reference => .reference (some v)
  | driver => .driver (some (.value v))
  | object => .generic (some ⟨[], fun _ => none, some (.value v)⟩)

namespace Value

/-- An endless chain as its first layer around the others. -/
def opened (layers : Nat → Layer) : Value := (layers 0).around (.endless fun n => layers (n + 1))

def isAbsent : Value → Bool
  | .null => true
  | .maybeTime t => t.isNone
  | .driver answer => answer.isNone
  | .stringer object => object.isNone
  | .reference target => target.isNone
  | .generic object => object.isNone
  | _ => false

/-- Integers of `width` bits wrap around before they are kept. -/
def ofSigned (width : Nat) (n : Int) : Value := .int (Int64.ofInt (n.bmod (2 ^ width)))

def ofUnsigned (width : Nat) (n : Int) : Value := .uint (UInt64.ofNat (n % 2 ^ width).toNat)

/-- A text that ends at its first zero byte, or none. -/
def ofTerminated : Option Text → Value
  | some t => .text (t.takeWhile (· != 0))
  | none => .null

end Value

/-- What an object offers. -/
structure Capabilities where
  driver : Option (Answer Value) := none
  stringer : Option Stringer := none
  generic : Option (Generic Value) := none

/-- A driver's answer comes before a text, and a text before conversions. -/
def Value.ofCapabilities (c : Capabilities) : Value :=
  match c.driver, c.stringer with
  | some answer, _ => .driver answer
  | none, some object => .stringer object
  | none, none => .generic c.generic

end BoundSql

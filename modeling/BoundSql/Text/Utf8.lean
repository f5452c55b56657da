import BoundSql.Text

/-!
UTF-8, read from the front of a text. `decode?` accepts one well-formed sequence and refuses
overlong forms, surrogates, values above 10FFFF, cut sequences and stray continuation bytes;
`encode` writes the one shortest form. `characters` cuts any text into characters, a byte that
begins no well-formed sequence standing alone.
-/

namespace BoundSql.Utf8

def isScalar (cp : Nat) : Bool := cp < 0xD800 || (0xE000 ≤ cp && cp ≤ 0x10FFFF)

def encode (cp : Nat) : Text :=
  let tail (n : Nat) : UInt8 := (0x80 + n % 64).toUInt8
  if cp < 0x80 then [cp.toUInt8]
  else if cp < 0x800 then [(0xC0 + cp / 64).toUInt8, tail cp]
  else if cp < 0x10000 then [(0xE0 + cp / 4096).toUInt8, tail (cp / 64), tail cp]
  else [(0xF0 + cp / 262144).toUInt8, tail (cp / 4096), tail (cp / 64), tail cp]

structure Lead where
  continuations : Nat
  bits : Nat
  least : Nat

/-- What a first byte announces. `least` is the first code point that needs this many bytes. -/
def lead? (a : UInt8) : Option Lead :=
  let n := a.toNat
  if n < 0x80 then some ⟨0, n, 0⟩
  else if n < 0xC0 then none
  else if n < 0xE0 then some ⟨1, n - 0xC0, 0x80⟩
  else if n < 0xF0 then some ⟨2, n - 0xE0, 0x800⟩
  else if n < 0xF8 then some ⟨3, n - 0xF0, 0x10000⟩
  else none

def isContinuation (c : UInt8) : Bool := 0x80 ≤ c && c < 0xC0

def continued? : Nat → Nat → Text → Option Nat
  | 0, bits, _ => some bits
  | _ + 1, _, [] => none
  | count + 1, bits, c :: t =>
      if isContinuation c then continued? count (64 * bits + (c.toNat - 0x80)) t else none

structure Decoded where
  code : Nat
  size : Nat
  deriving DecidableEq

def decode? : Text → Option Decoded
  | [] => none
  | a :: t => do
      let lead ← lead? a
      let code ← continued? lead.continuations lead.bits t
      if lead.least ≤ code && isScalar code then some ⟨code, lead.continuations + 1⟩ else none

/-- The bytes after the first that belong to the character at the front. -/
def following (t : Text) : Nat :=
  match decode? t with
  | some front => front.size - 1
  | none => 0

def characters : Text → List Text
  | [] => []
  | a :: t =>
      let more := following (a :: t)
      (a :: t.take more) :: characters (t.drop more)
termination_by t => t.length
decreasing_by simp only [List.length_drop, List.length_cons]; omega

theorem flatten_characters (t : Text) : (characters t).flatten = t := by
  induction t using characters.induct with
  | case1 => simp [characters]
  | case2 a t more ih =>
      rw [characters, List.flatten_cons, ih]
      simp [more]

end BoundSql.Utf8

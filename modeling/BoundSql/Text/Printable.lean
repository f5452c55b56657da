import BoundSql.Text.Utf8

/-!
Which byte sequences can be shown as text. A code point is hidden when it is a control or format
character, a blank other than the ASCII one, private, a noncharacter, or in the planes that hold
no characters. A byte outside every well-formed sequence counts as the replacement character,
which can be shown.
-/

namespace BoundSql.Printable

structure Span where
  first : Nat
  last : Nat

def Span.holds (s : Span) (cp : Nat) : Bool := s.first ≤ cp && cp ≤ s.last

def hidden : List Span :=
  [⟨0x00, 0x1F⟩, ⟨0x7F, 0xA0⟩, ⟨0xAD, 0xAD⟩,
   ⟨0x061C, 0x061C⟩, ⟨0x1680, 0x1680⟩, ⟨0x180E, 0x180E⟩, ⟨0x3000, 0x3000⟩, ⟨0xFEFF, 0xFEFF⟩,
   ⟨0x2000, 0x200F⟩, ⟨0x2028, 0x202F⟩, ⟨0x205F, 0x206F⟩,
   ⟨0xE000, 0xF8FF⟩, ⟨0xFFF9, 0xFFFB⟩, ⟨0xFDD0, 0xFDEF⟩,
   ⟨0x2FA20, 0x2FFFF⟩, ⟨0x323B0, 0xE007F⟩, ⟨0xF0000, 0x10FFFF⟩]

-- The last two code points of every plane are noncharacters.
def isNoncharacter (cp : Nat) : Bool := 0xFFFE ≤ cp % 0x10000

def codePoint (cp : Nat) : Bool := !(hidden.any fun s => s.holds cp) && !isNoncharacter cp

def character (t : Text) : Bool :=
  match Utf8.decode? t with
  | some front => codePoint front.code
  | none => true

def text (t : Text) : Bool := (Utf8.characters t).all character

end BoundSql.Printable

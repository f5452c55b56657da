import BoundSql.Proofs.Decoding
import BoundSql.Text.Printable
import BoundSql.Text.Quoted

/-!
What is read at an offset of a text. A number can be spread over bytes in several forms, of which
one is the shortest, and a code point is read exactly where the shortest form of a scalar value
stands. Anything else counts for a single byte. So a scan goes on by one byte at least and never
beyond the last one: it comes to an end just behind it.
-/

namespace BoundSql.Utf8

open Text

section Forms

/-- A number in a first byte and continuations, also in more bytes than it needs. -/
inductive Form : Nat → Text → Prop
  | one {n} (small : n < 0x80) : Form n [n.toUInt8]
  | two {n} (small : n < 0x800) : Form n [(0xC0 + n / 64).toUInt8, (0x80 + n % 64).toUInt8]
  | three {n} (small : n < 0x10000) :
      Form n [(0xE0 + n / 4096).toUInt8, (0x80 + n / 64 % 64).toUInt8, (0x80 + n % 64).toUInt8]
  | four {n} (small : n < 0x200000) :
      Form n [(0xF0 + n / 262144).toUInt8, (0x80 + n / 4096 % 64).toUInt8,
        (0x80 + n / 64 % 64).toUInt8, (0x80 + n % 64).toUInt8]

structure IsShortest (n : Nat) (s : Text) : Prop where
  form : Form n s
  least : ∀ other, Form n other → s.length ≤ other.length

variable {n cp : Nat} {s other : Text}

theorem Form.unique (form : Form n s) (form' : Form n other) (same : s.length = other.length) :
    s = other := by
  cases form with
  | one =>
      cases form' with
      | one => rfl
      | two | three | four => cases same
  | two =>
      cases form' with
      | two => rfl
      | one | three | four => cases same
  | three =>
      cases form' with
      | three => rfl
      | one | two | four => cases same
  | four =>
      cases form' with
      | four => rfl
      | one | two | three => cases same

theorem form_encode (small : n < 0x200000) : Form n (encode n) := by
  unfold encode
  split
  · next one => exact .one one
  split
  · next two => exact .two two
  split
  · next three => exact .three three
  · exact .four small

theorem length_encode (n : Nat) : (encode n).length =
    if n < 0x80 then 1 else if n < 0x800 then 2 else if n < 0x10000 then 3 else 4 := by
  unfold encode
  split
  · rfl
  split
  · rfl
  split <;> rfl

/-- No form has fewer bytes, as no number that fits into it needs more. -/
theorem length_encode_le (form : Form n s) : (encode n).length ≤ s.length := by
  rw [length_encode]
  cases form with
  | one | two | three | four => grind

theorem shortest_iff (small : n < 0x200000) : IsShortest n s ↔ s = encode n := by
  constructor
  · intro shortest
    have length := Nat.le_antisymm (shortest.least _ (form_encode small))
      (length_encode_le shortest.form)
    exact shortest.form.unique (form_encode small) length
  · rintro rfl
    exact ⟨form_encode small, fun _ => length_encode_le⟩

theorem scalar_iff : isScalar cp = true ↔ cp ≤ 0x10FFFF ∧ ¬ (0xD800 ≤ cp ∧ cp ≤ 0xDFFF) := by
  simp only [isScalar, Bool.or_eq_true, Bool.and_eq_true, decide_eq_true_eq]
  omega

theorem small_of_scalar (scalar : isScalar cp = true) : cp < 0x200000 :=
  Nat.lt_of_le_of_lt (le_of_scalar scalar) (by decide)

theorem isScalar_char (c : Char) : isScalar c.toNat = true := by
  have valid : c.toNat < 0xD800 ∨ 0xDFFF < c.toNat ∧ c.toNat < 0x110000 := c.valid
  rw [scalar_iff]
  omega

/-- The bytes of a character are those that the standard library gives it. -/
theorem encode_char (c : Char) : encode c.toNat = String.utf8EncodeChar c := by
  have bound := le_of_scalar (isScalar_char c)
  have number : c.val.toNat = c.toNat := rfl
  simp only [encode, String.utf8EncodeChar, Nat.toUInt8, number]
  grind

end Forms

section Offsets

variable {t : Text} {offset cp n : Nat}

/-- How many bytes a scan takes at an offset. -/
def taken (t : Text) (offset : Nat) : Nat := following (t.drop offset) + 1

theorem taken_of_some {front : Decoded} (read : decode? (t.drop offset) = some front) :
    taken t offset = front.size := by
  obtain ⟨scalar, size, rest, begins⟩ := decode_eq_some.mp read
  rw [taken, ← begins, following_encode scalar, size, Nat.sub_add_cancel (length_encode_pos _)]

theorem taken_of_none (refused : decode? (t.drop offset) = none) : taken t offset = 1 := by
  rw [taken, following_stray refused]

/-- A code point is read where its shortest form stands. -/
theorem decode_at (inside : offset < t.length) : decode? (t.drop offset) = some ⟨cp, n⟩ ↔
    isScalar cp = true ∧ offset + n ≤ t.length ∧ (t.drop offset).take n = encode cp := by
  rw [decode_eq_some]
  constructor
  · rintro ⟨scalar, size, begins⟩
    have fits := begins.length_le
    simp only [List.length_drop, ← size] at fits
    have same := List.prefix_iff_eq_take.mp begins
    simp only [← size] at same
    exact ⟨scalar, by omega, same.symm⟩
  · rintro ⟨scalar, fits, same⟩
    have length := congrArg List.length same
    rw [List.length_take, List.length_drop, Nat.min_eq_left (by omega)] at length
    have begins : encode cp <+: t.drop offset := same ▸ List.take_prefix _ _
    exact ⟨scalar, length, begins⟩

theorem taken_bounds (inside : offset < t.length) :
    1 ≤ taken t offset ∧ offset + taken t offset ≤ t.length := by
  refine ⟨Nat.le_add_left 1 _, ?_⟩
  cases read : decode? (t.drop offset) with
  | some front =>
      rw [taken_of_some read]
      exact ((decode_at inside).mp read).2.1
  | none =>
      rw [taken_of_none read]
      exact inside

/-- What is taken is read as it is where it stands. -/
theorem decode_taken : decode? ((t.drop offset).take (taken t offset)) = decode? (t.drop offset) := by
  cases read : decode? (t.drop offset) with
  | some front =>
      obtain ⟨scalar, size, begins⟩ := decode_eq_some.mp read
      have alone := decode_encode scalar []
      rw [List.append_nil, ← size] at alone
      rw [taken_of_some read, size, ← List.prefix_iff_eq_take.mp begins, alone]
  | none =>
      rw [decode_eq_none] at read ⊢
      exact fun cp scalar begins => read cp scalar (begins.trans (List.take_prefix _ _))

/-- A scan from an offset: while bytes are left, those of one character are taken. -/
inductive Scans (t : Text) : Nat → List Text → Prop
  | done : Scans t t.length []
  | next {offset pieces} (inside : offset < t.length)
      (later : Scans t (offset + taken t offset) pieces) :
      Scans t offset ((t.drop offset).take (taken t offset) :: pieces)

theorem characters_drop (inside : offset < t.length) : characters (t.drop offset) =
    (t.drop offset).take (taken t offset) :: characters (t.drop (offset + taken t offset)) := by
  have front := List.drop_eq_getElem_cons inside
  rw [taken, ← List.drop_drop]
  generalize more : following (t.drop offset) = count
  rw [front] at more ⊢
  rw [characters, more, List.take_succ_cons, List.drop_succ_cons]

theorem scans_characters (within : offset ≤ t.length) :
    Scans t offset (characters (t.drop offset)) := by
  -- The induction is on how many bytes are left.
  induction left : t.length - offset using Nat.strongRecOn generalizing offset with
  | ind left ih =>
      rcases Nat.eq_or_lt_of_le within with rfl | inside
      · rw [List.drop_length, characters]
        exact .done
      · have bounds := taken_bounds inside
        rw [characters_drop inside]
        exact .next inside (ih _ (by omega) bounds.2 rfl)

theorem Scans.unique {pieces : List Text} (scans : Scans t offset pieces) :
    pieces = characters (t.drop offset) := by
  induction scans with
  | done => rw [List.drop_length, characters]
  | next inside _ ih => rw [characters_drop inside, ih]

theorem scans_iff {pieces : List Text} : Scans t 0 pieces ↔ pieces = characters t := by
  constructor
  · intro scans
    rw [scans.unique, List.drop_zero]
  · rintro rfl
    exact scans_characters (Nat.zero_le _)

end Offsets

/-- At every offset a code point is read just where the shortest form of a scalar value stands, with
its length, and anything else counts for one byte. The form of a character is read back whatever
follows it. A scan goes on within the text to its very end, and so do those that put backslashes
between characters and look for hidden ones. -/
theorem decode_at_any_offset :
    (∀ t offset, offset < t.length →
      (∀ cp n, decode? (t.drop offset) = some ⟨cp, n⟩ ↔
        (cp ≤ 0x10FFFF ∧ ¬ (0xD800 ≤ cp ∧ cp ≤ 0xDFFF)) ∧ offset + n ≤ t.length ∧
          IsShortest cp ((t.drop offset).take n)) ∧
      (∀ cp n, decode? (t.drop offset) = some ⟨cp, n⟩ → taken t offset = n) ∧
      (decode? (t.drop offset) = none → taken t offset = 1) ∧
      (1 ≤ taken t offset ∧ offset + taken t offset ≤ t.length) ∧
      decode? ((t.drop offset).take (taken t offset)) = decode? (t.drop offset)) ∧
    (∀ c : Char, (∀ s, IsShortest c.toNat s ↔ s = String.utf8EncodeChar c) ∧
      ∀ rest, decode? (String.utf8EncodeChar c ++ rest) =
        some ⟨c.toNat, (String.utf8EncodeChar c).length⟩) ∧
    ∀ t, ∃ pieces, (∀ other, Scans t 0 other ↔ other = pieces) ∧
      Quoted.escape [] t = pieces.flatMap (backslash :: ·) ++ [backslash] ∧
      Printable.text t = pieces.all Printable.character := by
  refine ⟨fun t offset inside => ⟨fun cp n => ?_, ?_, taken_of_none, taken_bounds inside,
    decode_taken⟩, fun c => ⟨fun s => ?_, fun rest => ?_⟩, fun t => ?_⟩
  · rw [decode_at inside, ← scalar_iff]
    exact and_congr_right fun scalar =>
      and_congr_right fun _ => (shortest_iff (small_of_scalar scalar)).symm
  · intro cp n read
    exact taken_of_some read
  · rw [← encode_char]
    exact shortest_iff (small_of_scalar (isScalar_char c))
  · rw [← encode_char]
    exact decode_encode (isScalar_char c) rest
  · exact ⟨characters t, fun _ => scans_iff, rfl, rfl⟩

/-- A letter, a surrogate, the last code point, a longer form than the shortest and a cut one. -/
def mixed : Text :=
  [0x41, 0xED, 0xA0, 0x80, 0xF4, 0x8F, 0xBF, 0xBF, 0xC0, 0x80, 0xE2, 0x82]

theorem decode_at_any_offset_mixed :
    (4 < mixed.length ∧ IsShortest 0x10FFFF ((mixed.drop 4).take 4) ∧ taken mixed 4 = 4) ∧
    ∀ offset ∈ [1, 8, 10], offset < mixed.length ∧ taken mixed offset = 1 ∧
      ∀ cp n, cp ≤ 0x10FFFF ∧ ¬ (0xD800 ≤ cp ∧ cp ≤ 0xDFFF) → offset + n ≤ mixed.length →
        ¬ IsShortest cp ((mixed.drop offset).take n) := by
  obtain ⟨decoded, -, -⟩ := decode_at_any_offset
  constructor
  · have read : decode? (mixed.drop 4) = some ⟨0x10FFFF, 4⟩ := by decide
    obtain ⟨exact, size, -⟩ := decoded mixed 4 (by decide)
    exact ⟨by decide, ((exact _ _).mp read).2.2, size _ _ read⟩
  · have refused : ∀ offset ∈ [1, 8, 10], offset < mixed.length ∧
        decode? (mixed.drop offset) = none := by decide
    intro offset member
    obtain ⟨inside, none⟩ := refused offset member
    obtain ⟨exact, -, single, -⟩ := decoded mixed offset inside
    refine ⟨inside, single none, fun cp n scalar fits shortest => ?_⟩
    cases none.symm.trans ((exact cp n).mpr ⟨scalar, fits, shortest⟩)

end BoundSql.Utf8

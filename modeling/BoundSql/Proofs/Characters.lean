import BoundSql.Proofs.Numerals
import BoundSql.Text.Utf8

/-!
Texts of whole characters. What is written for a code point is read back whatever follows it, so a
text is cut into characters in one way only, and a byte that continues a character is never the
first of one.
-/

namespace BoundSql.Utf8

open Text

section Encoding

variable {cp n : Nat}

theorem toNat_byte (small : n < 256) : n.toUInt8.toNat = n := UInt8.toNat_ofNat_of_lt' small

theorem isContinuation_iff {c : UInt8} :
    isContinuation c = true ↔ 0x80 ≤ c.toNat ∧ c.toNat < 0xC0 := by
  simp [isContinuation, UInt8.le_iff_toNat_le, UInt8.lt_iff_toNat_lt]

theorem continuation_tail (n : Nat) : isContinuation (0x80 + n % 64).toUInt8 = true := by
  rw [isContinuation_iff, toNat_byte (by omega)]
  omega

/-- A continuation adds the lowest six bits of a number to the others. -/
theorem continued_tail (count n : Nat) (t : Text) :
    continued? (count + 1) (n / 64) ((0x80 + n % 64).toUInt8 :: t) = continued? count n t := by
  rw [continued?, if_pos (continuation_tail n), toNat_byte (by omega), Nat.add_sub_cancel_left,
    Nat.div_add_mod]

theorem lead_one (small : n < 0x80) : lead? n.toUInt8 = some ⟨0, n, 0⟩ := by
  simp only [lead?, toNat_byte (n := n) (by omega), small, if_true]

theorem lead_two (small : n < 32) : lead? (0xC0 + n).toUInt8 = some ⟨1, n, 0x80⟩ := by
  simp only [lead?, toNat_byte (n := 0xC0 + n) (by omega)]
  grind

theorem lead_three (small : n < 16) : lead? (0xE0 + n).toUInt8 = some ⟨2, n, 0x800⟩ := by
  simp only [lead?, toNat_byte (n := 0xE0 + n) (by omega)]
  grind

theorem lead_four (small : n < 8) : lead? (0xF0 + n).toUInt8 = some ⟨3, n, 0x10000⟩ := by
  simp only [lead?, toNat_byte (n := 0xF0 + n) (by omega)]
  grind

theorem decode_read {a : UInt8} {lead : Lead} {t : Text} (first : lead? a = some lead)
    (read : continued? lead.continuations lead.bits t = some cp) (least : lead.least ≤ cp)
    (scalar : isScalar cp = true) : decode? (a :: t) = some ⟨cp, lead.continuations + 1⟩ := by
  simp [decode?, first, read, least, scalar]

theorem le_of_scalar (scalar : isScalar cp = true) : cp ≤ 0x10FFFF := by
  simp only [isScalar, Bool.or_eq_true, Bool.and_eq_true, decide_eq_true_eq] at scalar
  omega

/-- What is written is read back, whatever follows it. -/
theorem decode_encode (scalar : isScalar cp = true) (t : Text) :
    decode? (encode cp ++ t) = some ⟨cp, (encode cp).length⟩ := by
  have bound := le_of_scalar scalar
  have twice : cp / 4096 = cp / 64 / 64 := (Nat.div_div_eq_div_mul cp 64 64).symm
  have thrice : cp / 262144 = cp / 64 / 64 / 64 := by
    rw [← twice, Nat.div_div_eq_div_mul]
  simp only [encode, twice, thrice]
  split
  · next one => exact decode_read (lead_one one) rfl (Nat.zero_le cp) scalar
  split
  · next more two =>
      refine decode_read (lead_two (by omega)) ?_ (Nat.le_of_not_lt more) scalar
      exact continued_tail 0 cp t
  split
  · next more three =>
      refine decode_read (lead_three (by omega)) ?_ (Nat.le_of_not_lt more) scalar
      exact (continued_tail 1 (cp / 64) _).trans (continued_tail 0 cp t)
  · next more =>
      refine decode_read (lead_four (by omega)) ?_ (Nat.le_of_not_lt more) scalar
      exact (continued_tail 2 (cp / 64 / 64) _).trans
        ((continued_tail 1 (cp / 64) _).trans (continued_tail 0 cp t))

/-- A character is a byte that continues none and then continuations, of which ASCII has none. -/
theorem encode_shape (scalar : isScalar cp = true) :
    ∃ lead others, encode cp = lead :: others ∧ isContinuation lead = false ∧
      (∀ c ∈ others, isContinuation c = true) ∧ (lead < 0x80 → others = []) := by
  have bound := le_of_scalar scalar
  have apart {c : UInt8} (outside : c.toNat < 0x80 ∨ 0xC0 ≤ c.toNat) :
      isContinuation c = false := by
    rw [Bool.eq_false_iff, Ne, isContinuation_iff]
    omega
  have leads (n : Nat) (least : 0xC0 ≤ n) (most : n < 256) : 0xC0 ≤ n.toUInt8.toNat := by
    rwa [toNat_byte most]
  have large {c : UInt8} {others : Text} (least : 0xC0 ≤ c.toNat) (ascii : c < 0x80) :
      others = [] :=
    absurd (Nat.lt_of_le_of_lt least (UInt8.lt_iff_toNat_lt.mp ascii)) (by decide)
  have none := List.forall_mem_nil fun c => isContinuation c = true
  have tail (n : Nat) {others : Text} (all : ∀ c ∈ others, isContinuation c = true) :
      ∀ c ∈ (0x80 + n % 64).toUInt8 :: others, isContinuation c = true :=
    List.forall_mem_cons.mpr ⟨continuation_tail n, all⟩
  unfold encode
  split
  · next one =>
      refine ⟨_, [], rfl, apart (.inl ?_), none, fun _ => rfl⟩
      rwa [toNat_byte (by omega)]
  split
  · have lead := leads (0xC0 + cp / 64) (by omega) (by omega)
    exact ⟨_, _, rfl, apart (.inr lead), tail cp none, large lead⟩
  split
  · have lead := leads (0xE0 + cp / 4096) (by omega) (by omega)
    exact ⟨_, _, rfl, apart (.inr lead), tail (cp / 64) (tail cp none), large lead⟩
  · have lead := leads (0xF0 + cp / 262144) (by omega) (by omega)
    exact ⟨_, _, rfl, apart (.inr lead), tail (cp / 4096) (tail (cp / 64) (tail cp none)),
      large lead⟩

theorem encode_nonempty (n : Nat) : encode n ≠ [] := by
  unfold encode
  split
  · exact List.cons_ne_nil _ _
  split
  · exact List.cons_ne_nil _ _
  split <;> exact List.cons_ne_nil _ _

theorem length_encode_pos (n : Nat) : 0 < (encode n).length :=
  List.length_pos_iff.mpr (encode_nonempty n)

theorem following_encode (scalar : isScalar cp = true) (t : Text) :
    following (encode cp ++ t) = (encode cp).length - 1 := by
  rw [following, decode_encode scalar]

theorem following_stray {t : Text} (refused : decode? t = none) : following t = 0 := by
  rw [following, refused]

/-- Beyond ASCII no byte of a character is one of ASCII. -/
theorem encode_bytes (scalar : isScalar cp = true) :
    (∃ c, c < 0x80 ∧ encode cp = [c]) ∨ ∀ c ∈ encode cp, 0x80 ≤ c := by
  obtain ⟨lead, others, led, -, all, ascii⟩ := encode_shape scalar
  rw [led]
  by_cases small : lead < 0x80
  · exact .inl ⟨lead, small, by rw [ascii small]⟩
  · refine .inr (List.forall_mem_cons.mpr ⟨UInt8.not_lt.mp small, fun c member => ?_⟩)
    exact UInt8.le_iff_toNat_le.mpr (isContinuation_iff.mp (all c member)).1

end Encoding

/-- A text of whole characters. -/
inductive WellFormed : Text → Prop
  | nil : WellFormed []
  | cons {cp t} (scalar : isScalar cp = true) (others : WellFormed t) : WellFormed (encode cp ++ t)

section Texts

variable {t rest : Text}

theorem WellFormed.append (text : WellFormed t) (later : WellFormed rest) :
    WellFormed (t ++ rest) := by
  induction text with
  | nil => exact later
  | cons scalar _ ih =>
      rw [List.append_assoc]
      exact .cons scalar ih

theorem wellFormed_encode {cp : Nat} (scalar : isScalar cp = true) : WellFormed (encode cp) := by
  have single := WellFormed.cons scalar .nil
  rwa [List.append_nil] at single

theorem wellFormed_visible (visible : IsVisible t) : WellFormed t := by
  induction t with
  | nil => exact .nil
  | cons c t ih =>
      obtain ⟨⟨-, small⟩, later⟩ := visible_cons.mp visible
      rw [UInt8.lt_iff_toNat_lt] at small
      have scalar : isScalar c.toNat = true := by
        simp only [isScalar, Bool.or_eq_true, decide_eq_true_eq]
        exact .inl (Nat.lt_trans small (by decide))
      have single : encode c.toNat = [c] := by
        simp [encode, show c.toNat < 128 from small]
      have whole := WellFormed.cons scalar (ih later)
      rwa [single] at whole

/-- Behind whole characters a text of whole characters goes on with whole characters. -/
theorem WellFormed.of_append (front : WellFormed t) (whole : WellFormed (t ++ rest)) :
    WellFormed rest := by
  induction front with
  | nil => exact whole
  | @cons cp t scalar _ ih =>
      rw [List.append_assoc] at whole
      have read := decode_encode scalar (t ++ rest)
      generalize text : encode cp ++ (t ++ rest) = u at whole read
      cases whole with
      | nil => cases read
      | @cons other u scalar' later =>
          rw [decode_encode scalar', Option.some.injEq, Decoded.mk.injEq] at read
          obtain rfl : other = cp := read.1
          apply ih
          rwa [List.append_cancel_left text]

theorem lead_of_wellFormed {first : UInt8} {others : Text} (text : WellFormed (first :: others)) :
    isContinuation first = false := by
  generalize whole : first :: others = t at text
  cases text with
  | nil => cases whole
  | cons scalar _ =>
      obtain ⟨lead, tail, led, front, -⟩ := encode_shape scalar
      rw [led] at whole
      rwa [(List.cons.inj whole).1]

theorem characters_encode {cp : Nat} (scalar : isScalar cp = true) (t : Text) :
    characters (encode cp ++ t) = encode cp :: characters t := by
  have more := following_encode scalar t
  obtain ⟨lead, others, led⟩ := List.exists_cons_of_ne_nil (encode_nonempty cp)
  rw [led, List.cons_append, List.length_cons, Nat.add_sub_cancel] at more
  rw [led, List.cons_append, characters]
  simp [more]

end Texts

end BoundSql.Utf8

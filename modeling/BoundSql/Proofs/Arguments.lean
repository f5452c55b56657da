import BoundSql.Argument
import BoundSql.Proofs.Doubles

/-!
What a word on its own stands for. There is one grammar for each kind of value, and a word is of
the first kind whose grammar it meets; what meets none is a text.
-/

namespace BoundSql.Argument

open Text
open Template (IsNumber)

-- Powers are the built-in ones, whatever else is imported.
attribute [local instance (high)] instPowNat

def keywords : List (Text × Value) :=
  [(ascii "null", .null), (ascii "NULL", .null), (ascii "true", .bool true),
   (ascii "false", .bool false)]

inductive IsInteger : Text → Int → Prop
  | plain {digits} (number : IsNumber digits) : IsInteger digits (Numeral.value digits)
  | negative {digits} (number : IsNumber digits) :
      IsInteger (minus :: digits) (-Numeral.value digits)

def IsInt64 (word : Text) (n : Int64) : Prop :=
  ∃ k, IsInteger word k ∧ -2 ^ 63 ≤ k ∧ k ≤ 2 ^ 63 - 1 ∧ n = Int64.ofInt k

def IsDouble (word : Text) (bits : UInt64) : Prop :=
  ∃ d, Decimal.Written word d ∧ d.IsNearestDouble bits

/-- Two small hexadecimal digits for every byte. -/
def hex (b : Text) : Text := b.flatMap fun c => [hexDigit (c.toNat / 16), hexDigit (c.toNat % 16)]

/-- The digits of some bytes in any letter case, with a mark in front. -/
def IsBytes (word b : Text) : Prop := b ≠ [] ∧ lowercase word = ascii "0x" ++ hex b

/-- The first kind of value that a word can be read as. -/
inductive Reads (word : Text) : Value → Prop
  | keyword {v} (keyword : (word, v) ∈ keywords) : Reads word v
  | int {n} (noKeyword : ∀ v, (word, v) ∉ keywords) (int : IsInt64 word n) : Reads word (.int n)
  | double {bits} (noKeyword : ∀ v, (word, v) ∉ keywords) (noInt : ∀ n, ¬IsInt64 word n)
      (double : IsDouble word bits) : Reads word (.double bits)
  | bytes {b} (noKeyword : ∀ v, (word, v) ∉ keywords) (noInt : ∀ n, ¬IsInt64 word n)
      (noDouble : ∀ bits, ¬IsDouble word bits) (bytes : IsBytes word b) : Reads word (.bytes b)
  | text (noKeyword : ∀ v, (word, v) ∉ keywords) (noInt : ∀ n, ¬IsInt64 word n)
      (noDouble : ∀ bits, ¬IsDouble word bits) (noBytes : ∀ b, ¬IsBytes word b) :
      Reads word (.text word)

section Readers

variable {word : Text}

theorem keyword_eq_some {v : Value} : keyword? word = some v ↔ (word, v) ∈ keywords := by
  simp only [keywords, List.mem_cons, Prod.mk.injEq, List.not_mem_nil, or_false]
  constructor
  · intro read
    unfold keyword? at read
    split at read
    · next null =>
        cases read
        simp only [Bool.or_eq_true, decide_eq_true_eq] at null
        exact null.elim (fun same => .inl ⟨same, rfl⟩) fun same => .inr (.inl ⟨same, rfl⟩)
    split at read
    · next same =>
        cases read
        exact .inr (.inr (.inl ⟨same, rfl⟩))
    split at read
    · next same =>
        cases read
        exact .inr (.inr (.inr ⟨same, rfl⟩))
    · cases read
  · rintro (⟨rfl, rfl⟩ | ⟨rfl, rfl⟩ | ⟨rfl, rfl⟩ | ⟨rfl, rfl⟩) <;> rfl

theorem integer_eq_some {k : Int} : integer? word = some k ↔ IsInteger word k := by
  have digits_of {t : Text} {k : Int} {f : Nat → Int} :
      ((Decimal.digits? t).map fun d => f (Numeral.value d)) = some k ↔
        IsNumber t ∧ f (Numeral.value t) = k := by
    simp only [Option.map_eq_some_iff, Decimal.digits_eq_some, and_assoc, exists_and_left,
      exists_eq_left]
  constructor
  · intro read
    cases word with
    | nil => cases read
    | cons c rest =>
        unfold integer? at read
        simp only at read
        split at read
        · next same =>
            obtain ⟨number, rfl⟩ := (digits_of (f := fun n => -(n : Int))).mp read
            rw [same]
            exact .negative number
        · obtain ⟨number, rfl⟩ := (digits_of (f := fun n => (n : Int))).mp read
          exact .plain number
  · intro integer
    cases integer with
    | plain number =>
        obtain ⟨c, rest, rfl⟩ := List.exists_cons_of_ne_nil number.nonempty
        have other : c ≠ minus := (Decimal.number_bare number [] c rfl).1
        rw [integer?, if_neg other]
        exact digits_of.mpr ⟨number, rfl⟩
    | negative number =>
        rw [integer?, if_pos rfl]
        exact (digits_of (f := fun n => -(n : Int))).mpr ⟨number, rfl⟩

theorem int64_eq_some {n : Int64} : int64? word = some n ↔ IsInt64 word n := by
  have least : Int64.minValue.toInt = -2 ^ 63 := by decide
  have most : Int64.maxValue.toInt = 2 ^ 63 - 1 := by decide
  simp only [int64?, Option.bind_eq_some_iff, integer_eq_some, IsInt64, least, most]
  apply exists_congr
  intro k
  simp only [Bool.and_eq_true, decide_eq_true_eq]
  constructor
  · rintro ⟨integer, read⟩
    split at read
    · next inside => exact ⟨integer, inside.1, inside.2, (Option.some.inj read).symm⟩
    · cases read
  · rintro ⟨integer, low, high, rfl⟩
    exact ⟨integer, if_pos ⟨low, high⟩⟩

theorem double_eq_some {bits : UInt64} : double? word = some bits ↔ IsDouble word bits := by
  rw [double?, Option.bind_eq_some_iff]
  constructor
  · rintro ⟨d, read, found⟩
    have written := Decimal.read_eq_some.mp read
    exact ⟨d, written, (Decimal.nearestDouble_eq_some written.digits.digits).mp found⟩
  · rintro ⟨d, written, nearest⟩
    exact ⟨d, Decimal.read_eq_some.mpr written,
      (Decimal.nearestDouble_eq_some written.digits.digits).mpr nearest⟩

theorem hex_cons (c : UInt8) (b : Text) :
    hex (c :: b) = hexDigit (c.toNat / 16) :: hexDigit (c.toNat % 16) :: hex b := rfl

theorem hexPairs_eq_some {t b : Text} : hexPairs? t = some b ↔ lowercase t = hex b := by
  fun_induction hexPairs? t generalizing b with
  | case1 => cases b <;> simp [lowercase, hex]
  | case2 c => cases b <;> simp [lowercase, hex]
  | case3 c d t ih =>
      constructor
      · intro read
        obtain ⟨high, first, read⟩ := Option.bind_eq_some_iff.mp read
        obtain ⟨low, second, read⟩ := Option.bind_eq_some_iff.mp read
        obtain ⟨rest, others, same⟩ := Option.bind_eq_some_iff.mp read
        obtain ⟨less, front⟩ := hexValue_eq_some.mp first
        obtain ⟨less', next⟩ := hexValue_eq_some.mp second
        cases same
        have fits : 16 * high + low < 256 := by omega
        have byte : (16 * high + low).toUInt8.toNat = 16 * high + low :=
          UInt8.toNat_ofNat_of_lt' fits
        have above : (16 * high + low) / 16 = high := by omega
        have below : (16 * high + low) % 16 = low := by omega
        rw [hex_cons, byte, above, below, ← front, ← next, ← ih.mp others]
        rfl
      · intro same
        cases b with
        | nil => cases same
        | cons byte b =>
            rw [hex_cons] at same
            obtain ⟨front, same⟩ := List.cons.inj same
            obtain ⟨next, same⟩ := List.cons.inj same
            have less : byte.toNat / 16 < 16 := by have := byte.toNat_lt; omega
            have less' : byte.toNat % 16 < 16 := by omega
            have whole : (16 * (byte.toNat / 16) + byte.toNat % 16).toUInt8 = byte := by
              rw [Nat.div_add_mod]
              exact UInt8.ofNat_toNat
            rw [hexValue_eq_some.mpr ⟨less, front⟩, hexValue_eq_some.mpr ⟨less', next⟩,
              ih.mpr same]
            simp only [Option.bind_eq_bind, Option.bind_some, whole]
            rfl

theorem lower_eq_zero {c : UInt8} : lower c = zero ↔ c = zero := lower_eq_small (by decide)

theorem lower_eq_x {c : UInt8} : lower c = 120 ↔ c = 120 ∨ c = 88 := lower_eq_letter (by decide)

theorem marked_iff {b : Text} : lowercase word = ascii "0x" ++ hex b ↔
    ∃ x pairs, word = zero :: x :: pairs ∧ lower x = 120 ∧ lowercase pairs = hex b := by
  have mark : ascii "0x" ++ hex b = zero :: 120 :: hex b := rfl
  rw [mark]
  match word with
  | [] => simp [lowercase]
  | [c] => simp [lowercase]
  | z :: x :: pairs => simp [lowercase, lower_eq_zero]

theorem bytes_eq_some {b : Text} : bytes? word = some b ↔ IsBytes word b := by
  rw [IsBytes, marked_iff]
  constructor
  · intro read
    unfold bytes? at read
    split at read
    · next z x pairs =>
        split at read
        · next marked =>
            simp only [Bool.and_eq_true, decide_eq_true_eq, bne_iff_ne] at marked
            obtain ⟨⟨rfl, letter⟩, some⟩ := marked
            have digits := hexPairs_eq_some.mp read
            refine ⟨?_, x, pairs, rfl, letter, digits⟩
            rintro rfl
            exact some (List.map_eq_nil_iff.mp digits)
        · cases read
    · cases read
  · rintro ⟨some, x, pairs, rfl, letter, digits⟩
    have read := hexPairs_eq_some.mpr digits
    have pairs : pairs ≠ [] := by
      rintro rfl
      cases read
      exact some rfl
    simp [bytes?, letter, pairs, read]

theorem none_iff {α : Type} {read : Option α} {P : α → Prop}
    (reads : ∀ {a}, read = some a ↔ P a) : read = none ↔ ∀ a, ¬P a := by
  simp only [Option.eq_none_iff_forall_ne_some, ne_eq, reads]

end Readers

/-- A word has the value of the first kind that it can be read as. -/
theorem value_eq {word : Text} {v : Value} : value word = v ↔ Reads word v := by
  have noKeyword := none_iff (@keyword_eq_some word)
  have noInt := none_iff (@int64_eq_some word)
  have noDouble := none_iff (@double_eq_some word)
  have noBytes := none_iff (@bytes_eq_some word)
  constructor
  · rintro rfl
    unfold value
    cases keyword : keyword? word with
    | some v => exact .keyword (keyword_eq_some.mp keyword)
    | none =>
    have keyword := noKeyword.mp keyword
    cases int : int64? word with
    | some n => exact .int keyword (int64_eq_some.mp int)
    | none =>
    have int := noInt.mp int
    cases double : double? word with
    | some bits => exact .double keyword int (double_eq_some.mp double)
    | none =>
    have double := noDouble.mp double
    cases bytes : bytes? word with
    | some b => exact .bytes keyword int double (bytes_eq_some.mp bytes)
    | none => exact .text keyword int double (noBytes.mp bytes)
  · intro reads
    cases reads with
    | keyword read => rw [value, keyword_eq_some.mpr read]
    | int keyword read => rw [value, noKeyword.mpr keyword, int64_eq_some.mpr read]
    | double keyword int read =>
        rw [value, noKeyword.mpr keyword, noInt.mpr int, double_eq_some.mpr read]
    | bytes keyword int double read =>
        rw [value, noKeyword.mpr keyword, noInt.mpr int, noDouble.mpr double,
          bytes_eq_some.mpr read]
    | text keyword int double bytes =>
        rw [value, noKeyword.mpr keyword, noInt.mpr int, noDouble.mpr double, noBytes.mpr bytes]

section Kinds

variable {word pairs : Text} {x : UInt8} {d : Decimal}

/-- What begins like bytes is of no other kind. -/
theorem marked (letter : lower x = 120) : keyword? (zero :: x :: pairs) = none ∧
    int64? (zero :: x :: pairs) = none ∧ Decimal.read? (zero :: x :: pairs) = none := by
  rcases lower_eq_x.mp letter with rfl | rfl <;> exact ⟨rfl, rfl, rfl⟩

theorem lowercase_hex (b : Text) : lowercase (hex b) = hex b := by
  induction b with
  | nil => rfl
  | cons c b ih =>
      have large : c.toNat / 16 < 16 := by have := c.toNat_lt; omega
      have small : c.toNat % 16 < 16 := by omega
      rw [lowercase] at ih
      rw [hex_cons, lowercase, List.map_cons, List.map_cons, lower_hexDigit large,
        lower_hexDigit small, ih]

theorem value_hex (first : UInt8) (b : Text) :
    value (ascii "0x" ++ hex (first :: b)) = .bytes (first :: b) := by
  have word : ascii "0x" ++ hex (first :: b) = zero :: 120 :: hex (first :: b) := rfl
  have bytes : IsBytes (zero :: 120 :: hex (first :: b)) (first :: b) :=
    ⟨List.cons_ne_nil _ _, marked_iff.mpr ⟨_, _, rfl, by decide, lowercase_hex _⟩⟩
  obtain ⟨keyword, int, decimal⟩ := @marked (hex (first :: b)) 120 (by decide)
  have double : double? (zero :: 120 :: hex (first :: b)) = none := by
    rw [double?, decimal]
    rfl
  rw [word, value, keyword, int, double, bytes_eq_some.mpr bytes]

/-- An integer is written like a decimal with the same value. -/
theorem IsInteger.written {k : Int} (integer : IsInteger word k) :
    ∃ d, Decimal.Written word d ∧ d.rational = k := by
  cases integer with
  | @plain digits number =>
      have written := Decimal.Written.parts .none (.whole number) .none
      simp only [List.append_nil, List.nil_append, List.length_nil] at written
      refine ⟨_, written, ?_⟩
      simp [Decimal.rational_eq, Decimal.quotient_eq, Binary.withSign]
  | @negative digits number =>
      have written := Decimal.Written.parts .minus (.whole number) .none
      simp only [List.append_nil, List.singleton_append, List.length_nil] at written
      refine ⟨_, written, ?_⟩
      simp [Decimal.rational_eq, Decimal.quotient_eq, Binary.withSign]

theorem inRange_int64 {k : Int} (low : -2 ^ 63 ≤ k) (high : k ≤ 2 ^ 63 - 1) :
    Decimal.InRange k := by
  rcases eq_or_ne k 0 with rfl | some
  · exact .inl Int.cast_zero
  · have one : 1 ≤ |k| := Int.one_le_abs some
    have most : |k| ≤ 2 ^ 63 := abs_le.mpr ⟨low, by omega⟩
    have one : (1 : ℚ) ≤ |(k : ℚ)| := by exact_mod_cast one
    have most : |(k : ℚ)| ≤ 2 ^ 63 := by exact_mod_cast most
    have tiny : (1 : ℚ) / 2 ^ 1075 < 1 :=
      (div_lt_one (by positivity)).mpr (one_lt_pow₀ one_lt_two (by decide))
    have huge : (2 : ℚ) ^ 63 + 2 ^ 970 < 2 ^ 1024 := by
      have whole : 2 ^ 63 + 2 ^ 970 < 2 ^ 1024 := by decide +kernel
      exact_mod_cast whole
    exact .inr ⟨tiny.trans_le one, most.trans_lt (lt_sub_iff_add_lt.mpr huge)⟩

theorem no_keyword (written : Decimal.Written word d) : ∀ v, (word, v) ∉ keywords := by
  have read := Decimal.read_eq_some.mpr written
  intro v keyword
  simp only [keywords, List.mem_cons, Prod.mk.injEq, List.not_mem_nil, or_false] at keyword
  rcases keyword with ⟨rfl, -⟩ | ⟨rfl, -⟩ | ⟨rfl, -⟩ | ⟨rfl, -⟩ <;> cases read

theorem value_of_int64 {n : Int64} (int : IsInt64 word n) : value word = .int n := by
  obtain ⟨k, integer, -⟩ := id int
  obtain ⟨d, written, -⟩ := integer.written
  exact value_eq.mpr (.int (no_keyword written) int)

theorem value_of_double {bits : UInt64} (noInt : ∀ n, ¬IsInt64 word n)
    (double : IsDouble word bits) : value word = .double bits := by
  obtain ⟨d, written, -⟩ := id double
  exact value_eq.mpr (.double (no_keyword written) noInt double)

theorem value_out_of_range (written : Decimal.Written word d)
    (outside : ¬Decimal.InRange d.rational) : value word = .text word := by
  have read := Decimal.read_eq_some.mpr written
  apply value_eq.mpr
  apply Reads.text (no_keyword written)
  · rintro n ⟨k, integer, low, high, -⟩
    obtain ⟨other, written', same⟩ := integer.written
    rw [← written.unique written', same] at outside
    exact outside (inRange_int64 low high)
  · rintro bits ⟨other, written', nearest⟩
    rw [written.unique written'] at nearest
    exact outside nearest.inRange
  · intro b bytes
    obtain ⟨x, pairs, rfl, letter, -⟩ := marked_iff.mp bytes.2
    cases (marked letter).2.2.symm.trans read

/-- Words that are almost numbers, and numbers that are too great or too small. -/
def strays : List Text :=
  ["nan", "NaN", "inf", "-inf", "infinity", "+Infinity", "", "+", "-", ".", "-.", "e5", "1e", "1e+",
    "+-5", "--5", "1.5.2", "1 ", "0x", "0X", "0xabc", "0xzz", "1e400", "-1e400", "1e-400",
    "Null", "TRUE"].map ascii

/-- A word is of the first kind that it can be read as. All bytes have a hexadecimal text that
stands for them, and decimals out of range are texts. -/
theorem value_classifies :
    (∀ word v, value word = v ↔ Reads word v) ∧
      (∀ first b, value (ascii "0x" ++ hex (first :: b)) = .bytes (first :: b)) ∧
      (∀ word d, Decimal.Written word d → ¬Decimal.InRange d.rational → value word = .text word) ∧
      strays.map value = strays.map .text :=
  ⟨fun _ _ => value_eq, value_hex, fun _ _ => value_out_of_range, rfl⟩

theorem value_classifies_words :
    Reads (ascii "-1.50") (.double 0xBFF8000000000000) ∧
      value (ascii "1e400") = .text (ascii "1e400") := by
  obtain ⟨classified, -, outOfRange, -⟩ := value_classifies
  have read : double? (ascii "-1.50") = some 0xBFF8000000000000 := by decide +kernel
  have double : value (ascii "-1.50") = .double 0xBFF8000000000000 := by
    rw [value, read]
    rfl
  have written : Decimal.Written (ascii "1e400") ⟨false, ascii "1", 400⟩ :=
    Decimal.read_eq_some.mp rfl
  have outside : ¬Decimal.InRange (Decimal.rational ⟨false, ascii "1", 400⟩) := by
    intro inRange
    have none : Decimal.nearestDouble? ⟨false, ascii "1", 400⟩ = none := by decide +kernel
    have found := (Decimal.nearestDouble_of_inRange written.digits.digits inRange).2
    cases none.symm.trans found
  exact ⟨(classified _ _).mp double, outOfRange _ _ written outside⟩

end Kinds

end BoundSql.Argument

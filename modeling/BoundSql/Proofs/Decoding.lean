import BoundSql.Proofs.Characters

/-!
Decoding is exact: what is read at the front of a text is the one encoding of the code point that
is found there, and where nothing is read no encoding begins. A text is therefore cut into
characters from the left, and a byte stands alone just where no encoding begins.
-/

namespace BoundSql.Utf8

open Text

section Decoding

variable {a : UInt8} {bits count cp : Nat} {t : Text}

/-- A first byte and what it announces. -/
inductive Announces : UInt8 → Lead → Prop
  | one {n} (small : n < 0x80) : Announces n.toUInt8 ⟨0, n, 0⟩
  | two {n} (small : n < 32) : Announces (0xC0 + n).toUInt8 ⟨1, n, 0x80⟩
  | three {n} (small : n < 16) : Announces (0xE0 + n).toUInt8 ⟨2, n, 0x800⟩
  | four {n} (small : n < 8) : Announces (0xF0 + n).toUInt8 ⟨3, n, 0x10000⟩

theorem announces_of_lead {lead : Lead} (first : lead? a = some lead) : Announces a lead := by
  have whole {base : Nat} (above : base ≤ a.toNat) : a = (base + (a.toNat - base)).toUInt8 := by
    rw [Nat.add_sub_cancel' above]
    exact UInt8.ofNat_toNat.symm
  unfold lead? at first
  simp only at first
  split at first
  · next small =>
      cases first
      have same := Announces.one small
      rwa [show a.toNat.toUInt8 = a from UInt8.ofNat_toNat] at same
  split at first
  · cases first
  split at first
  · next above below =>
      cases first
      have same := @Announces.two (a.toNat - 0xC0) (by omega)
      rwa [← whole (by omega)] at same
  split at first
  · next above below =>
      cases first
      have same := @Announces.three (a.toNat - 0xE0) (by omega)
      rwa [← whole (by omega)] at same
  split at first
  · next above below =>
      cases first
      have same := @Announces.four (a.toNat - 0xF0) (by omega)
      rwa [← whole (by omega)] at same
  · cases first

/-- A continuation that is read is the one that the number so far is written with. -/
theorem continued_eq_some (read : continued? (count + 1) bits t = some cp) : ∃ n rest,
    t = (0x80 + n % 64).toUInt8 :: rest ∧ n / 64 = bits ∧ continued? count n rest = some cp := by
  cases t with
  | nil => cases read
  | cons c rest =>
      rw [continued?] at read
      split at read
      · next continuation =>
          obtain ⟨low, high⟩ := isContinuation_iff.mp continuation
          refine ⟨_, rest, ?_, ?_, read⟩
          · have byte : 0x80 + (64 * bits + (c.toNat - 0x80)) % 64 = c.toNat := by omega
            rw [byte]
            exact congrArg (· :: rest) UInt8.ofNat_toNat.symm
          · omega
      · cases read

/-- What is read is an encoding. -/
theorem encode_of_continued {lead : Lead} (announces : Announces a lead)
    (read : continued? lead.continuations lead.bits t = some cp) (least : lead.least ≤ cp)
    (scalar : isScalar cp = true) :
    ∃ rest, a :: t = encode cp ++ rest ∧ lead.continuations + 1 = (encode cp).length := by
  have bound := le_of_scalar scalar
  cases announces with
  | one small =>
      obtain rfl : _ = cp := Option.some.inj read
      refine ⟨t, ?_⟩
      rw [encode, if_pos small]
      exact ⟨rfl, rfl⟩
  | two small =>
      obtain ⟨n, rest, rfl, rfl, last⟩ := continued_eq_some read
      obtain rfl : n = cp := Option.some.inj last
      refine ⟨rest, ?_⟩
      simp only at least
      rw [encode, if_neg (by omega), if_pos (by omega)]
      exact ⟨rfl, rfl⟩
  | three small =>
      obtain ⟨m, _, rfl, rfl, later⟩ := continued_eq_some read
      obtain ⟨n, rest, rfl, rfl, last⟩ := continued_eq_some later
      obtain rfl : n = cp := Option.some.inj last
      refine ⟨rest, ?_⟩
      have twice : n / 4096 = n / 64 / 64 := (Nat.div_div_eq_div_mul n 64 64).symm
      simp only at least
      rw [encode, if_neg (by omega), if_neg (by omega), if_pos (by omega), twice]
      exact ⟨rfl, rfl⟩
  | four small =>
      obtain ⟨l, _, rfl, rfl, later⟩ := continued_eq_some read
      obtain ⟨m, _, rfl, rfl, later'⟩ := continued_eq_some later
      obtain ⟨n, rest, rfl, rfl, last⟩ := continued_eq_some later'
      obtain rfl : n = cp := Option.some.inj last
      refine ⟨rest, ?_⟩
      have twice : n / 4096 = n / 64 / 64 := (Nat.div_div_eq_div_mul n 64 64).symm
      have thrice : n / 262144 = n / 64 / 64 / 64 := by rw [← twice, Nat.div_div_eq_div_mul]
      simp only at least
      rw [encode, if_neg (by omega), if_neg (by omega), if_neg (by omega), thrice, twice]
      exact ⟨rfl, rfl⟩

/-- A code point is read exactly where its encoding begins. -/
theorem decode_eq_some {front : Decoded} : decode? t = some front ↔
    isScalar front.code = true ∧ front.size = (encode front.code).length ∧
      encode front.code <+: t := by
  constructor
  · intro read
    cases t with
    | nil => cases read
    | cons a t =>
        obtain ⟨lead, first, later⟩ := Option.bind_eq_some_iff.mp read
        obtain ⟨cp, continued, found⟩ := Option.bind_eq_some_iff.mp later
        split at found
        · next proper =>
            cases found
            rw [Bool.and_eq_true, decide_eq_true_eq] at proper
            obtain ⟨rest, same, size⟩ :=
              encode_of_continued (announces_of_lead first) continued proper.1 proper.2
            exact ⟨proper.2, size, rest, same.symm⟩
        · cases found
  · rintro ⟨scalar, size, rest, rfl⟩
    rw [decode_encode scalar, ← size]

theorem decode_eq_none :
    decode? t = none ↔ ∀ cp, isScalar cp = true → ¬ encode cp <+: t := by
  constructor
  · intro none cp scalar begins
    have read := (@decode_eq_some t ⟨cp, (encode cp).length⟩).mpr ⟨scalar, rfl, begins⟩
    cases none.symm.trans read
  · intro none
    cases read : decode? t with
    | none => rfl
    | some front =>
        obtain ⟨scalar, -, begins⟩ := decode_eq_some.mp read
        exact absurd begins (none front.code scalar)

end Decoding

section Dividing

variable {t : Text}

/-- A text cut into characters from the left. A byte stands alone where no encoding begins. -/
inductive Divided : Text → List Text → Prop
  | nil : Divided [] []
  | whole {cp t cs} (scalar : isScalar cp = true) (others : Divided t cs) :
      Divided (encode cp ++ t) (encode cp :: cs)
  | stray {b t cs} (none : ∀ cp, isScalar cp = true → ¬ encode cp <+: b :: t)
      (others : Divided t cs) : Divided (b :: t) ([b] :: cs)

theorem characters_stray {b : UInt8} (none : decode? (b :: t) = none) :
    characters (b :: t) = [b] :: characters t := by
  rw [characters]
  simp [following_stray none]

/-- The characters of a text are gone through one by one. -/
theorem divided_characters (t : Text) : Divided t (characters t) := by
  induction shorter : t.length using Nat.strongRecOn generalizing t with
  | ind _ ih =>
      subst shorter
      cases read : decode? t with
      | some front =>
          obtain ⟨scalar, -, rest, rfl⟩ := decode_eq_some.mp read
          have some := length_encode_pos front.code
          rw [characters_encode scalar]
          refine .whole scalar (ih _ ?_ rest rfl)
          rw [List.length_append]
          omega
      | none =>
          cases t with
          | nil =>
              rw [characters]
              exact .nil
          | cons b t =>
              rw [characters_stray read]
              exact .stray (decode_eq_none.mp read) (ih _ (Nat.lt_succ_self _) t rfl)

end Dividing

end BoundSql.Utf8

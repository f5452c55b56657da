import BoundSql.Number.FixedPoint
import BoundSql.Number.Shortest
import BoundSql.Proofs.Tokens

/-!
Numbers as texts. A numeral has no leading zero, filled numerals have as many digits as asked for,
and the value of digits that stand side by side is known from the two parts. Every number that is
shown is a sign, digits and perhaps a point and more digits, or one of three words.
-/

namespace BoundSql

open Text
open Template (IsNumber)

-- Powers are the built-in ones, whatever else is imported.
attribute [local instance (high)] instPowNat

namespace Numeral

theorem isDigit_digit {n : Nat} (small : n < 10) : isDigit (digit n) = true := by
  have all : ∀ n < 10, isDigit (digit n) = true := by decide
  exact all n small

theorem number_ofNat (n : Nat) : IsNumber (ofNat n) := by
  induction n using ofNat.induct with
  | case1 n small =>
      rw [ofNat, if_pos small]
      exact ⟨by simp, by simp [isDigit_digit small]⟩
  | case2 n large ih =>
      rw [ofNat, if_neg large]
      refine ⟨by simp, fun c member => ?_⟩
      rcases List.mem_append.mp member with earlier | last
      · exact ih.digits c earlier
      · rw [List.mem_singleton.mp last]
        exact isDigit_digit (Nat.mod_lt n (by decide))

/-- Only the number zero begins with the digit zero. -/
theorem ofNat_eq_zero {n : Nat} {t : Text} (front : ofNat n = zero :: t) : t = [] := by
  induction n using ofNat.induct generalizing t with
  | case1 n small =>
      rw [ofNat, if_pos small] at front
      exact (List.cons.inj front).2.symm
  | case2 n large ih =>
      obtain ⟨c, later, parts⟩ := List.exists_cons_of_ne_nil (number_ofNat (n / 10)).nonempty
      rw [ofNat, if_neg large, parts, List.cons_append] at front
      obtain ⟨rfl, -⟩ := List.cons.inj front
      have none := value_ofNat (n / 10)
      rw [parts, ih parts] at none
      have zero : value [zero] = 0 := by decide
      omega

theorem value_append (t digits : Text) :
    value (t ++ digits) = value t * 10 ^ digits.length + value digits := by
  induction digits generalizing t with
  | nil => simp [value]
  | cons c digits ih =>
      have front := ih [c]
      have whole := ih (t ++ [c])
      have single : value [c] = digitValue c := by simp [value]
      rw [List.singleton_append, single] at front
      rw [value_append_digit, List.append_assoc, List.singleton_append, Nat.add_mul] at whole
      rw [whole, front, List.length_cons, Nat.pow_succ, Nat.mul_comm _ 10, ← Nat.mul_assoc,
        Nat.mul_comm (value t), Nat.add_assoc]

theorem value_cons (c : UInt8) (t : Text) :
    value (c :: t) = digitValue c * 10 ^ t.length + value t := by
  have front := value_append [c] t
  have single : value [c] = digitValue c := by simp [value]
  rwa [single] at front

theorem value_zeros (count : Nat) (t : Text) :
    value (List.replicate count zero ++ t) = value t := by
  induction count with
  | zero => rfl
  | succ count ih =>
      have front := value_append [zero] (List.replicate count zero ++ t)
      have none : value [zero] = 0 := by decide
      rwa [none, Nat.zero_mul, Nat.zero_add, ih, List.singleton_append, ← List.cons_append,
        ← List.replicate_succ] at front

theorem value_padded (width n : Nat) : value (padded width n) = n := by
  rw [padded, List.leftpad, value_zeros, value_ofNat]

theorem digits_zeros (count : Nat) : ∀ c ∈ List.replicate count zero, isDigit c = true := by
  intro c member
  rw [List.eq_of_mem_replicate member]
  decide

theorem length_ofNat_le {n width : Nat} (positive : 0 < width) (small : n < 10 ^ width) :
    (ofNat n).length ≤ width := by
  induction n using ofNat.induct generalizing width with
  | case1 n single =>
      rw [ofNat, if_pos single]
      exact positive
  | case2 n large ih =>
      obtain ⟨less, rfl⟩ := Nat.exists_eq_add_of_lt positive
      rw [Nat.zero_add, Nat.pow_succ] at small
      have shorter : n / 10 < 10 ^ less := Nat.div_lt_of_lt_mul (by rwa [Nat.mul_comm] at small)
      have some : 0 < less := by
        refine Nat.pos_of_ne_zero fun none => ?_
        subst none
        omega
      have bounded := ih some shorter
      rw [ofNat, if_neg large, List.length_append]
      simp only [List.length_singleton]
      omega

theorem length_padded {n width : Nat} (positive : 0 < width) (small : n < 10 ^ width) :
    (padded width n).length = width := by
  have bounded := length_ofNat_le positive small
  rw [padded, List.length_leftpad, Nat.max_eq_left bounded]

section Places

variable {places : Nat} (some : 0 < places) (n : Nat)

include some

theorem length_places : (padded places (n % 10 ^ places)).length = places :=
  length_padded some (Nat.mod_lt n (Nat.pow_pos (by decide)))

/-- The last places of a number, cut off and filled, write it together with what is before them. -/
theorem value_places : value (ofNat (n / 10 ^ places) ++ padded places (n % 10 ^ places)) = n := by
  rw [value_append, length_places some, value_ofNat, value_padded, Nat.div_add_mod']

end Places

end Numeral

namespace Template

theorem number_zero : IsNumber [zero] :=
  ⟨by simp, List.forall_mem_singleton.mpr (by decide)⟩

theorem IsNumber.append {t digits : Text} (number : IsNumber t)
    (others : ∀ c ∈ digits, isDigit c = true) : IsNumber (t ++ digits) :=
  ⟨by simp [number.nonempty], fun c member =>
    (List.mem_append.mp member).elim (number.digits c) (others c)⟩

theorem IsNumber.after {t digits : Text} (number : IsNumber t)
    (others : ∀ c ∈ digits, isDigit c = true) : IsNumber (digits ++ t) :=
  ⟨by simp [number.nonempty], fun c member =>
    (List.mem_append.mp member).elim (others c) (number.digits c)⟩

end Template

theorem Numeral.number_padded (width n : Nat) : IsNumber (padded width n) :=
  (number_ofNat n).after (digits_zeros _)

/-- A number as it is shown: never with an exponent, and with digits around its point. -/
inductive IsFigure : Text → Prop
  | whole (negative : Bool) {digits} (number : IsNumber digits) :
      IsFigure (Decimal.sign negative ++ digits)
  | places (negative : Bool) {digits places} (number : IsNumber digits)
      (fraction : IsNumber places) :
      IsFigure (Decimal.sign negative ++ (digits ++ point :: places))
  | nan : IsFigure (ascii "NaN")
  | infinite : IsFigure (ascii "+Inf")
  | negativeInfinite : IsFigure (ascii "-Inf")

theorem Numeral.figure_ofInt (n : Int) : IsFigure (ofInt n) := by
  unfold ofInt
  split
  · exact .whole true (number_ofNat _)
  · exact .whole false (number_ofNat _)

/-- Bytes of ASCII from the blank on. -/
def IsVisible (t : Text) : Prop := ∀ c ∈ t, 32 ≤ c ∧ c < 128

instance (t : Text) : Decidable (IsVisible t) :=
  List.decidableBAll (fun c => 32 ≤ c ∧ c < 128) t

section Visible

variable {t rest : Text} {c : UInt8}

theorem visible_append : IsVisible (t ++ rest) ↔ IsVisible t ∧ IsVisible rest :=
  List.forall_mem_append

theorem visible_cons : IsVisible (c :: t) ↔ (32 ≤ c ∧ c < 128) ∧ IsVisible t :=
  List.forall_mem_cons

theorem visible_number (number : IsNumber t) : IsVisible t := by
  intro c member
  have digit := number.digits c member
  simp only [isDigit, Bool.and_eq_true, decide_eq_true_eq] at digit
  exact ⟨UInt8.le_trans (by decide) digit.1, UInt8.lt_of_le_of_lt digit.2 (by decide)⟩

theorem visible_figure (figure : IsFigure t) : IsVisible t := by
  have sign (negative : Bool) : IsVisible (Decimal.sign negative) := by
    cases negative <;> decide
  cases figure with
  | whole negative number => exact visible_append.mpr ⟨sign _, visible_number number⟩
  | places negative number fraction =>
      exact visible_append.mpr ⟨sign _, visible_append.mpr ⟨visible_number number,
        visible_cons.mpr ⟨by decide, visible_number fraction⟩⟩⟩
  | nan | infinite | negativeInfinite => decide

end Visible

namespace Decimal

theorem digits_zeros (count : Nat) : ∀ c ∈ zeros count, isDigit c = true :=
  Numeral.digits_zeros count

theorem figure_positional {d : Decimal} (number : IsNumber d.digits) : IsFigure d.positional := by
  have longer := List.length_pos_iff.mpr number.nonempty
  simp only [positional, unsigned]
  split
  · exact .places d.negative Template.number_zero (number.after (digits_zeros _))
  · next inside =>
      split
      · exact .whole d.negative (number.append (digits_zeros _))
      · next places =>
          -- The point falls among the digits.
          have some : d.wholeDigits.toNat ≠ 0 := by omega
          have fewer : d.wholeDigits.toNat < d.digits.length := by
            unfold wholeDigits at inside ⊢
            omega
          refine .places d.negative ⟨?_, ?_⟩ ⟨?_, ?_⟩
          · simp [some, number.nonempty]
          · exact fun c member => number.digits c (List.mem_of_mem_take member)
          · simpa using fewer
          · exact fun c member => number.digits c (List.mem_of_mem_drop member)

end Decimal

theorem Binary.Datum.figure_text {finite : Bool → Magnitude → Text}
    (figure : ∀ negative m, IsFigure (finite negative m)) (d : Datum) :
    IsFigure (d.text finite) := by
  cases d with
  | nan => exact .nan
  | infinite negative =>
      cases negative with
      | false => exact .infinite
      | true => exact .negativeInfinite
  | finite negative m => exact figure negative m

namespace FixedPoint

theorem figure_ofMagnitude (places : Nat) (f : Binary.Format) (negative : Bool)
    (m : Binary.Magnitude) : IsFigure (ofMagnitude places f negative m) := by
  simp only [ofMagnitude, ofQuotient, List.append_assoc]
  exact .places negative (Numeral.number_ofNat _) (Numeral.number_padded _ _)

theorem figure_six (bits : UInt64) : IsFigure (six bits) :=
  Binary.Datum.figure_text (figure_ofMagnitude 6 Binary.double) _

end FixedPoint

namespace Shortest

theorem number_decimal (f : Binary.Format) (negative : Bool) (m : Binary.Magnitude) :
    IsNumber (decimal f negative m).digits := by
  unfold decimal
  split
  · exact Template.number_zero
  · exact Numeral.number_ofNat _

theorem figure_text (f : Binary.Format) (bits : Nat) : IsFigure (text f bits) :=
  Binary.Datum.figure_text
    (fun negative m => Decimal.figure_positional (number_decimal f negative m)) _

end Shortest

end BoundSql

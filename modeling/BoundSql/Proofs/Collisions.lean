import Mathlib
import BoundSql.Proofs.Placeholders

/-!
When the two passes differ for the at-sign shape. A template that has no token of its own is filled
as it should be for all values, unless a dollar sign and a number stand right before a placeholder:
then the number of the template is filled, and the placeholder falls apart. Zero has no value, so
two zeros there do no harm.
-/

namespace BoundSql.Template

open Text

def HasToken (t : Text) : Prop := ∃ digits, IsNumber digits ∧ canonical digits <:+: t

def Collides (t : Text) : Prop :=
  ∃ first second, IsNumber first ∧ IsNumber second ∧
    (Numeral.value first ≠ 0 ∨ Numeral.value second ≠ 0) ∧
    dollar :: (first ++ (ascii "@p" ++ second)) <:+: t

theorem HasToken.mono {t later : Text} (inside : later <:+: t) (token : HasToken later) :
    HasToken t := by
  obtain ⟨digits, number, found⟩ := token
  exact ⟨digits, number, found.trans inside⟩

theorem shown_zero (values : List Text) {digits : Text} (zero : Numeral.value digits = 0) :
    shown values digits = canonical digits := by
  simp [shown, zero]

-- No value begins as a brought form does.
def blanks (n : Nat) : List Text := List.replicate n [0]

theorem blank_ne_dollar : (0 : UInt8) ≠ dollar := by decide

theorem shown_blanks (n : Nat) (digits : Text) :
    shown (blanks n) digits = [0] ∨ shown (blanks n) digits = canonical digits := by
  unfold shown
  split
  · next inside => exact .inl (List.getElem_replicate _)
  · exact .inr rfl

theorem shown_blank {n : Nat} {digits : Text} (positive : Numeral.value digits ≠ 0)
    (bounded : Numeral.value digits ≤ n) : shown (blanks n) digits = [0] := by
  have inside : 1 ≤ Numeral.value digits ∧ Numeral.value digits ≤ (blanks n).length := by
    simp only [blanks, List.length_replicate]
    omega
  rw [shown, dif_pos inside]
  exact List.getElem_replicate _

namespace Item

/-- Nothing in the item has a value, so both passes leave it as it is. -/
def Quiet : Item → Prop
  | placeholder _ => True
  | token digits => Numeral.value digits = 0
  | collision first second => Numeral.value first = 0 ∧ Numeral.value second = 0

theorem scanned_of_quiet (values : List Text) {item : Item} (quiet : item.Quiet) :
    item.scanned values = item.written (shown values) := by
  cases item with
  | placeholder digits => rfl
  | token digits => exact shown_zero values quiet
  | collision first second =>
      rw [scanned, written, shown_zero values quiet.1, shown_zero values quiet.2]
      simp [canonical]

theorem scanned_or_apart (n : Nat) (item : Item) :
    item.scanned (blanks n) = item.written (shown (blanks n)) ∨
      ∀ later later' : Text,
        item.scanned (blanks n) ++ later ≠ item.written (shown (blanks n)) ++ later' := by
  cases item with
  | placeholder digits => exact .inl rfl
  | token digits =>
      rcases shown_blanks n digits with blank | kept
      · right
        intro later later'
        simp [scanned, written, blank, canonical, blank_ne_dollar]
      · exact .inl kept
  | collision first second =>
      rcases shown_blanks n first with blank | kept
      · right
        intro later later'
        simp [scanned, written, blank, blank_ne_dollar]
      · rcases shown_blanks n second with blank' | kept'
        · right
          intro later later'
          simp [scanned, written, kept, blank', canonical, blank_ne_dollar.symm]
        · left
          simp [scanned, written, kept, kept', canonical]

theorem scanned_ne_of_loud {item : Item} (loud : ¬ item.Quiet) :
    ∃ n, item.scanned (blanks n) ≠ item.written (shown (blanks n)) := by
  cases item with
  | placeholder digits => exact absurd trivial loud
  | token digits =>
      refine ⟨Numeral.value digits, ?_⟩
      simp [scanned, written, shown_blank loud (Nat.le_refl _), canonical]
  | collision first second =>
      by_cases zero : Numeral.value first = 0
      · have positive : Numeral.value second ≠ 0 := fun other => loud ⟨zero, other⟩
        refine ⟨Numeral.value second, ?_⟩
        simp [scanned, written, shown_zero _ zero, shown_blank positive (Nat.le_refl _), canonical]
      · refine ⟨Numeral.value first, ?_⟩
        simp [scanned, written, shown_blank zero (Nat.le_refl _), blank_ne_dollar]

/-- The bytes that the item is read from. -/
def source (item : Item) : Text := item.written (ascii "@p" ++ ·)

theorem Reads.source {t rest : Text} {item : Item} (reads : Reads t item rest) :
    t = item.source ++ rest := by
  cases reads <;> simp [Item.source, written, canonical]

theorem reads_of_meets {t : Text} {item : Item} (meets : reader.Meets t item) :
    ∃ before here rest, Reads here item rest ∧ t = before ++ here := by
  induction meets with
  | here found => exact ⟨[], _, _, reads_of_read found, rfl⟩
  | @after t other rest item found _ ih =>
      obtain ⟨before, here, later, reads, same⟩ := ih
      refine ⟨other.source ++ before, here, later, reads, ?_⟩
      rw [(reads_of_read found).source, same, List.append_assoc]
  | @past c t item _ _ ih =>
      obtain ⟨before, here, later, reads, same⟩ := ih
      exact ⟨c :: before, here, later, reads, congrArg (List.cons c) same⟩

/-- In a template without tokens and collisions every item is quiet. -/
theorem quiet_of_meets {t : Text} (clean : ¬ HasToken t) (free : ¬ Collides t) {item : Item}
    (meets : reader.Meets t item) : item.Quiet := by
  obtain ⟨before, here, rest, reads, rfl⟩ := reads_of_meets meets
  have inside : item.source <:+: before ++ here := by
    rw [reads.source]
    exact List.infix_append' _ _ _
  cases reads with
  | placeholder number ended => trivial
  | token number => exact absurd ⟨_, number, inside⟩ clean
  | @collision first second _ one two ended =>
      have silent : ¬ (Numeral.value first ≠ 0 ∨ Numeral.value second ≠ 0) := fun loud =>
        free ⟨first, second, one, two, loud, inside⟩
      simpa [Quiet] using silent

end Item

theorem infix_of_append {c : UInt8} {w before t : Text} (absent : c ∉ before)
    (inside : c :: w <:+: before ++ t) : c :: w <:+: t := by
  induction before with
  | nil => exact inside
  | cons b before ih =>
      obtain ⟨other, notLater⟩ := List.ne_and_not_mem_of_not_mem_cons absent
      rcases List.infix_cons_iff.mp inside with front | later
      · exact absurd (List.cons_prefix_cons.mp front).1 other
      · exact ih notLater later

theorem Collides.of_append {before t : Text} (absent : dollar ∉ before)
    (collides : Collides (before ++ t)) : Collides t := by
  obtain ⟨first, second, one, two, loud, inside⟩ := collides
  exact ⟨first, second, one, two, loud, infix_of_append absent inside⟩

theorem value_le_append (t digits : Text) :
    Numeral.value t ≤ Numeral.value (t ++ digits) := by
  induction digits generalizing t with
  | nil => exact Nat.le_of_eq (congrArg Numeral.value (List.append_nil t).symm)
  | cons c digits ih =>
      have grown := ih (t ++ [c])
      rw [Numeral.value_append_digit, List.append_assoc, List.singleton_append] at grown
      omega

theorem no_digit_ahead_at (t : Text) : NoDigitAhead (ascii "@p" ++ t) :=
  no_digit_ahead_cons.mpr (by decide)

theorem same_before_at {first first' t t' : Text} (one : IsNumber first) (one' : IsNumber first')
    (same : first ++ (ascii "@p" ++ t) = first' ++ (ascii "@p" ++ t')) :
    first = first' ∧ t = t' := by
  have digits := congrArg (List.takeWhile isDigit) same
  rw [takeWhile_digits one.digits (no_digit_ahead_at t),
    takeWhile_digits one'.digits (no_digit_ahead_at t')] at digits
  rw [digits] at same
  exact ⟨digits, List.append_cancel_left (List.append_cancel_left same)⟩

-- A run that is read to its end is worth no less than any shorter one.
theorem value_le_of_run {digits digits' t t' : Text} (number : IsNumber digits)
    (number' : IsNumber digits') (ended : NoDigitAhead t) (same : digits ++ t = digits' ++ t') :
    Numeral.value digits' ≤ Numeral.value digits := by
  have run := congrArg (List.takeWhile isDigit) same
  rw [takeWhile_digits number.digits ended, List.takeWhile_append_of_pos number'.digits] at run
  rw [run]
  exact value_le_append _ _

-- Two zeros that collide hide no other collision, for no other dollar sign is among them.
theorem Collides.of_quiet {first second rest : Text} (one : IsNumber first) (two : IsNumber second)
    (ended : NoDigitAhead rest) (quiet : (Item.collision first second).Quiet)
    (collides : Collides (dollar :: (first ++ (ascii "@p" ++ (second ++ rest))))) :
    Collides rest := by
  obtain ⟨first', second', one', two', loud, inside⟩ := collides
  rcases List.infix_cons_iff.mp inside with opened | later
  · obtain ⟨after, same⟩ := (List.cons_prefix_cons.mp opened).2
    simp only [List.append_assoc] at same
    obtain ⟨rfl, runs⟩ := same_before_at one' one same
    have bounded := value_le_of_run two two' ended runs.symm
    rw [quiet.2] at bounded
    exact absurd loud (by simp [quiet.1, Nat.le_zero.mp bounded])
  · have afterSign : Collides (first ++ (ascii "@p" ++ (second ++ rest))) :=
      ⟨first', second', one', two', loud, later⟩
    have afterFirst := afterSign.of_append (one.not_mem (by decide))
    have afterAt := afterFirst.of_append (by decide)
    exact afterAt.of_append (two.not_mem (by decide))

theorem read_of_opened {first second t : Text} (one : IsNumber first) (two : IsNumber second)
    (opened : dollar :: (first ++ (ascii "@p" ++ second)) <+: t) : Item.read? t ≠ none := by
  obtain ⟨after, rfl⟩ := opened
  intro missed
  have front : postgres.read? (dollar :: (first ++ (ascii "@p" ++ second)) ++ after) =
      some (first, ascii "@p" ++ (second ++ after)) :=
    Shape.read_eq_some.mpr ⟨one, no_digit_ahead_at _, by simp [postgres]⟩
  have behind := (Item.read_eq_none.mp missed).2.2 _ _ front
  have digits : (second ++ after).takeWhile isDigit ≠ [] := by
    rw [List.takeWhile_append_of_pos two.digits]
    simp [two.nonempty]
  simp [sqlServer, read_without_trail digits] at behind

/-- The pass comes to a collision that is there, since no item before it reaches into it. -/
theorem meets_of_collides {t : Text} (clean : ¬ HasToken t) (collides : Collides t) :
    ∃ item, Item.reader.Meets t item ∧ ¬ item.Quiet := by
  induction t using Reader.induction Item.reader with
  | nil =>
      obtain ⟨first, second, -, -, -, inside⟩ := collides
      simp at inside
  | found t item rest front ih =>
      by_cases quiet : item.Quiet
      · have reads := Item.reads_of_read front
        have cleanRest : ¬ HasToken rest := fun token =>
          clean (token.mono (reads.source ▸ (List.suffix_append _ _).isInfix))
        have remains : Collides rest := by
          cases reads with
          | placeholder number ended =>
              have afterAt := collides.of_append (by decide)
              exact afterAt.of_append (number.not_mem (by decide))
          | @token digits _ number =>
              refine absurd ⟨digits, number, ?_⟩ clean
              exact ⟨[], rest, by simp [canonical]⟩
          | collision one two ended => exact collides.of_quiet one two ended quiet
        obtain ⟨other, meets, loud⟩ := ih cleanRest remains
        exact ⟨other, .after front meets, loud⟩
      · exact ⟨item, .here front, quiet⟩
  | missed c t front ih =>
      obtain ⟨first, second, one, two, loud, inside⟩ := collides
      rcases List.infix_cons_iff.mp inside with opened | later
      · exact absurd front (read_of_opened one two opened)
      · have cleanRest : ¬ HasToken t := fun token =>
          clean (token.mono (List.suffix_cons _ _).isInfix)
        obtain ⟨other, meets, loud⟩ := ih cleanRest ⟨first, second, one, two, loud, later⟩
        exact ⟨other, .past front meets, loud⟩

/-- For all values, exactly the templates without a collision are filled as they should be. -/
theorem fill_sqlServer_exact {t : Text} (clean : ¬ HasToken t) :
    (∀ values, fillNumbered values (sqlServer.reader.rewrite canonical t) =
        sqlServer.reader.rewrite (shown values) t) ↔ ¬ Collides t := by
  simp only [fill_sqlServer]
  simp only [rewrite_sqlServer]
  constructor
  · intro same collides
    obtain ⟨item, meets, loud⟩ := meets_of_collides clean collides
    obtain ⟨n, different⟩ := Item.scanned_ne_of_loud loud
    exact different (Reader.rewrite_injective (Item.scanned_or_apart n) (same (blanks n)) item meets)
  · intro free values
    exact Reader.rewrite_congr fun item meets =>
      Item.scanned_of_quiet values (Item.quiet_of_meets clean free meets)

-- Every list of texts is how some values are shown.
def verbatim : Literals
  | .text t, _ => t
  | _, _ => []

theorem map_verbatim (texts : List Text) (escaper : Text) :
    (texts.map Value.text).map (fun v => verbatim v escaper) = texts := by
  simp [Function.comp_def, verbatim]

/-- A template without tokens of its own is filled in one pass, whatever the values are and however
they are shown, exactly if it has no collision. -/
theorem explain_sqlServer_iff {template : Text} (clean : ¬ HasToken template) :
    (∀ (literal : Literals) (escaper : Text) (values : List Value),
      (Regex.Pattern.ofText? (ascii "@p(\\d+)")).map
          (fun p => explain literal (.numbered p) escaper template values) =
        some (sqlServer.reader.rewrite (shown (values.map fun v => literal v escaper)) template)) ↔
      ¬ Collides template := by
  simp only [sqlServer_pattern, Option.map_some, Option.some.injEq,
    explain_shaped sqlServer no_digit_ahead_nil]
  rw [← fill_sqlServer_exact clean]
  constructor
  · intro same texts
    have filled := same verbatim [] (texts.map .text)
    rwa [map_verbatim] at filled
  · intro same literal escaper values
    exact same _

theorem one_sign_no_token {t : Text} (single : t.count dollar ≤ 1) : ¬ HasToken t := by
  rintro ⟨digits, -, inside⟩
  have signs := inside.sublist.count_le dollar
  simp only [canonical, List.cons_append, List.count_cons_self, List.count_append] at signs
  omega

/-- A number of the template after a placeholder does no harm. -/
theorem explain_sqlServer_after :
    ¬ HasToken (ascii "@p1$5") ∧ ¬ Collides (ascii "@p1$5") ∧
      ∀ (literal : Literals) (escaper : Text) (values : List Value),
        (Regex.Pattern.ofText? (ascii "@p(\\d+)")).map
            (fun p => explain literal (.numbered p) escaper (ascii "@p1$5") values) =
          some (sqlServer.reader.rewrite (shown (values.map fun v => literal v escaper))
            (ascii "@p1$5")) := by
  have clean : ¬ HasToken (ascii "@p1$5") := one_sign_no_token (by decide)
  have free : ¬ Collides (ascii "@p1$5") := by
    rintro ⟨first, second, -, -, -, inside⟩
    have later : dollar :: (first ++ (ascii "@p" ++ second)) <:+: ascii "$5" :=
      @infix_of_append dollar _ (ascii "@p1") _ (by decide) inside
    have sign : atSign ∈ ascii "$5" := later.subset
      (List.mem_cons_of_mem _ (List.mem_append_right _ (List.mem_append_left _ (by decide))))
    exact absurd sign (by decide)
  exact ⟨clean, free, (explain_sqlServer_iff clean).mpr free⟩

/-- A number of the template right before a placeholder takes its sign: the value stands for the
number of the template, and the placeholder is left in pieces. -/
theorem sqlServer_collision :
    ¬ ∀ template : Text, ¬ HasToken template →
      ∀ (literal : Literals) (escaper : Text) (values : List Value),
        (Regex.Pattern.ofText? (ascii "@p(\\d+)")).map
            (fun p => explain literal (.numbered p) escaper template values) =
          some (sqlServer.reader.rewrite (shown (values.map fun v => literal v escaper))
            template) := by
  intro always
  have clean : ¬ HasToken (ascii "$1@p1") := one_sign_no_token (by decide)
  have filled := always _ clean (defaultLiterals Zone.universal) (ascii "'") [.int 7]
  have given : (Regex.Pattern.ofText? (ascii "@p(\\d+)")).map (fun p =>
      explain (defaultLiterals Zone.universal) (.numbered p) (ascii "'") (ascii "$1@p1") [.int 7]) =
      some (ascii "71$") := by
    cbv
  have wanted : sqlServer.reader.rewrite
      (shown ([.int 7].map fun v => defaultLiterals Zone.universal v (ascii "'")))
      (ascii "$1@p1") = ascii "$17" := by
    cbv
  rw [given, wanted] at filled
  exact absurd filled (by decide)

end BoundSql.Template

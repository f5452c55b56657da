import BoundSql.Proofs.Shapes
import BoundSql.Template

/-!
Two shapes of numbered placeholders. The text that is scanned for tokens holds the bytes of the
template and the dollar signs of its brought forms side by side. Where the placeholders begin with
a dollar sign themselves the two never mix, and the two passes are one. Elsewhere a number of the
template after a dollar sign may take the first sign of a placeholder for its closing one.
-/

namespace BoundSql.Template

open Text

abbrev atSign : UInt8 := 64

def postgres : Shape := ⟨[dollar], []⟩

def sqlServer : Shape := ⟨ascii "@p", []⟩

def tokenShape : Shape := ⟨[dollar], [dollar]⟩

theorem read_without_trail {lead t : Text} (digits : t.takeWhile isDigit ≠ []) :
    (⟨lead, []⟩ : Shape).read? (lead ++ t) = some (t.takeWhile isDigit, t.dropWhile isDigit) := by
  refine Shape.read_eq_some.mpr ⟨⟨digits, digits_takeWhile t⟩, ?_, ?_⟩
  · exact no_digit_ahead_dropWhile t
  · rw [List.nil_append, List.takeWhile_append_dropWhile]

theorem no_digit_ahead_of_missed {lead t : Text}
    (missed : (⟨lead, []⟩ : Shape).read? (lead ++ t) = none) : NoDigitAhead t := by
  by_cases none : t.takeWhile isDigit = []
  · exact no_digit_ahead_of_takeWhile none
  · simp [read_without_trail none] at missed

-- A brought form begins with a dollar sign, and every other byte is one of the text.
theorem no_digit_ahead_rewrite (r : Reader Text) {t : Text} (ended : NoDigitAhead t) :
    NoDigitAhead (r.rewrite canonical t) := by
  cases t with
  | nil => rw [Reader.rewrite_nil]; exact no_digit_ahead_nil
  | cons c t =>
      cases front : r.read? (c :: t) with
      | none =>
          rw [Reader.rewrite_missed r canonical front]
          exact no_digit_ahead_cons.mpr (no_digit_ahead_cons.mp ended)
      | some next =>
          rw [Reader.rewrite_found r canonical front, canonical, List.cons_append]
          exact no_digit_ahead_cons.mpr (by decide)

theorem fill_postgres (values : List Text) (t : Text) :
    fillNumbered values (postgres.reader.rewrite canonical t) =
      postgres.reader.rewrite (shown values) t := by
  induction t using Reader.induction postgres.reader with
  | nil => rw [Reader.rewrite_nil, Reader.rewrite_nil, fill_nil]
  | found t digits rest front ih =>
      have number := (Shape.read_eq_some.mp front).1
      rw [Reader.rewrite_found _ _ front, Reader.rewrite_found _ _ front, fill_canonical _ _ number,
        ih]
  | missed c t front ih =>
      rw [Reader.rewrite_missed _ _ front, Reader.rewrite_missed _ _ front]
      by_cases sign : c = dollar
      · subst sign
        have ended : NoDigitAhead t := no_digit_ahead_of_missed front
        have alone := number_none_of_ended (no_digit_ahead_rewrite postgres.reader ended)
        rw [fill_dollar values alone, ih]
      · rw [fill_byte _ _ sign, ih]

theorem postgres_pattern :
    Regex.Pattern.ofText? (ascii "\\$(\\d+)") = some (Regex.shaped postgres) := by
  decide

theorem explain_shaped (shape : Shape) (plain : NoDigitAhead shape.trail) (literal : Literals)
    (escaper template : Text) (values : List Value) :
    explain literal (.numbered (Regex.shaped shape)) escaper template values =
      fillNumbered (values.map fun v => literal v escaper)
        (shape.reader.rewrite canonical template) := by
  rw [explain, fill, Regex.normalised_shaped plain]

/-- For the dollar-sign shape the two passes are one: a dollar sign and all digits after it stand
for the value with that number, and every other byte stays. -/
theorem explain_postgres (literal : Literals) (escaper template : Text) (values : List Value) :
    (Regex.Pattern.ofText? (ascii "\\$(\\d+)")).map
        (fun p => explain literal (.numbered p) escaper template values) =
      some (postgres.reader.rewrite (shown (values.map fun v => literal v escaper)) template) := by
  rw [postgres_pattern, Option.map_some, explain_shaped _ no_digit_ahead_nil, fill_postgres]

/-- What a template for the at-sign shape holds besides single bytes: a placeholder, a token of its
own, and a dollar sign with a number that stands right before a placeholder. -/
inductive Item where
  | placeholder (digits : Text)
  | token (digits : Text)
  | collision (first second : Text)
  deriving DecidableEq

namespace Item

def read? (t : Text) : Option (Item × Text) :=
  match sqlServer.read? t with
  | some (digits, rest) => some (placeholder digits, rest)
  | none =>
      match tokenShape.read? t with
      | some (digits, rest) => some (token digits, rest)
      | none =>
          (postgres.read? t).bind fun (first, t) =>
            (sqlServer.read? t).map fun (second, rest) => (collision first second, rest)

/-- The bytes of the template, with its placeholders written in some way. -/
def written (write : Text → Text) : Item → Text
  | placeholder digits => write digits
  | token digits => canonical digits
  | collision first second => dollar :: (first ++ write second)

/-- What the scan for tokens makes of the brought form. -/
def scanned (values : List Text) : Item → Text
  | placeholder digits => shown values digits
  | token digits => shown values digits
  | collision first second => shown values first ++ (second ++ [dollar])

inductive Reads : Text → Item → Text → Prop
  | placeholder {digits rest} (number : IsNumber digits) (ended : NoDigitAhead rest) :
      Reads (ascii "@p" ++ (digits ++ rest)) (placeholder digits) rest
  | token {digits rest} (number : IsNumber digits) :
      Reads (dollar :: (digits ++ dollar :: rest)) (token digits) rest
  | collision {first second rest} (one : IsNumber first) (two : IsNumber second)
      (ended : NoDigitAhead rest) :
      Reads (dollar :: (first ++ (ascii "@p" ++ (second ++ rest)))) (collision first second) rest

theorem reads_of_read {t rest : Text} {item : Item} (found : read? t = some (item, rest)) :
    Reads t item rest := by
  unfold read? at found
  split at found
  · next digits after front =>
      obtain ⟨number, ended, rfl⟩ := Shape.read_eq_some.mp front
      cases found
      exact .placeholder number ended
  · split at found
    · next digits after front =>
        obtain ⟨number, -, rfl⟩ := Shape.read_eq_some.mp front
        cases found
        exact .token number
    · simp only [Option.bind_eq_some_iff, Option.map_eq_some_iff, Prod.exists] at found
      obtain ⟨first, middle, front, second, after, behind, same⟩ := found
      obtain ⟨one, -, rfl⟩ := Shape.read_eq_some.mp front
      obtain ⟨two, ended, rfl⟩ := Shape.read_eq_some.mp behind
      cases same
      exact .collision one two ended

theorem Reads.shorter {t rest : Text} {item : Item} (reads : Reads t item rest) :
    rest.length < t.length := by
  cases reads with
  | placeholder number ended =>
      have longer := List.length_pos_iff.mpr number.nonempty
      simp only [List.length_append]
      omega
  | token number =>
      simp only [List.length_cons, List.length_append]
      omega
  | collision one two ended =>
      simp only [List.length_cons, List.length_append]
      omega

def reader : Reader Item := ⟨read?, fun found => (reads_of_read found).shorter⟩

theorem read_eq_none {t : Text} :
    read? t = none ↔ sqlServer.read? t = none ∧ tokenShape.read? t = none ∧
      ∀ first middle, postgres.read? t = some (first, middle) → sqlServer.read? middle = none := by
  unfold read?
  split
  · next front => simp [front]
  · next front =>
      split
      · next second => simp [second]
      · next second => simp [front, second]

end Item

theorem sqlServer_pattern :
    Regex.Pattern.ofText? (ascii "@p(\\d+)") = some (Regex.shaped sqlServer) := by
  decide

theorem sqlServer_missed {c : UInt8} (other : c ≠ atSign) (t : Text) :
    sqlServer.read? (c :: t) = none := by
  refine Shape.read_eq_none.mpr fun digits rest _ _ same => other ?_
  exact (List.cons.inj same).1

theorem rewrite_append (write : Text → Text) {before : Text} (absent : atSign ∉ before)
    (t : Text) :
    sqlServer.reader.rewrite write (before ++ t) =
      before ++ sqlServer.reader.rewrite write t := by
  induction before with
  | nil => rfl
  | cons c before ih =>
      obtain ⟨other, later⟩ := List.ne_and_not_mem_of_not_mem_cons absent
      have missed := sqlServer_missed other.symm (before ++ t)
      rw [List.cons_append, Reader.rewrite_missed _ _ missed, ih later, List.cons_append]

theorem sqlServer_found {digits rest : Text} (number : IsNumber digits)
    (ended : NoDigitAhead rest) :
    sqlServer.reader.read? (ascii "@p" ++ (digits ++ rest)) = some (digits, rest) :=
  Shape.read_eq_some.mpr ⟨number, ended, rfl⟩

theorem rewrite_sign (write : Text → Text) (t : Text) :
    sqlServer.reader.rewrite write (dollar :: t) =
      dollar :: sqlServer.reader.rewrite write t :=
  Reader.rewrite_missed _ _ (sqlServer_missed (by decide) t)

-- A placeholder is found wherever it stands, since no item cuts another short.
theorem rewrite_sqlServer (write : Text → Text) (t : Text) :
    sqlServer.reader.rewrite write t = Item.reader.rewrite (Item.written write) t := by
  induction t using Reader.induction Item.reader with
  | nil => rw [Reader.rewrite_nil, Reader.rewrite_nil]
  | found t item rest front ih =>
      rw [Reader.rewrite_found _ _ front, ← ih]
      cases Item.reads_of_read front with
      | placeholder number ended =>
          rw [Reader.rewrite_found _ _ (sqlServer_found number ended), Item.written]
      | token number =>
          rw [rewrite_sign, rewrite_append write (number.not_mem (by decide)), rewrite_sign,
            Item.written]
          simp [canonical]
      | collision one two ended =>
          rw [rewrite_sign, rewrite_append write (one.not_mem (by decide)),
            Reader.rewrite_found _ _ (sqlServer_found two ended), Item.written]
          simp
  | missed c t front ih =>
      have missed := (Item.read_eq_none.mp front).1
      rw [Reader.rewrite_missed _ _ missed, Reader.rewrite_missed _ _ front, ih]

/-- Where no item begins with a dollar sign, the brought form opens no token there either. -/
theorem number_none_of_missed {t : Text} (missed : Item.read? (dollar :: t) = none) :
    number? (sqlServer.reader.rewrite canonical t) = none := by
  obtain ⟨-, noToken, noCollision⟩ := Item.read_eq_none.mp missed
  have all := digits_takeWhile t
  have ended := no_digit_ahead_dropWhile t
  by_cases none : t.takeWhile isDigit = []
  · have aheadOfAll := no_digit_ahead_of_takeWhile none
    exact number_none_of_ended (no_digit_ahead_rewrite sqlServer.reader aheadOfAll)
  rw [← List.takeWhile_append_dropWhile (p := isDigit) (l := t),
    rewrite_append canonical (IsNumber.not_mem ⟨none, all⟩ (by decide))]
  refine number_none_of_digits all (no_digit_ahead_rewrite sqlServer.reader ended) ?_
  intro nonempty c front
  have opened : postgres.read? (dollar :: t) =
      some (t.takeWhile isDigit, t.dropWhile isDigit) := read_without_trail nonempty
  have unread := noCollision _ _ opened
  cases behind : t.dropWhile isDigit with
  | nil => simp [behind, Reader.rewrite_nil] at front
  | cons b rest =>
      rw [behind] at unread
      rw [behind, Reader.rewrite_missed _ _ unread, List.head?_cons, Option.mem_some] at front
      rintro rfl
      have parts := List.takeWhile_append_dropWhile (p := isDigit) (l := t)
      rw [behind, front] at parts
      have token : tokenShape.read? (dollar :: t) = some (t.takeWhile isDigit, rest) :=
        Shape.read_eq_some.mpr ⟨⟨nonempty, all⟩, no_digit_ahead_cons.mpr (by decide),
          congrArg (List.cons dollar) parts.symm⟩
      simp [noToken] at token

theorem fill_sqlServer (values : List Text) (t : Text) :
    fillNumbered values (sqlServer.reader.rewrite canonical t) =
      Item.reader.rewrite (Item.scanned values) t := by
  rw [rewrite_sqlServer]
  induction t using Reader.induction Item.reader with
  | nil => rw [Reader.rewrite_nil, Reader.rewrite_nil, fill_nil]
  | found t item rest front ih =>
      rw [Reader.rewrite_found _ _ front, Reader.rewrite_found _ _ front, ← ih]
      cases Item.reads_of_read front with
      | placeholder number ended =>
          rw [Item.written, fill_canonical _ _ number, Item.scanned]
      | token number => rw [Item.written, fill_canonical _ _ number, Item.scanned]
      | @collision first second _ one two ended =>
          -- The first number takes the sign of the second one, whose own is left over.
          have alone := number_none_of_ended (no_digit_ahead_rewrite sqlServer.reader ended)
          rw [rewrite_sqlServer] at alone
          have joined (later : Text) : dollar :: (first ++ canonical second) ++ later =
              canonical first ++ (second ++ dollar :: later) := by simp [canonical]
          rw [Item.written, joined, fill_canonical _ _ one,
            fill_append _ _ (two.not_mem (by decide)),
            fill_dollar values alone, Item.scanned]
          simp
  | missed c t front ih =>
      rw [Reader.rewrite_missed _ _ front, Reader.rewrite_missed _ _ front]
      by_cases sign : c = dollar
      · subst sign
        have alone := number_none_of_missed front
        rw [rewrite_sqlServer] at alone
        rw [fill_dollar values alone, ih]
      · rw [fill_byte _ _ sign, ih]

end BoundSql.Template

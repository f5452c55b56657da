import BoundSql.Template
import BoundSql.Proofs.Tokens

/-!
Filling a template is splicing. What a template asks for is settled by its own bytes and by how
many values there are: a plan of literal pieces and of slots. The texts of the values go into the
slots as they are. Nothing in them is searched for placeholders, and nothing in them moves the
place of another value.
-/

namespace BoundSql.Template

open Text

/-- Bytes that are known beforehand, or the place of one of `n` values. -/
inductive Piece (n : Nat) where
  | literal (t : Text)
  | slot (index : Fin n)
  deriving DecidableEq

variable {n : Nat}

def Piece.text (literals : Fin n → Text) : Piece n → Text
  | literal t => t
  | slot index => literals index

def Piece.slot? : Piece n → Option (Fin n)
  | literal _ => none
  | slot index => some index

def spliced (pieces : List (Piece n)) (literals : Fin n → Text) : Text :=
  pieces.flatMap (Piece.text literals)

def slots (pieces : List (Piece n)) : List (Fin n) := pieces.filterMap Piece.slot?

def markPiece (n index : Nat) : Piece n :=
  if inside : index < n then .slot ⟨index, inside⟩ else .literal [questionMark]

/-- The cuts of a template in order, with a mark between each two of them. -/
def woven (n : Nat) : Nat → List Text → List (Piece n)
  | _, [] => []
  | _, [cut] => [.literal cut]
  | index, cut :: next :: later =>
      .literal cut :: markPiece n index :: woven n (index + 1) (next :: later)

def tokenPiece (n : Nat) : Token → Piece n
  | .byte c => .literal [c]
  | .number digits =>
      if inside : 1 ≤ Numeral.value digits ∧ Numeral.value digits ≤ n then
        .slot ⟨Numeral.value digits - 1, Nat.sub_one_lt_of_le inside.1 inside.2⟩
      else .literal (canonical digits)

def plan (placeholders : Placeholders) (n : Nat) (template : Text) : List (Piece n) :=
  match placeholders with
  | .marks => woven n 0 (template.splitOn questionMark)
  | .numbered p => (tokens (normalised p template)).map (tokenPiece n)

theorem spliced_cons (piece : Piece n) (pieces : List (Piece n)) (literals : Fin n → Text) :
    spliced (piece :: pieces) literals = piece.text literals ++ spliced pieces literals :=
  List.flatMap_cons

-- A byte in front of a template without a mark there belongs to the first cut.
theorem spliced_woven_cons (index : Nat) (c : UInt8) (cut : Text) (later : List Text)
    (literals : Fin n → Text) :
    spliced (woven n index ((c :: cut) :: later)) literals =
      c :: spliced (woven n index (cut :: later)) literals := by
  cases later <;> rfl

theorem drop_ofFn (literals : Fin n → Text) (index : Nat) :
    (List.ofFn literals).drop index =
      if inside : index < n then
        literals ⟨index, inside⟩ :: (List.ofFn literals).drop (index + 1)
      else [] := by
  by_cases inside : index < n
  · rw [dif_pos inside, List.drop_eq_getElem_cons (by simpa using inside), List.getElem_ofFn]
  · rw [dif_neg inside]
    exact List.drop_eq_nil_of_le (by simpa using inside)

-- The values before `index` are used up, and as many marks have been passed.
theorem fill_marks_woven (literals : Fin n → Text) (template : Text) (index : Nat) :
    fillMarks template ((List.ofFn literals).drop index) =
      spliced (woven n index (template.splitOn questionMark)) literals := by
  induction template generalizing index with
  | nil => rfl
  | cons c t ih =>
      obtain ⟨cut, later, cuts⟩ := List.exists_cons_of_ne_nil (t.splitOn_ne_nil questionMark)
      rw [List.splitOn_cons_eq_if_modifyHead]
      by_cases mark : c = questionMark
      · rw [if_pos (by simpa using mark), cuts, woven, spliced_cons, spliced_cons, ← cuts, ← ih,
          drop_ofFn]
        by_cases inside : index < n
        · simp [inside, markPiece, fillMarks, mark, Piece.text]
        · have used : (List.ofFn literals).drop (index + 1) = [] :=
            List.drop_eq_nil_of_le (by simp; omega)
          simp [inside, markPiece, fillMarks, mark, Piece.text, used]
      · rw [if_neg (by simpa using mark), cuts, List.modifyHead_cons, spliced_woven_cons, ← cuts,
          ← ih]
        cases (List.ofFn literals).drop index with
        | nil => rfl
        | cons v values => rw [fillMarks, if_neg mark]

theorem fill_token_piece (literals : Fin n → Text) (token : Token) :
    fillToken (List.ofFn literals) token = (tokenPiece n token).text literals := by
  cases token with
  | byte c => rfl
  | number digits =>
      rw [fill_token_number, shown, tokenPiece]
      by_cases inside : 1 ≤ Numeral.value digits ∧ Numeral.value digits ≤ n
      · simp [inside, Piece.text]
      · simp [inside, Piece.text]

theorem fill_spliced (placeholders : Placeholders) (literals : Fin n → Text) (template : Text) :
    fill placeholders (List.ofFn literals) template =
      spliced (plan placeholders n template) literals := by
  cases placeholders with
  | marks => exact fill_marks_woven literals template 0
  | numbered p =>
      have each : fillToken (List.ofFn literals) = Piece.text literals ∘ tokenPiece n :=
        funext (fill_token_piece literals)
      rw [fill, fillNumbered, plan, spliced, List.flatMap_map, each]
      rfl

theorem length_cuts (template : Text) :
    (template.splitOn questionMark).length = template.count questionMark + 1 := by
  induction template with
  | nil => rfl
  | cons c t ih =>
      rw [List.splitOn_cons_eq_if_modifyHead, List.count_cons]
      split <;> simp [ih]

theorem slots_woven (index : Nat) (cut : Text) (later : List Text) :
    (slots (woven n index (cut :: later))).map Fin.val =
      List.range' index (min later.length (n - index)) := by
  induction later generalizing index cut with
  | nil => simp [woven, slots, Piece.slot?]
  | cons next later ih =>
      have tail := ih (index + 1) next
      by_cases inside : index < n
      · have more : min (later.length + 1) (n - index) =
            min later.length (n - (index + 1)) + 1 := by omega
        simp only [slots, woven, markPiece, inside, ↓reduceDIte, List.filterMap_cons, Piece.slot?,
          List.map_cons, List.length_cons, more, List.range'_succ] at tail ⊢
        rw [tail]
      · have none : n - index = 0 := by omega
        have noneLater : n - (index + 1) = 0 := by omega
        simp only [slots, woven, markPiece, inside, ↓reduceDIte, List.filterMap_cons, Piece.slot?,
          none, noneLater, Nat.min_zero, List.range'_zero] at tail ⊢
        rw [tail]

theorem slots_marks (template : Text) :
    (slots (plan .marks n template)).map Fin.val =
      List.range (min (template.count questionMark) n) := by
  obtain ⟨cut, later, cuts⟩ := List.exists_cons_of_ne_nil (template.splitOn_ne_nil questionMark)
  have counted := length_cuts template
  rw [cuts, List.length_cons] at counted
  rw [plan, cuts, slots_woven, List.range_eq_range', Nat.sub_zero, Nat.add_right_cancel counted]

theorem fill_marks_with_marks (template : Text) (n : Nat) :
    fillMarks template (List.replicate n [questionMark]) = template := by
  induction template generalizing n with
  | nil => rfl
  | cons c t ih =>
      cases n with
      | zero => exact fillMarks_nil _
      | succ n =>
          rw [List.replicate_succ, fillMarks]
          split
          · next mark => rw [ih, mark, List.singleton_append]
          · rw [← List.replicate_succ, ih]

-- Every slot stands where the template has a mark.
theorem spliced_marks (template : Text) :
    spliced (plan .marks n template) (fun _ => [questionMark]) = template := by
  have marks : List.ofFn (fun _ : Fin n => [questionMark]) =
      List.replicate n [questionMark] := by
    apply List.ext_getElem <;> simp
  rw [← fill_spliced, fill, marks, fill_marks_with_marks]

/-- The plan is fixed before the values, their escaper and the way they are shown are known.
Question marks take the values in order, each once, and the marks that are left stay. -/
theorem explain_spliced (template : Text) (n : Nat) :
    (∀ (placeholders : Placeholders) (literal : Literals) (escaper : Text)
        (values : Vector Value n),
      explain literal placeholders escaper template values.toList =
        spliced (plan placeholders n template) fun index => literal values[index] escaper) ∧
    plan .marks n template = woven n 0 (template.splitOn questionMark) ∧
    (slots (plan .marks n template)).map Fin.val =
      List.range (min (template.count questionMark) n) ∧
    spliced (plan .marks n template) (fun _ => [questionMark]) = template ∧
    ∀ (literal : Literals) (escaper : Text),
      explain literal .marks escaper template [] = template := by
  refine ⟨?_, rfl, slots_marks template, spliced_marks template,
    fun _ _ => fillMarks_nil template⟩
  intro placeholders literal escaper values
  have listed : values.toList.map (fun v => literal v escaper) =
      List.ofFn fun index : Fin n => literal values[index] escaper := by
    apply List.ext_getElem <;> simp
  rw [explain, listed, fill_spliced]

end BoundSql.Template

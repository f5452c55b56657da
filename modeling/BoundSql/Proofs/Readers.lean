import BoundSql.Proofs.Tokens

/-!
One pass over a text. A reader recognises something at the front of a text and gives what follows
it. A pass goes from left to right, writes what is read in its own way, and copies each byte at
which nothing is read. Placeholders are read by their shape: a number between two fixed texts.
-/

namespace BoundSql.Template

open Text

structure Reader (α : Type) where
  read? : Text → Option (α × Text)
  shorter : ∀ {t item rest}, read? t = some (item, rest) → rest.length < t.length

namespace Reader

variable {α : Type}

def rewrite (r : Reader α) (write : α → Text) : Text → Text
  | [] => []
  | c :: t =>
      match _found : r.read? (c :: t) with
      | some (item, rest) => write item ++ r.rewrite write rest
      | none => c :: r.rewrite write t
termination_by t => t.length
decreasing_by
  · exact r.shorter _found
  · simp

/-- What holds at the end, and is kept by an item and by a byte that begins none, holds always. -/
@[elab_as_elim]
theorem induction (r : Reader α) {motive : Text → Prop} (nil : motive [])
    (found : ∀ t item rest, r.read? t = some (item, rest) → motive rest → motive t)
    (missed : ∀ c t, r.read? (c :: t) = none → motive t → motive (c :: t)) (t : Text) :
    motive t := by
  induction size : t.length using Nat.strongRecOn generalizing t with
  | ind size ih =>
      subst size
      cases t with
      | nil => exact nil
      | cons c t =>
          cases front : r.read? (c :: t) with
          | none => exact missed c t front (ih t.length (by simp) t rfl)
          | some next => exact found _ next.1 next.2 front (ih _ (r.shorter front) _ rfl)

variable (r : Reader α) (write : α → Text)

theorem read_nil : r.read? [] = none := by
  cases front : r.read? [] with
  | none => rfl
  | some next => exact absurd (r.shorter front) (by simp)

theorem rewrite_nil : r.rewrite write [] = [] := by rw [rewrite]

theorem rewrite_found {t rest : Text} {item : α} (found : r.read? t = some (item, rest)) :
    r.rewrite write t = write item ++ r.rewrite write rest := by
  cases t with
  | nil => exact absurd (r.shorter found) (by simp)
  | cons c t =>
      rw [rewrite]
      split
      · next front =>
          simp only [found, Option.some.injEq, Prod.mk.injEq] at front
          rw [front.1, front.2]
      · next front => simp [found] at front

theorem rewrite_missed {c : UInt8} {t : Text} (missed : r.read? (c :: t) = none) :
    r.rewrite write (c :: t) = c :: r.rewrite write t := by
  rw [rewrite]
  split
  · next front => simp [missed] at front
  · rfl

variable {r write} in
/-- A pass that writes each item as it has been read gives the text back. -/
theorem rewrite_source (source : ∀ {t item rest}, r.read? t = some (item, rest) →
    t = write item ++ rest) (t : Text) : r.rewrite write t = t := by
  induction t using Reader.induction r with
  | nil => exact r.rewrite_nil write
  | found t item rest front ih => rw [r.rewrite_found write front, ih, ← source front]
  | missed c t front ih => rw [r.rewrite_missed write front, ih]

/-- The items that a pass over the text reads. -/
inductive Meets (r : Reader α) : Text → α → Prop
  | here {t item rest} (found : r.read? t = some (item, rest)) : Meets r t item
  | after {t other rest item} (found : r.read? t = some (other, rest))
      (later : Meets r rest item) : Meets r t item
  | past {c t item} (missed : r.read? (c :: t) = none) (later : Meets r t item) :
      Meets r (c :: t) item

variable {r}

theorem rewrite_congr {t : Text} {write write' : α → Text}
    (same : ∀ item, r.Meets t item → write item = write' item) :
    r.rewrite write t = r.rewrite write' t := by
  induction t using Reader.induction r with
  | nil => rw [rewrite_nil, rewrite_nil]
  | found t item rest front ih =>
      rw [rewrite_found _ _ front, rewrite_found _ _ front, same item (.here front),
        ih fun other later => same other (.after front later)]
  | missed c t front ih =>
      rw [rewrite_missed _ _ front, rewrite_missed _ _ front,
        ih fun other later => same other (.past front later)]

/-- Two ways to write an item that differ at once, whatever follows, are told apart by the pass. -/
theorem rewrite_injective {t : Text} {write write' : α → Text}
    (apart : ∀ item, write item = write' item ∨
      ∀ later later' : Text, write item ++ later ≠ write' item ++ later')
    (same : r.rewrite write t = r.rewrite write' t) :
    ∀ item, r.Meets t item → write item = write' item := by
  intro item meets
  induction meets with
  | @here t item rest found =>
      rw [rewrite_found _ _ found, rewrite_found _ _ found] at same
      exact (apart item).resolve_right fun different => different _ _ same
  | @after t other rest item found _ ih =>
      rw [rewrite_found _ _ found, rewrite_found _ _ found] at same
      have equal := (apart other).resolve_right fun different => different _ _ same
      rw [equal] at same
      exact ih (List.append_cancel_left same)
  | past missed _ ih =>
      rw [rewrite_missed _ _ missed, rewrite_missed _ _ missed] at same
      exact ih (List.cons.inj same).2

end Reader

/-- A number is written between `lead` and `trail`. -/
structure Shape where
  lead : Text
  trail : Text
  deriving DecidableEq

namespace Shape

variable {s : Shape} {t digits rest : Text}

def read? (s : Shape) (t : Text) : Option (Text × Text) := do
  let t ← after? s.lead t
  let rest ← after? s.trail (t.dropWhile isDigit)
  if (t.takeWhile isDigit).isEmpty then none else some (t.takeWhile isDigit, rest)

-- The digits are all that there are, so what follows them begins with none.
theorem read_eq_some :
    s.read? t = some (digits, rest) ↔
      IsNumber digits ∧ NoDigitAhead (s.trail ++ rest) ∧
        t = s.lead ++ (digits ++ (s.trail ++ rest)) := by
  simp only [read?, Option.bind_eq_bind, Option.bind_eq_some_iff, after?_eq_some]
  constructor
  · rintro ⟨middle, rfl, later, trailed, found⟩
    by_cases none : middle.takeWhile isDigit = []
    · simp [none] at found
    · simp only [List.isEmpty_iff, none, ↓reduceIte, Option.some.injEq, Prod.mk.injEq] at found
      obtain ⟨rfl, rfl⟩ := found
      refine ⟨⟨none, digits_takeWhile middle⟩, trailed ▸ no_digit_ahead_dropWhile middle, ?_⟩
      rw [← trailed, List.takeWhile_append_dropWhile]
  · rintro ⟨number, ended, rfl⟩
    refine ⟨_, rfl, rest, dropWhile_digits number.digits ended, ?_⟩
    simp [takeWhile_digits number.digits ended, number.nonempty]

theorem read_after_lead {later : Text} (lead : after? s.lead t = some later)
    (digits : later.takeWhile isDigit ≠ []) :
    s.read? t = (after? s.trail (later.dropWhile isDigit)).map fun rest =>
      (later.takeWhile isDigit, rest) := by
  rw [read?, lead, Option.bind_eq_bind, Option.bind_some]
  cases after? s.trail (later.dropWhile isDigit) with
  | none => rfl
  | some rest => exact if_neg (by simpa only [List.isEmpty_iff] using digits)

theorem read_shorter (found : s.read? t = some (digits, rest)) : rest.length < t.length := by
  obtain ⟨number, -, rfl⟩ := read_eq_some.mp found
  have longer := List.length_pos_iff.mpr number.nonempty
  simp only [List.length_append]
  omega

def reader (s : Shape) : Reader Text := ⟨s.read?, read_shorter⟩

theorem read_eq_none :
    s.read? t = none ↔
      ∀ digits rest, IsNumber digits → NoDigitAhead (s.trail ++ rest) →
        t ≠ s.lead ++ (digits ++ (s.trail ++ rest)) := by
  rw [Option.eq_none_iff_forall_ne_some]
  constructor
  · intro missed digits rest number ended same
    exact missed _ (read_eq_some.mpr ⟨number, ended, same⟩)
  · rintro never ⟨digits, rest⟩ found
    obtain ⟨number, ended, same⟩ := read_eq_some.mp found
    exact never _ _ number ended same

end Shape

end BoundSql.Template

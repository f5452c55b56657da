import BoundSql.Formatter
import Mathlib.Logic.Function.Iterate

/-!
Following a value to the one beneath it. Each way to go on, by a reference, a driver's answer or a
conversion, is one step, and the bound counts steps of all kinds alike. A value whose chain ends
within the bound is shown as the end of the chain is; a longer chain, or one that never ends, is
shown as null.
-/

namespace BoundSql.Formatter

inductive Unwraps (f : Formatter) : Value → Value → Prop
  | reference {v} : Unwraps f (.reference (some v)) v
  | driver {v} : Unwraps f (.driver (some (.value v))) v
  | object {g v} (answers : g.driver = some (.value v)) : Unwraps f (.generic (some g)) v
  /-- The first conversion in order that gives a value of its own kind. -/
  | conversion {g before kind after v} (plain : g.driver = none)
      (order : f.conversions = before ++ kind :: after)
      (refused : ∀ earlier ∈ before, ∀ u, g.convert earlier = some u → accepts earlier u = false)
      (converts : g.convert kind = some v) (fits : accepts kind v = true) :
      Unwraps f (.generic (some g)) v
  /-- A chain without end leads on as its first layer does. -/
  | endless {layers v} (first : Unwraps f (Value.opened layers) v) : Unwraps f (.endless layers) v

/-- So many steps lead from the one value to the other. -/
inductive Follows (f : Formatter) : Nat → Value → Value → Prop
  | stay {v} : Follows f 0 v v
  | step {k v u w} (first : Unwraps f v u) (others : Follows f k u w) : Follows f (k + 1) v w

def IsLast (f : Formatter) (v : Value) : Prop := ∀ u, ¬ Unwraps f v u

/-- A driver that does not give a value. -/
inductive Refuses : Value → Prop
  | driver {reason} : Refuses (.driver (some (.failed reason)))
  | object {g reason} (answers : g.driver = some (.failed reason)) : Refuses (.generic (some g))

/-- How a value is shown that leads to no other. -/
def plain (f : Formatter) (home : Zone) (escaper : Text) : Value → Text
  | .bool b => bool b
  | .time t => f.time home escaper t
  | .maybeTime (some t) => f.time home escaper t
  | .stringer (some s) => stringer escaper s
  | .bytes b => bytes escaper b
  | .int n => int n
  | .uint n => uint n
  | .single bits => Shortest.singleText bits
  | .double bits => Shortest.doubleText bits
  | .text t => Quoted.escape escaper t
  | .generic (some g) => if g.driver.isSome then f.nullLiteral else Quoted.escape escaper g.text
  | _ => f.nullLiteral

/-- The value that an answer gives. -/
def beneath? : Answer Value → Option Value
  | .value v => some v
  | .failed _ => none

def unwrap? (f : Formatter) : Value → Option Value
  | .reference target => target
  | .driver answer => answer.bind beneath?
  | .generic (some g) =>
      match g.driver with
      | some answer => beneath? answer
      | none => converted? g f.conversions
  | .endless layers => some (.endless fun n => layers (n + 1))
  | _ => none

variable {f : Formatter} {home : Zone} {escaper : Text} {v u w : Value}

theorem converted_eq_some {g : Generic Value} {order : List Convertible} :
    converted? g order = some v ↔
      ∃ before kind after, order = before ++ kind :: after ∧
        (g.convert kind = some v ∧ accepts kind v = true) ∧
        ∀ earlier ∈ before, ∀ u, g.convert earlier = some u → accepts earlier u = false := by
  simp [converted?, List.findSome?_eq_some_iff]

/-- Whatever the first layer is, there is one step, and it leads to the others. -/
theorem unwraps_opened {layers : Nat → Layer} :
    f.Unwraps (Value.opened layers) u ↔ u = .endless fun n => layers (n + 1) := by
  rw [Value.opened]
  cases layers 0 with
  | reference =>
      constructor
      · rintro ⟨⟩
        rfl
      · rintro rfl
        exact .reference
  | driver =>
      constructor
      · rintro ⟨⟩
        rfl
      · rintro rfl
        exact .driver
  | object =>
      constructor
      · intro step
        cases step with
        | object answers => exact (Answer.value.inj (Option.some.inj answers)).symm
        | conversion plain => cases plain
      · rintro rfl
        exact .object rfl

theorem unwrap_eq_some : f.unwrap? v = some u ↔ f.Unwraps v u := by
  constructor
  · intro found
    match v with
    | .reference (some target) =>
        obtain rfl := Option.some.inj found
        exact .reference
    | .driver (some (.value _)) =>
        obtain rfl := Option.some.inj found
        exact .driver
    | .endless layers => exact .endless (unwraps_opened.mpr (Option.some.inj found).symm)
    | .generic (some g) =>
        cases answers : g.driver with
        | none =>
            simp only [unwrap?, answers] at found
            obtain ⟨before, kind, after, order, ⟨converts, fits⟩, refused⟩ :=
              converted_eq_some.mp found
            exact .conversion answers order refused converts fits
        | some answer =>
            simp only [unwrap?, answers] at found
            cases answer with
            | value _ =>
                obtain rfl := Option.some.inj found
                exact .object answers
            | failed _ => cases found
  · intro step
    cases step with
    | reference => rfl
    | driver => rfl
    | object answers => simp [unwrap?, answers, beneath?]
    | endless first => rw [unwraps_opened.mp first, unwrap?]
    | conversion plain order refused converts fits =>
        simp only [unwrap?, plain]
        exact converted_eq_some.mpr ⟨_, _, _, order, ⟨converts, fits⟩, refused⟩

theorem isLast_iff : f.IsLast v ↔ f.unwrap? v = none := by
  simp only [IsLast, ← unwrap_eq_some, Option.eq_none_iff_forall_ne_some, ne_eq]

/-- What one round does, for every kind of value. -/
theorem literal_round (left : Nat) :
    f.literal home escaper (left + 1) v =
      match f.unwrap? v with
      | some u => f.literal home escaper left u
      | none => f.plain home escaper v := by
  match v with
  | .null | .bool _ | .time _ | .bytes _ | .int _ | .uint _ | .single _ | .double _ | .text _ => rfl
  | .maybeTime none | .maybeTime (some _) => rfl
  | .stringer none | .stringer (some _) => rfl
  | .reference none | .reference (some _) => rfl
  | .driver none | .driver (some (.value _)) | .driver (some (.failed _)) => rfl
  | .endless _ => rfl
  | .generic none => rfl
  | .generic (some g) =>
      simp only [literal, unwrap?, plain]
      cases g.driver with
      | some answer => cases answer <;> rfl
      | none => cases converted? g f.conversions <;> rfl

theorem literal_step (left : Nat) (step : f.Unwraps v u) :
    f.literal home escaper (left + 1) v = f.literal home escaper left u := by
  rw [literal_round, unwrap_eq_some.mpr step]

theorem literal_last (left : Nat) (last : f.IsLast v) :
    f.literal home escaper (left + 1) v = f.plain home escaper v := by
  rw [literal_round, isLast_iff.mp last]

theorem literal_follows {k : Nat} (left : Nat) (follows : f.Follows k v w) :
    f.literal home escaper (k + left) v = f.literal home escaper left w := by
  induction follows with
  | stay => rw [Nat.zero_add]
  | step first _ ih => rw [Nat.succ_add, literal_step _ first, ih]

/-- Every chain ends within the bound or goes beyond it. -/
theorem last_or_follows (f : Formatter) (n : Nat) (v : Value) :
    (∃ k w, k ≤ n ∧ f.Follows k v w ∧ f.IsLast w) ∨ ∃ w, f.Follows (n + 1) v w := by
  induction n generalizing v with
  | zero =>
      cases next : f.unwrap? v with
      | none => exact .inl ⟨0, v, Nat.le_refl 0, .stay, isLast_iff.mpr next⟩
      | some u => exact .inr ⟨u, .step (unwrap_eq_some.mp next) .stay⟩
  | succ n ih =>
      cases next : f.unwrap? v with
      | none => exact .inl ⟨0, v, Nat.zero_le _, .stay, isLast_iff.mpr next⟩
      | some u =>
          have first := unwrap_eq_some.mp next
          rcases ih u with ⟨k, w, within, others, last⟩ | ⟨w, others⟩
          · exact .inl ⟨k + 1, w, Nat.succ_le_succ within, .step first others, last⟩
          · exact .inr ⟨w, .step first others⟩

theorem last_of_absent (absent : v.isAbsent = true) : f.IsLast v := by
  refine isLast_iff.mpr ?_
  match v with
  | .null | .maybeTime none | .stringer none => rfl
  | .driver none | .reference none | .generic none => rfl

theorem plain_null (missing : w.isAbsent = true ∨ Refuses w) :
    f.plain home escaper w = f.nullLiteral := by
  rcases missing with absent | refuses
  · match w with
    | .null | .maybeTime none | .stringer none => rfl
    | .driver none | .reference none | .generic none => rfl
  · cases refuses with
    | driver => rfl
    | object answers => simp [plain, answers]

theorem format_last {k : Nat} (within : k ≤ 32) (follows : f.Follows k v w) (last : f.IsLast w) :
    f.format home v escaper = f.plain home escaper w := by
  have rounds : maxSteps + 1 = k + ((32 - k) + 1) := by
    simp only [maxSteps]
    omega
  rw [format, rounds, literal_follows _ follows, literal_last _ last]

theorem format_beyond (follows : f.Follows 33 v w) :
    f.format home v escaper = f.nullLiteral :=
  literal_follows 0 follows

theorem follows_endless (k : Nat) (layers : Nat → Layer) :
    f.Follows k (.endless layers) (.endless fun n => layers (n + k)) := by
  induction k generalizing layers with
  | zero => exact .stay
  | succ k ih =>
      have others := ih fun n => layers (n + 1)
      simp only [Nat.add_assoc] at others
      exact .step (.endless (unwraps_opened.mpr rfl)) others

/-- Whatever a chain without end is made of, it is shown as null. -/
theorem format_endless (layers : Nat → Layer) :
    f.format home (.endless layers) escaper = f.nullLiteral :=
  format_beyond (follows_endless 33 layers)

/-- Objects by name, each of which is one layer around the object of another name. Where the names
come back, the objects form a cycle. -/
def named {Name : Type} (layer : Name → Layer) (next : Name → Name) (name : Name) : Value :=
  .endless fun n => layer (next^[n] name)

theorem opened_named {Name : Type} (layer : Name → Layer) (next : Name → Name) (name : Name) :
    Value.opened (fun n => layer (next^[n] name)) =
      (layer name).around (named layer next (next name)) :=
  rfl

/-- So objects that lead to each other in a circle are shown as null, whichever comes first. -/
theorem format_named {Name : Type} (layer : Name → Layer) (next : Name → Name) (name : Name) :
    f.format home (named layer next name) escaper = f.nullLiteral :=
  format_endless _

/-- A chain of at most 32 steps shows its last value, and a longer one is null. Whatever the kinds
of its steps, every value has a chain of the one sort or the other. -/
theorem format_follows (f : Formatter) (home : Zone) (escaper : Text) (v : Value) :
    (∀ k w, k ≤ 32 → f.Follows k v w → f.IsLast w →
      f.format home v escaper = f.plain home escaper w ∧
        (w.isAbsent = true ∨ Refuses w → f.format home v escaper = f.nullLiteral)) ∧
    (∀ w, f.Follows 33 v w → f.format home v escaper = f.nullLiteral) ∧
    ((∃ k w, k ≤ 32 ∧ f.Follows k v w ∧ f.IsLast w) ∨ ∃ w, f.Follows 33 v w) ∧
    (v.isAbsent = true → f.format home v escaper = f.nullLiteral) ∧
    ∀ k u w, f.Unwraps u v → k < 32 → f.Follows k v w → f.IsLast w →
      f.format home u escaper = f.format home v escaper := by
  refine ⟨?_, fun w => format_beyond, last_or_follows f 32 v, ?_, ?_⟩
  · intro k w within follows last
    have shownAs : f.format home v escaper = f.plain home escaper w :=
      format_last within follows last
    exact ⟨shownAs, fun missing => shownAs.trans (plain_null missing)⟩
  · intro absent
    rw [format_last (Nat.zero_le 32) .stay (last_of_absent absent), plain_null (.inl absent)]
  · intro k u w wrapped within follows last
    rw [format_last (Nat.le_of_lt within) follows last,
      format_last (Nat.succ_le_of_lt within) (.step wrapped follows) last]

/-- Two steps for each layer, one of either kind. -/
def layered : Nat → Value → Value
  | 0, v => v
  | n + 1, v => .reference (some (.driver (some (.value (layered n v)))))

theorem follows_layered (n : Nat) : f.Follows (2 * n) (layered n v) v := by
  induction n with
  | zero => exact .stay
  | succ n ih => exact .step .reference (.step .driver ih)

/-- Sixteen layers are still seen through, and one reference more is too much. -/
theorem format_layered_sixteen :
    ({} : Formatter).format .universal (layered 16 (.bool true)) [] = Text.ascii "true" ∧
      ({} : Formatter).format .universal (.reference (some (layered 16 (.bool true)))) [] =
        Text.ascii "NULL" := by
  have last : ({} : Formatter).IsLast (.bool true) := isLast_iff.mpr rfl
  have within := (format_follows {} .universal [] (layered 16 (.bool true))).1
  have beyond := (format_follows {} .universal [] (.reference (some (layered 16 (.bool true))))).2.1
  exact ⟨(within 32 _ (Nat.le_refl 32) (follows_layered 16) last).1,
    beyond _ (.step .reference (follows_layered 16))⟩

end BoundSql.Formatter

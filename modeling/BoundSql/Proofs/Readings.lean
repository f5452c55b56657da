import BoundSql.Proofs.Rules

/-!
The readers of the keys serve their rules: they accept what has a meaning and nothing else, and
change the part of the settings that the rule is about and no other.
-/

namespace BoundSql.Settings

open Text

section

variable {ε α β : Type}

theorem bind_eq_ok {x : Except ε α} {f : α → Except ε β} {b : β} :
    (x >>= f) = .ok b ↔ ∃ a, x = .ok a ∧ f a = .ok b := by
  cases x <;> simp [bind, Except.bind]

theorem pure_eq_ok {a b : α} : (pure a : Except ε α) = .ok b ↔ b = a := by
  simp [pure, Except.pure, eq_comm]

end

namespace Key

variable {dialect : Dialect} {d : Document} {change : Change}

theorem scalar_eq_ok {t : Text} : scalar d = .ok t ↔ d = .scalar t := by
  cases d <;> simp [scalar]

theorem text_read {put : Text → Change} :
    (scalar d >>= fun t => pure (put t)) = .ok change ↔
      ∃ t, Meaning.text d t ∧ change = put t := by
  simp only [bind_eq_ok, scalar_eq_ok, pure_eq_ok, Meaning.text]

/-- A reader of scalars, whatever it says of those that it does not accept. -/
theorem scalar_read {α β : Type} {read? : Text → Option α} {f : Text → Except Problem β}
    {put : α → β} {b : β} (takes : ∀ t a, read? t = some a → f t = .ok (put a))
    (refuses : ∀ t, read? t = none → ∃ problem, f t = .error problem) :
    (scalar d >>= f) = .ok b ↔ ∃ a, Meaning.scalar read? d a ∧ b = put a := by
  rw [bind_eq_ok]
  constructor
  · rintro ⟨t, text, read⟩
    cases found : read? t with
    | none =>
        obtain ⟨problem, refused⟩ := refuses t found
        rw [refused] at read
        cases read
    | some a =>
        rw [takes t a found] at read
        exact ⟨a, ⟨t, scalar_eq_ok.mp text, found⟩, (Except.ok.inj read).symm⟩
  · rintro ⟨a, ⟨t, text, found⟩, rfl⟩
    exact ⟨t, scalar_eq_ok.mpr text, takes t a found⟩

theorem converted_eq_ok {α : Type} {read? : Text → Option α} {a : α} :
    converted read? d = .ok a ↔ Meaning.scalar read? d a := by
  have read : converted read? d = .ok a ↔ ∃ b, Meaning.scalar read? d b ∧ a = id b := by
    apply scalar_read
    · intro t a found
      rw [found]
      rfl
    · intro t missing
      exact ⟨_, by rw [missing]⟩
  simpa using read

theorem converted_read {α : Type} {read? : Text → Option α} {put : α → Change} :
    (converted read? d >>= fun a => pure (put a)) = .ok change ↔
      ∃ a, Meaning.scalar read? d a ∧ change = put a := by
  simp only [bind_eq_ok, converted_eq_ok, pure_eq_ok]

theorem fractionDigits_read : fractionDigits dialect d = .ok change ↔
    ∃ n, Meaning.digits dialect d n ∧ change = onFormatter ({ · with fractionDigits := n }) := by
  rw [fractionDigits, bind_eq_ok]
  constructor
  · rintro ⟨n, meant, read⟩
    split at read
    · next inside =>
        simp only [Bool.and_eq_true, decide_eq_true_eq] at inside
        obtain ⟨k, rfl⟩ := Int.eq_ofNat_of_zero_le inside.1
        have small : k ≤ 9 := Int.ofNat_le.mp inside.2
        exact ⟨k, ⟨small, converted_eq_ok.mp meant⟩, pure_eq_ok.mp read⟩
    · cases read
  · rintro ⟨n, ⟨small, meant⟩, rfl⟩
    have inside : (0 ≤ (n : Int) && (n : Int) ≤ 9) = true := by
      simp only [Bool.and_eq_true, decide_eq_true_eq]
      omega
    exact ⟨n, converted_eq_ok.mpr meant, by rw [if_pos inside]; rfl⟩

theorem clock_read : clock d = .ok change ↔
    ∃ c, Meaning.clock d c ∧ change = onFormatter ({ · with clock := c }) := by
  simp only [Meaning.clock_iff]
  apply scalar_read
  · intro t c found
    rw [found]
    rfl
  · intro t missing
    exact ⟨_, by rw [missing]⟩

theorem nullLiteral_read : nullLiteral d = .ok change ↔
    ∃ t, Meaning.nonEmpty d t ∧ change = onFormatter ({ · with nullLiteral := t }) := by
  rw [nullLiteral, bind_eq_ok]
  constructor
  · rintro ⟨t, text, read⟩
    cases t with
    | nil => cases read
    | cons c t => exact ⟨c :: t, ⟨scalar_eq_ok.mp text, List.cons_ne_nil c t⟩, pure_eq_ok.mp read⟩
  · rintro ⟨t, ⟨text, some⟩, rfl⟩
    obtain ⟨c, t, rfl⟩ := List.exists_cons_of_ne_nil some
    exact ⟨c :: t, scalar_eq_ok.mpr text, rfl⟩

/-- An item that is null counts as an empty name, which is the name of no kind. -/
theorem convertible_read {c : Convertible} : convertible d = .ok c ↔ Meaning.convertible d c := by
  rw [Meaning.convertible_iff]
  cases d with
  | null =>
      have unknown : convertible? [] = none := by decide
      simp [convertible, bind_eq_ok, unknown, Meaning.scalar]
  | scalar t =>
      have named : Meaning.scalar convertible? (.scalar t) c ↔ convertible? t = some c := by
        simp [Meaning.scalar]
      simp only [named, convertible, bind_eq_ok]
      cases found : convertible? t <;> simp [scalar, found]
  | sequence items => simp [convertible, bind_eq_ok, scalar, Meaning.scalar]
  | map entries => simp [convertible, bind_eq_ok, scalar, Meaning.scalar]

theorem filter_distinct (p : Convertible → Bool) (kinds : List Convertible) :
    (distinct kinds).filter p = distinct (kinds.filter p) := by
  induction kinds with
  | nil => rfl
  | cons c kinds ih =>
      by_cases held : p c = true
      · rw [distinct, List.filter_cons_of_pos held, List.filter_cons_of_pos held, distinct, ← ih,
          List.filter_filter, List.filter_filter]
        simp only [Bool.and_comm]
      · rw [distinct, List.filter_cons_of_neg held, List.filter_cons_of_neg held, ← ih,
          List.filter_filter]
        apply List.filter_congr
        intro k _
        by_cases same : k = c
        · simp [same, held]
        · simp [same]

theorem distinct_eq (kinds : List Convertible) : distinct kinds = kinds.eraseDups := by
  induction hn : kinds.length using Nat.strongRecOn generalizing kinds with
  | ind n ih =>
      cases kinds with
      | nil => rfl
      | cons c kinds =>
          have shorter : (kinds.filter (· != c)).length < n := by
            rw [← hn]
            exact Nat.lt_succ_of_le (List.length_filter_le _ _)
          rw [distinct, filter_distinct, ih _ shorter _ rfl, List.eraseDups_cons]
          rfl

theorem mapM_eq_ok {α β : Type} {f : α → Except Problem β} {l : List α} {l' : List β} :
    l.mapM f = .ok l' ↔ List.Forall₂ (fun a b => f a = .ok b) l l' := by
  induction l generalizing l' with
  | nil => cases l' <;> simp [pure, Except.pure]
  | cons a l ih =>
      simp only [List.mapM_cons, bind_eq_ok, pure_eq_ok, List.forall₂_cons_left_iff, ih]
      constructor
      · rintro ⟨b, read, rest, others, rfl⟩
        exact ⟨b, rest, read, others, rfl⟩
      · rintro ⟨b, rest, read, others, rfl⟩
        exact ⟨b, read, rest, others, rfl⟩

theorem conversions_read : conversions d = .ok change ↔
    ∃ kinds, Meaning.conversions d kinds ∧
      change = onFormatter ({ · with conversions := kinds }) := by
  have items_read {items : List Document} {all : List Convertible} :
      items.mapM convertible = .ok all ↔ List.Forall₂ Meaning.convertible items all := by
    simp only [mapM_eq_ok, convertible_read]
  cases d with
  | sequence items =>
      simp only [conversions, bind_eq_ok, items_read, pure_eq_ok, distinct_eq]
      constructor
      · rintro ⟨all, named, rfl⟩
        exact ⟨all.eraseDups, ⟨items, all, rfl, named, rfl⟩, rfl⟩
      · rintro ⟨_, ⟨_, all, same, named, rfl⟩, rfl⟩
        cases same
        exact ⟨all, named, rfl⟩
  | null => simp [conversions, Meaning.conversions]
  | scalar t => simp [conversions, Meaning.conversions]
  | map entries => simp [conversions, Meaning.conversions]

theorem numberedPattern_read : numberedPattern dialect d = .ok change ↔
    d = .scalar [] ∧ change = id ∨
      ∃ raw p, d = .scalar raw ∧ raw ≠ [] ∧ Regex.Pattern.ofText? raw = some p ∧
        change = ({ · with pattern := some (raw, p) }) := by
  rw [numberedPattern, bind_eq_ok]
  constructor
  · rintro ⟨raw, text, read⟩
    rw [scalar_eq_ok.mp text]
    cases raw with
    | nil => exact .inl ⟨rfl, pure_eq_ok.mp read⟩
    | cons c t =>
        simp only at read
        split at read
        · next p compiled =>
            exact .inr ⟨_, p, rfl, List.cons_ne_nil c t, compiled, pure_eq_ok.mp read⟩
        · cases read
  · rintro (⟨rfl, rfl⟩ | ⟨raw, p, rfl, some, compiled, rfl⟩)
    · exact ⟨[], rfl, rfl⟩
    · obtain ⟨c, t, rfl⟩ := List.exists_cons_of_ne_nil some
      exact ⟨c :: t, rfl, by simp only [compiled]; rfl⟩

theorem level_read : level d = .ok change ↔
    ∃ l, Meaning.level d l ∧ change = onTrace ({ · with level := l }) := by
  simp only [Meaning.level_iff]
  apply scalar_read
  · intro t l found
    rw [found]
    rfl
  · intro t missing
    exact ⟨_, by rw [missing]⟩

end Key

/-- The reader of a key accepts what the rule gives a meaning, and sets the part of the settings
that the rule is about. -/
structure Serves (dialect : Dialect) (k : Key) (r : Rule) : Prop where
  name : k.name = r.key
  accepts : ∀ d, (∃ change, k.read d = .ok change) ↔ ∃ a, r.means d a
  sets : ∀ {d change s}, k.read d = .ok change → r.field s = r.field {} →
    r.means d (r.field (change s))
  keeps : ∀ {d change s}, k.read d = .ok change →
    ∀ other ∈ rules dialect, other.key ≠ r.key → other.field (change s) = other.field s

section

variable {dialect : Dialect}

/-- A reader that puts what is meant where the rule says serves the rule. -/
theorem Serves.of_put {k : Key} {r : Rule} (put : r.Value → Change)
    (reads : ∀ d change, k.read d = .ok change ↔ ∃ a, r.means d a ∧ change = put a)
    (name : k.name = r.key := by rfl)
    (sets : ∀ a s, r.field (put a s) = a := by intro a s; rfl)
    (keeps : ∀ a s, ∀ other ∈ rules dialect, other.key ≠ r.key →
      other.field (put a s) = other.field s :=
      by simp [rules, groupRules, formatterRules, explainRules, loggerRules, Key.onFormatter,
        Key.onTrace]) :
    Serves dialect k r where
  name := name
  accepts := by
    intro d
    constructor
    · rintro ⟨change, read⟩
      obtain ⟨a, meant, -⟩ := (reads d change).mp read
      exact ⟨a, meant⟩
    · rintro ⟨a, meant⟩
      exact ⟨put a, (reads d (put a)).mpr ⟨a, meant, rfl⟩⟩
  sets := by
    intro d change s read _
    obtain ⟨a, meant, rfl⟩ := (reads d change).mp read
    rwa [sets]
  keeps := by
    intro d change s read
    obtain ⟨a, -, rfl⟩ := (reads d change).mp read
    exact keeps a s

/-- An empty pattern changes nothing, so it is the default that it leaves in place. -/
theorem pattern_serves : Serves dialect ⟨"numbered_placeholder", Key.numberedPattern dialect⟩
    ⟨"explain", "numbered_placeholder", Option (Text × Regex.Pattern), Meaning.pattern,
      (·.pattern)⟩ where
  name := rfl
  accepts := by
    intro d
    simp only [Key.numberedPattern_read, Meaning.pattern]
    constructor
    · rintro ⟨_, ⟨empty, -⟩ | ⟨raw, p, text, some, compiled, -⟩⟩
      · exact ⟨none, .inl ⟨empty, rfl⟩⟩
      · exact ⟨_, .inr ⟨raw, p, text, some, compiled, rfl⟩⟩
    · rintro ⟨_, ⟨empty, -⟩ | ⟨raw, p, text, some, compiled, -⟩⟩
      · exact ⟨_, .inl ⟨empty, rfl⟩⟩
      · exact ⟨_, .inr ⟨raw, p, text, some, compiled, rfl⟩⟩
  sets := by
    intro d change s read default
    rcases Key.numberedPattern_read.mp read with
      ⟨empty, rfl⟩ | ⟨raw, p, text, some, compiled, rfl⟩
    · exact .inl ⟨empty, default⟩
    · exact .inr ⟨raw, p, text, some, compiled, rfl⟩
  keeps := by
    intro d change s read
    rcases Key.numberedPattern_read.mp read with ⟨-, rfl⟩ | ⟨raw, p, -, -, -, rfl⟩
    · simp
    · simp [rules, groupRules, formatterRules, explainRules, loggerRules]

structure Group.Serves (dialect : Dialect) (g : Group) (served : String × List Rule) : Prop where
  name : g.name = served.1
  keys : List.Forall₂ (Settings.Serves dialect) g.keys served.2
  group : ∀ r ∈ served.2, r.group = served.1

open Key in
theorem groups_serve (dialect : Dialect) :
    List.Forall₂ (Group.Serves dialect) (groups dialect) (groupRules dialect) := by
  apply List.Forall₂.cons
  · constructor
    · rfl
    · exact
        .cons (.of_put (fun t => onFormatter ({ · with timePattern := t })) fun _ _ => text_read) <|
        .cons (.of_put (fun n => onFormatter ({ · with fractionDigits := n }))
          fun _ _ => fractionDigits_read) <|
        .cons (.of_put (fun b => onFormatter ({ · with trimFraction := b }))
          fun _ _ => converted_read) <|
        .cons (.of_put (fun c => onFormatter ({ · with clock := c })) fun _ _ => clock_read) <|
        .cons (.of_put (fun t => onFormatter ({ · with zeroTime := t })) fun _ _ => text_read) <|
        .cons (.of_put (fun t => onFormatter ({ · with nullLiteral := t }))
          fun _ _ => nullLiteral_read) <|
        .cons (.of_put (fun kinds => onFormatter ({ · with conversions := kinds }))
          fun _ _ => conversions_read) .nil
    · simp [formatterRules]
  apply List.Forall₂.cons
  · constructor
    · rfl
    · exact .cons (.of_put (fun t => ({ · with escaper := t })) fun _ _ => text_read) <|
        .cons pattern_serves .nil
    · simp [explainRules]
  apply List.Forall₂.cons
  · constructor
    · rfl
    · exact
        .cons (.of_put (fun l => onTrace ({ · with level := l })) fun _ _ => level_read) <|
        .cons (.of_put (fun t => onTrace ({ · with logPath := t })) fun _ _ => text_read) <|
        .cons (.of_put (fun n => onTrace ({ · with slowThreshold := n }))
          fun _ _ => converted_read) <|
        .cons (.of_put (fun b => onTrace ({ · with ignoreNotFound := b }))
          fun _ _ => converted_read) <|
        .cons (.of_put (fun b => onTrace ({ · with parameterized := b }))
          fun _ _ => converted_read) .nil
    · simp [loggerRules]
  exact .nil

end

end BoundSql.Settings

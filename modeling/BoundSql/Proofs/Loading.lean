import BoundSql.Proofs.Readings
import BoundSql.Settings.Flow
import BoundSql.Settings.Reader
import Mathlib.Data.List.Nodup

/-!
Settings are read from a document exactly when the document is valid, and then every part of them
is what its key tells, or the default of a key that tells nothing. The keys are read one after the
other; after any number of them, those that have been read are heeded and all other parts of the
settings are still the defaults.
-/

namespace BoundSql

open Text

namespace Document

def Holds (d : Document) (key : String) (v : Document) : Prop :=
  ∃ entries, d = .map entries ∧ (ascii key, v) ∈ entries

/-- What stands under a key of a group. A value that is null tells nothing. -/
def Tells (d : Document) (group key : String) (v : Document) : Prop :=
  v ≠ .null ∧ ∃ part, d.Holds group part ∧ part.Holds key v

/-- What a group of keys may be: a map, or nothing at all. -/
def IsPart (d : Document) : Prop := d = .null ∨ ∃ entries, d = .map entries

/-- No key of the map comes twice. -/
def Distinct (d : Document) : Prop := ∀ entries, d = .map entries → (entries.map Prod.fst).Nodup

variable {d : Document} {entries : List (Text × Document)} {key : Text} {v : Document}

theorem mem_of_lookup (found : lookup entries key = v) (some : v ≠ .null) : (key, v) ∈ entries := by
  unfold lookup at found
  cases first : entries.find? (·.1 == key) with
  | none =>
      rw [first] at found
      exact absurd found.symm some
  | some entry =>
      rw [first] at found
      obtain ⟨k, w⟩ := entry
      obtain rfl : w = v := found
      obtain ⟨member, rfl⟩ := Settings.entry_of_find first
      exact member

theorem lookup_of_mem (distinct : (entries.map Prod.fst).Nodup) (member : (key, v) ∈ entries) :
    lookup entries key = v := by
  have found := (Settings.find_eq_some (a := (key, v)) distinct).mpr ⟨member, rfl⟩
  rw [lookup, found]
  rfl

theorem part_iff {key : String} (distinct : (map entries).Distinct) :
    (lookup entries (ascii key)).IsPart ↔ ∀ v, (map entries).Holds key v → v.IsPart := by
  constructor
  · rintro part v ⟨_, same, member⟩
    cases same
    rwa [lookup_of_mem (distinct entries rfl) member] at part
  · intro parts
    by_cases nothing : lookup entries (ascii key) = .null
    · exact .inl nothing
    · exact parts _ ⟨entries, rfl, mem_of_lookup rfl nothing⟩

end Document

namespace Settings

/-- What a document tells under the key of a rule, or null. -/
def told (d : Document) (r : Rule) : Document :=
  match d with
  | .map sections =>
      match Document.lookup sections (ascii r.group) with
      | .map entries => Document.lookup entries (ascii r.key)
      | _ => .null
  | _ => .null

/-- A document that can be read: its groups are maps, and what it tells under its keys is right. -/
structure Valid (dialect : Dialect) (d : Document) : Prop where
  groups : ∀ name ∈ ["formatter", "explain", "logger"], ∀ v, d.Holds name v → v.IsPart
  keys : ∀ r ∈ rules dialect, ∀ v, d.Tells r.group r.key v → ∃ a, r.means v a

/-- Every part of the settings is what its key tells, or the default if that tells nothing. -/
def Loads (dialect : Dialect) (d : Document) (s : Settings) : Prop :=
  ∀ r ∈ rules dialect, (∃ v, d.Tells r.group r.key v ∧ r.means v (r.field s)) ∨
    (∀ v, ¬ d.Tells r.group r.key v) ∧ r.field s = r.field {}

section Told

variable {d v : Document} {r : Rule}

theorem told_eq (distinct : d.Distinct) (parts : ∀ key v, d.Holds key v → v.Distinct)
    (some : v ≠ .null) : told d r = v ↔ d.Tells r.group r.key v := by
  constructor
  · intro found
    unfold told at found
    split at found
    · next sections =>
        split at found
        · next entries part =>
            have group : (ascii r.group, .map entries) ∈ sections :=
              Document.mem_of_lookup part (by simp)
            exact ⟨some, .map entries, ⟨sections, rfl, group⟩, entries, rfl,
              Document.mem_of_lookup found some⟩
        · exact absurd found.symm some
    · exact absurd found.symm some
  · rintro ⟨-, part, ⟨sections, rfl, group⟩, entries, rfl, entry⟩
    have inside := parts r.group (.map entries) ⟨sections, rfl, group⟩ entries rfl
    rw [told, Document.lookup_of_mem (distinct sections rfl) group]
    exact Document.lookup_of_mem inside entry

theorem told_of_missing {sections : List (Text × Document)}
    (missing : Document.lookup sections (ascii r.group) = .null) :
    told (.map sections) r = .null := by
  rw [told, missing]

theorem told_of_part {sections entries : List (Text × Document)}
    (part : Document.lookup sections (ascii r.group) = .map entries) :
    told (.map sections) r = Document.lookup entries (ascii r.key) := by
  rw [told, part]

end Told

/-- What a document tells under a key, if anything, has a meaning. -/
def Accepted (d : Document) (r : Rule) : Prop := told d r = .null ∨ ∃ a, r.means (told d r) a

/-- The part of the settings that a rule is about is as the document says. -/
def Heeded (d : Document) (r : Rule) (s : Settings) : Prop :=
  told d r = .null ∧ r.field s = r.field {} ∨
    told d r ≠ .null ∧ r.means (told d r) (r.field s)

section Keys

variable {group : Text} {entries : List (Text × Document)} {s s' : Settings} {k : Key}

theorem readKey_of_null (nothing : Document.lookup entries (ascii k.name) = .null) :
    readKey group entries s k = .ok s := by
  rw [readKey, nothing]

theorem readKey_of_some (some : Document.lookup entries (ascii k.name) ≠ .null) :
    readKey group entries s k = .ok s' ↔
      ∃ change, k.read (Document.lookup entries (ascii k.name)) = .ok change ∧ s' = change s := by
  unfold readKey
  split
  · next nothing => exact absurd nothing some
  · cases k.read (Document.lookup entries (ascii k.name)) <;> simp [eq_comm]

end Keys

/-- What holds while keys are read: the rules still to come are about parts of the settings that
nothing has changed yet, and all other rules are heeded. -/
structure Reached (dialect : Dialect) (d : Document) (todo : List Rule) (s : Settings) :
    Prop where
  order : todo <:+ rules dialect
  ahead : ∀ r ∈ todo, r.field s = r.field {}
  behind : ∀ r ∈ rules dialect, r ∉ todo → Heeded d r s

section Runs

variable {dialect : Dialect} {d : Document} {sections entries : List (Text × Document)}
  {todo : List Rule} {s s' : Settings}

theorem reached_initial : Reached dialect d (rules dialect) {} where
  order := List.suffix_rfl
  ahead := by
    intro r _
    rfl
  behind := by
    intro r known unknown
    exact absurd known unknown

theorem Reached.loads (reached : Reached dialect d [] s) : ∀ r ∈ rules dialect, Heeded d r s := by
  intro r known
  exact reached.behind r known List.not_mem_nil

theorem Reached.fresh {r : Rule} (reached : Reached dialect d (r :: todo) s) :
    ∀ other ∈ todo, other.key ≠ r.key := by
  have nodup := (reached.order.sublist.map Rule.key).nodup (keys_nodup dialect)
  rw [List.map_cons, List.nodup_cons] at nodup
  intro other later same
  exact nodup.1 (same ▸ List.mem_map_of_mem later)

theorem Reached.skip {r : Rule} (reached : Reached dialect d (r :: todo) s)
    (nothing : told d r = .null) : Reached dialect d todo s where
  order := (List.suffix_cons r todo).trans reached.order
  ahead := by
    intro other later
    exact reached.ahead other (List.mem_cons_of_mem r later)
  behind := by
    intro other known done
    by_cases same : other = r
    · subst same
      exact .inl ⟨nothing, reached.ahead other List.mem_cons_self⟩
    · exact reached.behind other known (by simp [same, done])

theorem Reached.change {k : Key} {r : Rule} {change : Change}
    (reached : Reached dialect d (r :: todo) s) (serves : Serves dialect k r)
    (some : told d r ≠ .null) (read : k.read (told d r) = .ok change) :
    Reached dialect d todo (change s) where
  order := (List.suffix_cons r todo).trans reached.order
  ahead := by
    intro other later
    have known := reached.order.mem (List.mem_cons_of_mem r later)
    rw [serves.keeps read other known (reached.fresh other later)]
    exact reached.ahead other (List.mem_cons_of_mem r later)
  behind := by
    intro other known done
    by_cases same : other = r
    · subst same
      exact .inr ⟨some, serves.sets read (reached.ahead other List.mem_cons_self)⟩
    · have apart : other.key ≠ r.key := by
        intro keys
        have known' := reached.order.mem (List.mem_cons_self (a := r) (l := todo))
        exact same (List.inj_on_of_nodup_map (keys_nodup dialect) known known' keys)
      have before := reached.behind other known (by simp [same, done])
      rwa [Heeded, serves.keeps read other known apart]

theorem Reached.key {k : Key} {r : Rule} {group : Text} (reached : Reached dialect d (r :: todo) s)
    (serves : Serves dialect k r) (at_key : told d r = Document.lookup entries (ascii k.name))
    (read : readKey group entries s k = .ok s') : Reached dialect d todo s' := by
  by_cases nothing : told d r = .null
  · rw [readKey_of_null (at_key ▸ nothing)] at read
    cases read
    exact reached.skip nothing
  · obtain ⟨change, changed, rfl⟩ := (readKey_of_some (at_key ▸ nothing)).mp read
    rw [← at_key] at changed
    exact reached.change serves nothing changed

theorem Reached.keys {ks : List Key} {rs : List Rule} {group : Text}
    (serve : List.Forall₂ (Serves dialect) ks rs) (reached : Reached dialect d (rs ++ todo) s)
    (part : ∀ r ∈ rs, told d r = Document.lookup entries (ascii r.key))
    (read : ks.foldlM (readKey group entries) s = .ok s') : Reached dialect d todo s' := by
  induction serve generalizing s with
  | nil =>
      cases read
      exact reached
  | @cons k r ks rs serves _ ih =>
      rw [List.foldlM_cons, bind_eq_ok] at read
      obtain ⟨between, first, rest⟩ := read
      have at_key : told d r = Document.lookup entries (ascii k.name) := by
        rw [serves.name]
        exact part r List.mem_cons_self
      exact ih (reached.key serves at_key first)
        (fun r later => part r (List.mem_cons_of_mem _ later)) rest

theorem Reached.skipped {rs : List Rule} (reached : Reached dialect d (rs ++ todo) s)
    (nothing : ∀ r ∈ rs, told d r = .null) : Reached dialect d todo s := by
  induction rs with
  | nil => exact reached
  | cons r rs ih =>
      have next := Reached.skip reached (nothing r List.mem_cons_self)
      exact ih next fun r later => nothing r (List.mem_cons_of_mem _ later)

theorem Reached.group {g : Group} {served : String × List Rule} (serves : g.Serves dialect served)
    (reached : Reached dialect (.map sections) (served.2 ++ todo) s)
    (read : readGroup sections s g = .ok s') :
    Reached dialect (.map sections) todo s' := by
  have named : ∀ r ∈ served.2, r.group = g.name := by
    intro r member
    rw [serves.group r member, serves.name]
  unfold readGroup at read
  split at read
  · next missing =>
      cases read
      apply reached.skipped
      intro r member
      exact told_of_missing (named r member ▸ missing)
  · next entries part =>
      apply reached.keys serves.keys _ read
      intro r member
      exact told_of_part (named r member ▸ part)
  · cases read

theorem Reached.groups {gs : List Group} {served : List (String × List Rule)}
    (serve : List.Forall₂ (Group.Serves dialect) gs served)
    (reached : Reached dialect (.map sections) (served.flatMap (·.2) ++ todo) s)
    (read : gs.foldlM (readGroup sections) s = .ok s') :
    Reached dialect (.map sections) todo s' := by
  induction serve generalizing s with
  | nil =>
      cases read
      exact reached
  | @cons g p gs served serves _ ih =>
      rw [List.foldlM_cons, bind_eq_ok] at read
      obtain ⟨between, first, rest⟩ := read
      rw [List.flatMap_cons, List.append_assoc] at reached
      exact ih (reached.group serves first) rest

end Runs

theorem heeded_unique {dialect : Dialect} {d : Document} {s s' : Settings}
    (one : ∀ r ∈ rules dialect, Heeded d r s) (other : ∀ r ∈ rules dialect, Heeded d r s') :
    s = s' := by
  apply settings_eq
  intro r known
  rcases one r known with ⟨nothing, default⟩ | ⟨some, meant⟩
  · rcases other r known with ⟨-, default'⟩ | ⟨some, -⟩
    · rw [default, default']
    · exact absurd nothing some
  · rcases other r known with ⟨nothing, -⟩ | ⟨-, meant'⟩
    · exact absurd nothing some
    · exact means_unique dialect r known meant meant'

section Success

variable {dialect : Dialect} {sections entries : List (Text × Document)}

theorem foldlM_accepts {ε σ α : Type} {β : Type 1} {f : σ → α → Except ε σ} {R : α → β → Prop}
    {P : β → Prop} {l : List α} {l' : List β} (pairs : List.Forall₂ R l l')
    (step : ∀ a b, R a b → ∀ s, (∃ s', f s a = .ok s') ↔ P b) (s : σ) :
    (∃ s', l.foldlM f s = .ok s') ↔ ∀ b ∈ l', P b := by
  induction pairs generalizing s with
  | nil => simp [pure, Except.pure]
  | @cons a b l l' pair _ ih =>
      simp only [List.foldlM_cons, bind_eq_ok, List.forall_mem_cons, ← step a b pair s]
      constructor
      · rintro ⟨s', between, first, rest⟩
        exact ⟨⟨between, first⟩, (ih between).mp ⟨s', rest⟩⟩
      · rintro ⟨⟨between, first⟩, rest⟩
        obtain ⟨s', read⟩ := (ih between).mpr rest
        exact ⟨s', between, first, read⟩

theorem readKey_accepts {k : Key} {r : Rule} (serves : Serves dialect k r) (group : Text)
    (s : Settings) :
    (∃ s', readKey group entries s k = .ok s') ↔
      Document.lookup entries (ascii r.key) = .null ∨
        ∃ a, r.means (Document.lookup entries (ascii r.key)) a := by
  rw [← serves.name]
  by_cases nothing : Document.lookup entries (ascii k.name) = .null
  · exact iff_of_true ⟨s, readKey_of_null nothing⟩ (.inl nothing)
  · rw [← serves.accepts]
    simp only [readKey_of_some nothing]
    constructor
    · rintro ⟨-, change, read, -⟩
      exact .inr ⟨change, read⟩
    · rintro (missing | ⟨change, read⟩)
      · exact absurd missing nothing
      · exact ⟨change s, change, read, rfl⟩

theorem readGroup_accepts {g : Group} {served : String × List Rule}
    (serves : g.Serves dialect served) (s : Settings) : (∃ s', readGroup sections s g = .ok s') ↔
      (Document.lookup sections (ascii served.1)).IsPart ∧
        ∀ r ∈ served.2, Accepted (.map sections) r := by
  obtain ⟨name, keys, group⟩ := serves
  unfold readGroup
  rw [name]
  split
  · next missing =>
      have accepted : ∀ r ∈ served.2, Accepted (.map sections) r := by
        intro r member
        exact .inl (told_of_missing (group r member ▸ missing))
      exact iff_of_true ⟨s, rfl⟩ ⟨.inl missing, accepted⟩
  · next entries part =>
      rw [foldlM_accepts keys fun k r serves s => readKey_accepts serves _ s]
      constructor
      · intro accepted
        refine ⟨.inr ⟨entries, part⟩, fun r member => ?_⟩
        rw [Accepted, told_of_part (group r member ▸ part)]
        exact accepted r member
      · rintro ⟨-, accepted⟩ r member
        rw [← told_of_part (group r member ▸ part)]
        exact accepted r member
  · next some part =>
      have refused : ¬(Document.lookup sections (ascii served.1)).IsPart := by
        rintro (missing | ⟨entries, map⟩)
        · exact some missing
        · exact part entries map
      exact iff_of_false (by simp) fun valid => refused valid.1

theorem ofDocument_accepts (dialect : Dialect) (origin : Origin) :
    (∃ s, ofDocument dialect origin (.map sections) = .ok s) ↔
    ∀ served ∈ groupRules dialect, (Document.lookup sections (ascii served.1)).IsPart ∧
      ∀ r ∈ served.2, Accepted (.map sections) r := by
  rw [ofDocument]
  exact foldlM_accepts (groups_serve dialect) (fun _ _ serves s => readGroup_accepts serves s) {}

end Success

section

variable {d : Document} (distinct : d.Distinct) (parts : ∀ key v, d.Holds key v → v.Distinct)

include distinct parts

theorem accepted_iff {r : Rule} :
    Accepted d r ↔ ∀ v, d.Tells r.group r.key v → ∃ a, r.means v a := by
  constructor
  · rintro accepted v tells
    have found := (told_eq distinct parts tells.1).mpr tells
    rw [Accepted, found] at accepted
    exact accepted.resolve_left tells.1
  · intro valid
    by_cases nothing : told d r = .null
    · exact .inl nothing
    · exact .inr (valid _ ((told_eq distinct parts nothing).mp rfl))

theorem heeded_iff {r : Rule} {s : Settings} : Heeded d r s ↔
    (∃ v, d.Tells r.group r.key v ∧ r.means v (r.field s)) ∨
      (∀ v, ¬d.Tells r.group r.key v) ∧ r.field s = r.field {} := by
  by_cases nothing : told d r = .null
  · have silent : ∀ v, ¬d.Tells r.group r.key v := by
      intro v tells
      exact tells.1 (((told_eq distinct parts tells.1).mpr tells).symm.trans nothing)
    simp [Heeded, nothing, silent]
  · have tells := (told_eq distinct parts nothing).mp rfl
    constructor
    · rintro (⟨missing, -⟩ | ⟨-, meant⟩)
      · exact absurd missing nothing
      · exact .inl ⟨_, tells, meant⟩
    · rintro (⟨v, tells', meant⟩ | ⟨silent, -⟩)
      · have found := (told_eq distinct parts tells'.1).mpr tells'
        exact .inr ⟨nothing, found ▸ meant⟩
      · exact absurd tells (silent _)

end

section Root

variable {dialect : Dialect} {d : Document} {sections : List (Text × Document)}

theorem valid_null : Valid dialect .null where
  groups := by
    rintro name - v ⟨entries, map, -⟩
    cases map
  keys := by
    rintro r - v ⟨-, part, ⟨entries, map, -⟩, -⟩
    cases map

theorem valid_iff (distinct : (Document.map sections).Distinct)
    (parts : ∀ key v, (Document.map sections).Holds key v → v.Distinct) :
    Valid dialect (.map sections) ↔
      ∀ served ∈ groupRules dialect, (Document.lookup sections (ascii served.1)).IsPart ∧
        ∀ r ∈ served.2, Accepted (.map sections) r := by
  have accepted : (∀ served ∈ groupRules dialect, ∀ r ∈ served.2, Accepted (.map sections) r) ↔
      ∀ r ∈ rules dialect, ∀ v, (Document.map sections).Tells r.group r.key v →
        ∃ a, r.means v a := by
    simp only [rules, List.forall_mem_flatMap, ← accepted_iff distinct parts]
  have held : (∀ served ∈ groupRules dialect, (Document.lookup sections (ascii served.1)).IsPart) ↔
      ∀ name ∈ ["formatter", "explain", "logger"], ∀ v,
        (Document.map sections).Holds name v → v.IsPart := by
    simp only [← Document.part_iff distinct]
    simp [groupRules]
  simp only [imp_and, forall_and, accepted, held]
  constructor
  · intro valid
    exact ⟨valid.groups, valid.keys⟩
  · rintro ⟨groups, keys⟩
    exact ⟨groups, keys⟩

end Root

/-- A document is read exactly when it is valid, and then into the settings that it tells. -/
theorem ofDocument_loads (dialect : Dialect) (origin : Origin) {d : Document}
    (root : d = .null ∨ ∃ sections, d = .map sections) (distinct : d.Distinct)
    (parts : ∀ key v, d.Holds key v → v.Distinct) :
    ((∃ s, ofDocument dialect origin d = .ok s) ↔ Valid dialect d) ∧
      (∀ s, ofDocument dialect origin d = .ok s ↔ Valid dialect d ∧ Loads dialect d s) ∧
      ∀ t, dialect.document t = .ok d → ofText dialect origin t = ofDocument dialect origin d := by
  have success : (∃ s, ofDocument dialect origin d = .ok s) ↔ Valid dialect d := by
    rcases root with rfl | ⟨sections, rfl⟩
    · exact iff_of_true ⟨{}, rfl⟩ valid_null
    · rw [valid_iff distinct parts]
      exact ofDocument_accepts dialect origin
  have loads : ∀ s, ofDocument dialect origin d = .ok s → ∀ r ∈ rules dialect, Heeded d r s := by
    intro s read
    rcases root with rfl | ⟨sections, rfl⟩
    · cases read
      intro r _
      exact .inl ⟨rfl, rfl⟩
    · have reached :
          Reached dialect (.map sections) ((groupRules dialect).flatMap (·.2) ++ []) {} := by
        rw [List.append_nil]
        exact reached_initial
      exact (reached.groups (groups_serve dialect) read).loads
  refine ⟨success, fun s => ?_, ?_⟩
  · simp only [Loads, ← heeded_iff distinct parts]
    constructor
    · intro read
      exact ⟨success.mp ⟨s, read⟩, loads s read⟩
    · rintro ⟨valid, heeded⟩
      obtain ⟨s', read⟩ := success.mpr valid
      rw [read, heeded_unique (loads s' read) heeded]
  · intro t text
    rw [ofText, text]

def threeDigits : Document :=
  .map [(ascii "formatter", .map [(ascii "fraction_digits", .scalar (ascii "3"))]),
    (ascii "logger", .null)]

def threeDigitsText : Text :=
  ascii "\x7bformatter: \x7bfraction_digits: \"3\"\x7d, logger: ~\x7d"

theorem ofDocument_loads_three :
    ofText .flow .inline threeDigitsText = .ok { formatter := { fractionDigits := 3 } } ∧
      Valid .flow threeDigits ∧
      Loads .flow threeDigits { formatter := { fractionDigits := 3 } } := by
  have distinct : threeDigits.Distinct := by
    rintro _ ⟨⟩
    decide
  have parts : ∀ key v, threeDigits.Holds key v → v.Distinct := by
    rintro key v ⟨_, ⟨⟩, member⟩ entries rfl
    simp at member
    obtain ⟨-, rfl⟩ := member
    decide
  have text : Dialect.flow.document threeDigitsText = .ok threeDigits :=
    Dialect.flow_document (by cbv)
  have read : ofDocument .flow .inline threeDigits =
      .ok { formatter := { fractionDigits := 3 } } := by rfl
  obtain ⟨-, loads, same⟩ := ofDocument_loads .flow .inline (.inr ⟨_, rfl⟩) distinct parts
  exact ⟨(same _ text).trans read, (loads _).mp read⟩

end Settings

end BoundSql

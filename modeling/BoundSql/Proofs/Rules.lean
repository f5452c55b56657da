import BoundSql.Settings.Key
import Mathlib.Data.List.Forall2
import Mathlib.Data.List.Nodup

/-!
What the keys of a settings document mean. A rule tells for one key which values it may have, what
they mean and which part of the settings they are for. No value has two meanings under one key, and
the rules speak of every part of the settings.
-/

namespace BoundSql.Settings

open Text

namespace Meaning

variable (dialect : Dialect)

def text (d : Document) (t : Text) : Prop := d = .scalar t

def scalar {α : Type} (read? : Text → Option α) (d : Document) (a : α) : Prop :=
  ∃ t, d = .scalar t ∧ read? t = some a

/-- One of some names, in any letter case. -/
def named {α : Type} (names : List (String × α)) (d : Document) (a : α) : Prop :=
  ∃ t name, d = .scalar t ∧ lowercase t = ascii name ∧ (name, a) ∈ names

def digits (d : Document) (n : Nat) : Prop := n ≤ 9 ∧ scalar dialect.signed? d n

def nonEmpty (d : Document) (t : Text) : Prop := d = .scalar t ∧ t ≠ []

def clock : Document → Clock → Prop := named [("utc", .universal), ("local", .home)]

def convertible : Document → Convertible → Prop :=
  named [("time", .time), ("bool", .bool), ("bytes", .bytes)]

/-- The kinds that a sequence names, each where it is first named. -/
def conversions (d : Document) (kinds : List Convertible) : Prop :=
  ∃ items all, d = .sequence items ∧ List.Forall₂ convertible items all ∧ kinds = all.eraseDups

/-- An empty text stands for no pattern. -/
def pattern (d : Document) (p : Option (Text × Regex.Pattern)) : Prop :=
  d = .scalar [] ∧ p = none ∨
    ∃ raw q, d = .scalar raw ∧ raw ≠ [] ∧ Regex.Pattern.ofText? raw = some q ∧ p = some (raw, q)

def level : Document → Trace.Level → Prop :=
  named [("debug", .debug), ("info", .info), ("warn", .warn), ("warning", .warn),
    ("error", .error), ("silent", .silent), ("off", .silent)]

def switch : Document → Bool → Prop := scalar dialect.switch?

def milliseconds : Document → Int → Prop := scalar dialect.unsigned?

end Meaning

structure Rule where
  group : String
  key : String
  Value : Type
  means : Document → Value → Prop
  field : Settings → Value

section Tables

variable (dialect : Dialect)

def formatterRules : List Rule :=
  [⟨"formatter", "time_format", Text, Meaning.text, (·.formatter.timePattern)⟩,
   ⟨"formatter", "fraction_digits", Nat, Meaning.digits dialect, (·.formatter.fractionDigits)⟩,
   ⟨"formatter", "trim_fraction_zeros", Bool, Meaning.switch dialect,
     (·.formatter.trimFraction)⟩,
   ⟨"formatter", "time_zone", Clock, Meaning.clock, (·.formatter.clock)⟩,
   ⟨"formatter", "zero_time", Text, Meaning.text, (·.formatter.zeroTime)⟩,
   ⟨"formatter", "null_literal", Text, Meaning.nonEmpty, (·.formatter.nullLiteral)⟩,
   ⟨"formatter", "convertible_types", List Convertible, Meaning.conversions,
     (·.formatter.conversions)⟩]

def explainRules : List Rule :=
  [⟨"explain", "escaper", Text, Meaning.text, (·.escaper)⟩,
   ⟨"explain", "numbered_placeholder", Option (Text × Regex.Pattern), Meaning.pattern,
     (·.pattern)⟩]

def loggerRules : List Rule :=
  [⟨"logger", "level", Trace.Level, Meaning.level, (·.trace.level)⟩,
   ⟨"logger", "log_path", Text, Meaning.text, (·.trace.logPath)⟩,
   ⟨"logger", "slow_threshold_ms", Int, Meaning.milliseconds dialect, (·.trace.slowThreshold)⟩,
   ⟨"logger", "ignore_record_not_found", Bool, Meaning.switch dialect,
     (·.trace.ignoreNotFound)⟩,
   ⟨"logger", "parameterized_queries", Bool, Meaning.switch dialect, (·.trace.parameterized)⟩]

def groupRules : List (String × List Rule) :=
  [("formatter", formatterRules dialect), ("explain", explainRules),
   ("logger", loggerRules dialect)]

def rules : List Rule := (groupRules dialect).flatMap (·.2)

theorem keys_nodup : ((rules dialect).map Rule.key).Nodup := by
  -- Only the dialect of the rules is open, and the keys do not depend on it.
  have keys : (rules dialect).map Rule.key =
      ["time_format", "fraction_digits", "trim_fraction_zeros", "time_zone", "zero_time",
       "null_literal", "convertible_types", "escaper", "numbered_placeholder", "level", "log_path",
       "slow_threshold_ms", "ignore_record_not_found", "parameterized_queries"] := rfl
  rw [keys]
  decide

end Tables

/-- The rules speak of every part of the settings. -/
theorem settings_eq {dialect : Dialect} {s s' : Settings}
    (same : ∀ r ∈ rules dialect, r.field s = r.field s') : s = s' := by
  simp [rules, groupRules, formatterRules, explainRules, loggerRules] at same
  obtain ⟨formatter, escaper, pattern, trace⟩ := s
  obtain ⟨formatter', escaper', pattern', trace'⟩ := s'
  cases formatter
  cases formatter'
  cases trace
  cases trace'
  simp_all

section

variable {α : Type} {key : α → Text} {l : List α} {k : Text} {a : α}

theorem entry_of_find (found : (l.find? fun b => key b == k) = some a) : a ∈ l ∧ key a = k :=
  ⟨List.mem_of_find?_eq_some found,
    beq_iff_eq.mp (@List.find?_some _ (fun b => key b == k) _ _ found)⟩

/-- Where no key comes twice, the first entry with a key is the only one. -/
theorem find_eq_some (nodup : (l.map key).Nodup) :
    (l.find? fun b => key b == k) = some a ↔ a ∈ l ∧ key a = k := by
  constructor
  · exact entry_of_find
  · rintro ⟨member, rfl⟩
    have some : (l.find? fun b => key b == key a).isSome = true :=
      List.find?_isSome.mpr ⟨a, member, beq_self_eq_true (key a)⟩
    obtain ⟨b, found⟩ := Option.isSome_iff_exists.mp some
    obtain ⟨inside, same⟩ := entry_of_find found
    rw [found, List.inj_on_of_nodup_map nodup inside member same]

end

namespace Meaning

open Relator (RightUnique)

theorem text_unique : RightUnique text := by
  intro d t t' one other
  exact Document.scalar.inj (one.symm.trans other)

theorem scalar_unique {α : Type} (read? : Text → Option α) : RightUnique (scalar read?) := by
  rintro d a b ⟨t, rfl, read⟩ ⟨_, same, read'⟩
  cases same
  exact Option.some.inj (read.symm.trans read')

section Names

variable {d : Document}

/-- A table of names is read by looking for the first that fits. -/
theorem named_iff {α : Type} {names : List (String × α)} {read? : Text → Option α} {a : α}
    (nodup : (names.map fun entry => ascii entry.1).Nodup)
    (reads : ∀ raw, read? raw =
      (names.find? fun entry => ascii entry.1 == lowercase raw).map (·.2)) :
    named names d a ↔ scalar read? d a := by
  unfold named scalar
  apply exists_congr
  intro t
  rw [reads, Option.map_eq_some_iff]
  constructor
  · rintro ⟨name, rfl, same, member⟩
    exact ⟨rfl, (name, a), (find_eq_some nodup).mpr ⟨member, same.symm⟩, rfl⟩
  · rintro ⟨rfl, ⟨name, _⟩, found, rfl⟩
    obtain ⟨member, same⟩ := (find_eq_some nodup).mp found
    exact ⟨name, rfl, same.symm, member⟩

theorem clock_iff {c : Clock} : clock d c ↔ scalar Key.clock? d c := by
  apply named_iff (by decide)
  intro raw
  by_cases utc : lowercase raw = ascii "utc"
  · rw [Key.clock?, if_pos utc, utc]
    rfl
  by_cases home : lowercase raw = ascii "local"
  · rw [Key.clock?, if_neg utc, if_pos home, home]
    rfl
  · simp [Key.clock?, utc, home, Ne.symm utc, Ne.symm home]

theorem convertible_iff {c : Convertible} : convertible d c ↔ scalar Key.convertible? d c := by
  apply named_iff (by decide)
  intro raw
  by_cases time : lowercase raw = ascii "time"
  · rw [Key.convertible?, if_pos time, time]
    rfl
  by_cases bool : lowercase raw = ascii "bool"
  · rw [Key.convertible?, if_neg time, if_pos bool, bool]
    rfl
  by_cases bytes : lowercase raw = ascii "bytes"
  · rw [Key.convertible?, if_neg time, if_neg bool, if_pos bytes, bytes]
    rfl
  · simp [Key.convertible?, time, bool, bytes, Ne.symm time, Ne.symm bool, Ne.symm bytes]

theorem level_iff {l : Trace.Level} : level d l ↔ scalar Key.level? d l :=
  named_iff (by decide) fun _ => rfl

end Names

theorem digits_unique (dialect : Dialect) : RightUnique (digits dialect) := by
  rintro d n n' ⟨-, one⟩ ⟨-, other⟩
  exact Int.ofNat_inj.mp (scalar_unique _ one other)

theorem nonEmpty_unique : RightUnique nonEmpty := by
  rintro d t t' ⟨one, -⟩ ⟨other, -⟩
  exact text_unique one other

theorem clock_unique : RightUnique clock := by
  intro d c c' one other
  exact scalar_unique _ (clock_iff.mp one) (clock_iff.mp other)

theorem convertible_unique : RightUnique convertible := by
  intro d c c' one other
  exact scalar_unique _ (convertible_iff.mp one) (convertible_iff.mp other)

theorem level_unique : RightUnique level := by
  intro d l l' one other
  exact scalar_unique _ (level_iff.mp one) (level_iff.mp other)

theorem conversions_unique : RightUnique conversions := by
  rintro d _ _ ⟨items, all, rfl, named, rfl⟩ ⟨_, all', same, named', rfl⟩
  cases same
  rw [List.right_unique_forall₂' convertible_unique named named']

theorem pattern_unique : RightUnique pattern := by
  rintro d _ _ (⟨rfl, rfl⟩ | ⟨raw, q, rfl, some, read, rfl⟩) second
  · rcases second with ⟨-, rfl⟩ | ⟨raw, -, same, some, -, -⟩
    · rfl
    · cases same
      exact absurd rfl some
  · rcases second with ⟨same, -⟩ | ⟨raw', q', same, -, read', rfl⟩
    · cases same
      exact absurd rfl some
    · cases same
      rw [Option.some.inj (read.symm.trans read')]

end Meaning

open Meaning in
theorem means_unique (dialect : Dialect) : ∀ r ∈ rules dialect, Relator.RightUnique r.means := by
  simp only [rules, groupRules, formatterRules, explainRules, loggerRules, List.flatMap_cons,
    List.flatMap_nil, List.cons_append, List.nil_append, List.forall_mem_cons]
  exact ⟨text_unique, digits_unique dialect, scalar_unique _, clock_unique, text_unique,
    nonEmpty_unique, conversions_unique, text_unique, pattern_unique, level_unique, text_unique,
    scalar_unique _, scalar_unique _, scalar_unique _, by simp⟩

end BoundSql.Settings

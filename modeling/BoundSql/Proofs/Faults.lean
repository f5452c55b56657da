import BoundSql.Proofs.Places

/-!
What a document comes to. Two documents that say the same of every place are read alike, so nothing
counts but the values of known keys; and the first place at which a document is wrong is the one
that its fault names, whatever comes after.
-/

namespace BoundSql.Settings

open Text
open Document (IsRoot)

/-- The first place at which a document is wrong, and all that come before it. -/
structure Place.First (dialect : Dialect) (d : Document) (before : List Place) (p : Place) :
    Prop where
  order : before ++ [p] <+: places dialect
  clear : ∀ q ∈ before, ¬ q.Offends d
  offends : p.Offends d

theorem error_iff {ε α : Type} {x : Except ε α} :
    (∃ fault, x = .error fault) ↔ ¬ ∃ a, x = .ok a := by
  cases x <;> simp

theorem Place.same_refl {d : Document} (p : Place) : p.Same d d := by
  cases p with
  | group name => exact Iff.rfl
  | key r => exact fun _ => Iff.rfl

section Runs

variable {d d' : Document} {cs : List Check} {ps : List Place}

theorem run_accepts {c : Check} {p : Place} (fits : c.Fits p) (root : d.IsRoot) (s : Settings) :
    (∃ s', c.run d s = .ok s') ↔ ¬ p.Offends d := by
  rw [← fits.accepts root, Check.run]
  cases c.read d with
  | ok change => exact iff_of_true ⟨change s, rfl⟩ ⟨change, rfl⟩
  | error problem => simp

theorem foldlM_run_accepts (fit : List.Forall₂ Check.Fits cs ps) (root : d.IsRoot) (s : Settings) :
    (∃ s', cs.foldlM (Check.run d) s = .ok s') ↔ ∀ p ∈ ps, ¬ p.Offends d :=
  foldlM_accepts fit (fun _ _ fits s => run_accepts fits root s) s

theorem run_same {c : Check} {p : Place} (fits : c.Fits p) (root : d.IsRoot) (root' : d'.IsRoot)
    (same : p.Same d d') (s : Settings) : c.run d s = c.run d' s := by
  rw [Check.run, Check.run, fits.agrees root root' same]

theorem foldlM_run_same (fit : List.Forall₂ Check.Fits cs ps) (root : d.IsRoot)
    (root' : d'.IsRoot) (same : ∀ p ∈ ps, p.Same d d') (s : Settings) :
    cs.foldlM (Check.run d) s = cs.foldlM (Check.run d') s := by
  induction fit generalizing s with
  | nil => rfl
  | @cons c p cs ps fits _ ih =>
      obtain ⟨here, later⟩ := List.forall_mem_cons.mp same
      simp only [List.foldlM_cons, run_same fits root root' here, ih later]

end Runs

variable {dialect : Dialect} {d d' : Document}

theorem ofDocument_foldlM (dialect : Dialect) (origin : Origin) (root : d.IsRoot) :
    ofDocument dialect origin d = (checks dialect).foldlM (Check.run d) {} := by
  obtain ⟨sections, rfl⟩ := root.map
  exact ofDocument_checks dialect origin

/-- What is read depends on the values of the known keys alone, and on which groups, being neither
maps nor null, can have none: neither order nor other keys count, and null is as good as nothing. -/
theorem ofDocument_same (dialect : Dialect) (origin : Origin) (root : d.IsRoot) (root' : d'.IsRoot)
    (groups : ∀ name ∈ ["formatter", "explain", "logger"],
      (∀ v, d.Holds name v → v.IsPart) ↔ ∀ v, d'.Holds name v → v.IsPart)
    (keys : ∀ r ∈ rules dialect, ∀ v, d.Tells r.group r.key v ↔ d'.Tells r.group r.key v) :
    ofDocument dialect origin d = ofDocument dialect origin d' ∧
      ∀ t t', dialect.document t = .ok d → dialect.document t' = .ok d' →
        ofText dialect origin t = ofText dialect origin t' := by
  have same : ∀ p ∈ places dialect, p.Same d d' := by
    intro p known
    obtain ⟨served, among, here⟩ := List.mem_flatMap.mp known
    rcases List.mem_cons.mp here with rfl | inside
    · exact groups served.1 (List.mem_map_of_mem (f := Prod.fst) among)
    · obtain ⟨r, member, rfl⟩ := List.mem_map.mp inside
      exact keys r (List.mem_flatMap.mpr ⟨served, among, member⟩)
  have read : ofDocument dialect origin d = ofDocument dialect origin d' := by
    rw [ofDocument_foldlM dialect origin root, ofDocument_foldlM dialect origin root']
    exact foldlM_run_same (checks_fit dialect) root root' same {}
  refine ⟨read, fun t t' text text' => ?_⟩
  rw [ofText, ofText, text, text']
  exact read

def localWarnings : Document :=
  .map [(ascii "logger", .map [(ascii "level", .scalar (ascii "warn"))]),
    (ascii "formatter", .map [(ascii "time_zone", .scalar (ascii "local"))])]

def rearranged : Document :=
  .map [(ascii "version", .scalar (ascii "2")),
    (ascii "formatter", .map [(ascii "colors", .sequence []), (ascii "null_literal", .null),
      (ascii "time_zone", .scalar (ascii "local"))]),
    (ascii "explain", .null),
    (ascii "logger", .map [(ascii "level", .scalar (ascii "warn"))])]

theorem isRoot_localWarnings : localWarnings.IsRoot := Document.isRoot_of (by decide) (by decide)

theorem isRoot_rearranged : rearranged.IsRoot := Document.isRoot_of (by decide) (by decide)

/-- Another order, keys that nobody knows, and nulls where the other document is silent. -/
theorem ofDocument_same_rearranged :
    ofDocument .flow .inline localWarnings = ofDocument .flow .inline rearranged ∧
      ofDocument .flow .inline rearranged =
        .ok { formatter := { clock := .home }, trace := { level := .warn } } := by
  have parts {name : String} (part : (localWarnings.under name).IsPart)
      (part' : (rearranged.under name).IsPart) :=
    (same_group isRoot_localWarnings isRoot_rearranged).mpr (iff_of_true part part')
  have groups : ∀ name ∈ ["formatter", "explain", "logger"],
      (∀ v, localWarnings.Holds name v → v.IsPart) ↔ ∀ v, rearranged.Holds name v → v.IsPart := by
    simp only [List.forall_mem_cons]
    exact ⟨parts (.inr ⟨_, rfl⟩) (.inr ⟨_, rfl⟩), parts (.inl rfl) (.inl rfl),
      parts (.inr ⟨_, rfl⟩) (.inr ⟨_, rfl⟩), List.forall_mem_nil _⟩
  have told : ∀ r ∈ rules .flow, told localWarnings r = told rearranged r :=
    List.map_inj_left.mp (by rfl)
  have same := ofDocument_same .flow .inline isRoot_localWarnings isRoot_rearranged groups
    fun r known => (same_key isRoot_localWarnings isRoot_rearranged).mpr (told r known)
  exact ⟨same.1, by rfl⟩

theorem exists_first {α : Type 1} {P : α → Prop} {l : List α} (some : ∃ a ∈ l, P a) :
    ∃ before a, before ++ [a] <+: l ∧ (∀ b ∈ before, ¬ P b) ∧ P a := by
  classical
  obtain ⟨a, member, holds⟩ := some
  have found : (l.find? fun a => decide (P a)).isSome = true :=
    List.find?_isSome.mpr ⟨a, member, decide_eq_true holds⟩
  obtain ⟨first, found⟩ := Option.isSome_iff_exists.mp found
  obtain ⟨holds, before, after, rfl, none⟩ := List.find?_eq_some_iff_append.mp found
  refine ⟨before, first, ⟨after, by simp⟩, ?_, of_decide_eq_true holds⟩
  intro b earlier
  simpa using none b earlier

/-- The checks up to a place: those before it, and its own. -/
theorem checks_upTo {before : List Place} {p : Place}
    (order : before ++ [p] <+: places dialect) :
    ∃ done c later, checks dialect = done ++ c :: later ∧
      List.Forall₂ Check.Fits done before ∧ c.Fits p := by
  obtain ⟨after, whole⟩ := order
  rw [List.append_assoc, List.singleton_append] at whole
  have fit : List.Forall₂ Check.Fits (checks dialect) (before ++ p :: after) :=
    whole ▸ checks_fit dialect
  have front := List.forall₂_take_append _ before (p :: after) fit
  have rest := List.forall₂_drop_append _ before (p :: after) fit
  obtain ⟨c, later, fits, -, parts⟩ := List.forall₂_cons_right_iff.mp rest
  refine ⟨_, c, later, ?_, front, fits⟩
  rw [← parts, List.take_append_drop]

theorem first_named {before : List Place} {p : Place} (root : d.IsRoot)
    (first : Place.First dialect d before p) : ∃ problem, ∀ origin d', d'.IsRoot →
      (∀ q ∈ before ++ [p], q.Same d d') →
        ofDocument dialect origin d' = .error (.invalid p.context problem) := by
  obtain ⟨done, c, later, split, front, fits⟩ := checks_upTo first.order
  have refused : ∃ problem, c.read d = .error problem :=
    error_iff.mpr fun read => (fits.accepts root).mp read first.offends
  obtain ⟨problem, read⟩ := refused
  refine ⟨problem, fun origin d' root' same => ?_⟩
  obtain ⟨earlier, here⟩ := List.forall_mem_append.mp same
  -- The other document is as good before the place, so it is read up to there and refused.
  obtain ⟨s, reached⟩ := (foldlM_run_accepts front root {}).mpr first.clear
  rw [foldlM_run_same front root root' earlier] at reached
  rw [fits.agrees root root' (here p (List.mem_singleton_self p))] at read
  rw [ofDocument_foldlM dialect origin root', split, List.foldlM_append, reached]
  simp [bind, Except.bind, List.foldlM_cons, Check.run, read, fits.context]

/-- A document is refused exactly if it is wrong somewhere, and then for the first place at which
it is. What is said of later places does not matter. -/
theorem ofDocument_first_fault (dialect : Dialect) (origin : Origin) (root : d.IsRoot) :
    (places dialect).map Place.context =
      ["formatter", "formatter.time_format", "formatter.fraction_digits",
        "formatter.trim_fraction_zeros", "formatter.time_zone", "formatter.zero_time",
        "formatter.null_literal", "formatter.convertible_types", "explain", "explain.escaper",
        "explain.numbered_placeholder", "logger", "logger.level", "logger.log_path",
        "logger.slow_threshold_ms", "logger.ignore_record_not_found",
        "logger.parameterized_queries"].map ascii ∧
    ((∃ fault, ofDocument dialect origin d = .error fault) ↔
      ∃ before p, Place.First dialect d before p) ∧
    ∀ before p, Place.First dialect d before p → ∃ problem,
      ofDocument dialect origin d = .error (.invalid p.context problem) ∧
        ∀ d', d'.IsRoot → (∀ q ∈ before ++ [p], q.Same d d') →
          ofDocument dialect origin d' = .error (.invalid p.context problem) := by
  -- The contexts are the same in every dialect, and in one that is given they can be computed.
  have contexts : (places dialect).map Place.context = (places .flow).map Place.context := rfl
  refine ⟨contexts.trans (by rfl), ?_, ?_⟩
  · have refuses : (∃ fault, ofDocument dialect origin d = .error fault) ↔
        ∃ p ∈ places dialect, p.Offends d := by
      rw [error_iff, ofDocument_foldlM dialect origin root,
        foldlM_run_accepts (checks_fit dialect) root]
      simp
    rw [refuses]
    constructor
    · intro some
      obtain ⟨before, p, order, clear, offends⟩ := exists_first some
      exact ⟨before, p, order, clear, offends⟩
    · rintro ⟨before, p, order, -, offends⟩
      exact ⟨p, order.mem List.mem_concat_self, offends⟩
  · intro before p first
    obtain ⟨problem, named⟩ := first_named root first
    exact ⟨problem, named origin d root fun q _ => q.same_refl, named origin⟩

def mistaken : Document :=
  .map [(ascii "logger", .scalar (ascii "off")),
    (ascii "formatter", .map [(ascii "time_zone", .scalar (ascii "mars")),
      (ascii "time_format", .sequence [])])]

def partlyMended : Document :=
  .map [(ascii "formatter", .map [(ascii "time_format", .sequence []),
    (ascii "time_zone", .scalar (ascii "local"))])]

theorem isRoot_mistaken : mistaken.IsRoot := Document.isRoot_of (by decide) (by decide)

theorem isRoot_partlyMended : partlyMended.IsRoot := Document.isRoot_of (by decide) (by decide)

def timePatternRule : Rule :=
  ⟨"formatter", "time_format", Text, Meaning.text, (·.formatter.timePattern)⟩

theorem first_mistaken :
    Place.First .flow mistaken [.group "formatter"] (.key timePatternRule) where
  order := List.take_prefix 2 (places .flow)
  clear := by
    rw [List.forall_mem_singleton, offends_group isRoot_mistaken, not_not]
    exact .inr ⟨_, rfl⟩
  offends := by
    have told : told mistaken timePatternRule = .sequence [] := rfl
    rw [offends_key isRoot_mistaken, Accepted, told]
    rintro (⟨⟨⟩⟩ | ⟨t, ⟨⟩⟩)

/-- Of three mistakes the first is named, and so it is when the others are mended. -/
theorem ofDocument_first_fault_pattern :
    ofDocument .flow .inline mistaken =
        .error (.invalid (ascii "formatter.time_format") .notScalar) ∧
      ofDocument .flow .inline partlyMended =
        .error (.invalid (ascii "formatter.time_format") .notScalar) := by
  have itself : ofDocument .flow .inline mistaken =
      .error (.invalid (ascii "formatter.time_format") .notScalar) := by rfl
  obtain ⟨problem, named, others⟩ :=
    (ofDocument_first_fault .flow .inline isRoot_mistaken).2.2 _ _ first_mistaken
  refine ⟨itself, ?_⟩
  rw [← itself, named]
  apply others partlyMended isRoot_partlyMended
  simp only [List.singleton_append, List.forall_mem_cons]
  have group : Place.Same mistaken partlyMended (.group "formatter") :=
    (same_group isRoot_mistaken isRoot_partlyMended).mpr
      (iff_of_true (.inr ⟨_, rfl⟩) (.inr ⟨_, rfl⟩))
  have key : Place.Same mistaken partlyMended (.key timePatternRule) :=
    (same_key isRoot_mistaken isRoot_partlyMended).mpr rfl
  exact ⟨group, key, List.forall_mem_nil _⟩

end BoundSql.Settings

import BoundSql.Proofs.Loading

/-!
The places where a document can be wrong: its groups of keys, and the keys within them, in their
fixed order. Reading looks at one place after the other, and what it finds there depends neither on
the rest of the document nor on the settings that have been read so far.
-/

namespace BoundSql

open Text

namespace Document

/-- A map in which no key comes twice, nor in any of its parts. -/
structure IsRoot (d : Document) : Prop where
  map : ∃ sections, d = .map sections
  distinct : d.Distinct
  parts : ∀ key v, d.Holds key v → v.Distinct

/-- What stands under a name, or null. -/
def under (d : Document) (name : String) : Document :=
  match d with
  | .map entries => lookup entries (ascii name)
  | _ => .null

theorem distinct_map {entries : List (Text × Document)} :
    (map entries).Distinct ↔ (entries.map Prod.fst).Nodup := by
  simp [Distinct]

instance (d : Document) : Decidable d.Distinct :=
  match d with
  | .map _ => decidable_of_iff _ distinct_map.symm
  | .null | .scalar _ | .sequence _ => isTrue (by rintro _ ⟨⟩)

theorem isRoot_of {sections : List (Text × Document)} (distinct : (sections.map Prod.fst).Nodup)
    (parts : ∀ entry ∈ sections, entry.2.Distinct) : (map sections).IsRoot where
  map := ⟨sections, rfl⟩
  distinct := distinct_map.mpr distinct
  parts := by
    rintro key v ⟨_, ⟨⟩, member⟩
    exact parts _ member

theorem IsRoot.part_iff {d : Document} {name : String} (root : d.IsRoot) :
    (d.under name).IsPart ↔ ∀ v, d.Holds name v → v.IsPart := by
  obtain ⟨sections, rfl⟩ := root.map
  exact Document.part_iff root.distinct

end Document

namespace Settings

open Document (IsRoot)

theorem told_under (d : Document) (r : Rule) : told d r = (d.under r.group).under r.key := by
  cases d with
  | map sections =>
      unfold told
      cases found : Document.lookup sections (ascii r.group) <;> simp [Document.under, found]
  | null | scalar _ | sequence _ => rfl

inductive Place where
  | group (name : String)
  | key (r : Rule)

namespace Place

def context : Place → Text
  | group name => ascii name
  | key r => ascii r.group ++ ascii "." ++ ascii r.key

/-- A group that can have no keys, or a key with a value that means nothing. -/
def Offends (d : Document) : Place → Prop
  | group name => ∃ v, d.Holds name v ∧ ¬ v.IsPart
  | key r => ∃ v, d.Tells r.group r.key v ∧ ¬ ∃ a, r.means v a

/-- Two documents say the same of a place: whether the group can have keys, or which value the key
has. -/
def Same (d d' : Document) : Place → Prop
  | group name => (∀ v, d.Holds name v → v.IsPart) ↔ ∀ v, d'.Holds name v → v.IsPart
  | key r => ∀ v, d.Tells r.group r.key v ↔ d'.Tells r.group r.key v

end Place

/-- A group comes before its keys. -/
def places (dialect : Dialect) : List Place :=
  (groupRules dialect).flatMap fun served => .group served.1 :: served.2.map .key

/-- What is done at a place. -/
structure Check where
  context : Text
  read : Document → Except Problem Change

namespace Check

def group (name : String) : Check where
  context := ascii name
  read d :=
    match d.under name with
    | .null | .map _ => .ok id
    | _ => .error .notMap

def key (group : String) (k : Key) : Check where
  context := ascii group ++ ascii "." ++ ascii k.name
  read d :=
    match (d.under group).under k.name with
    | .null => .ok id
    | v => k.read v

def run (d : Document) (s : Settings) (c : Check) : Except Fault Settings :=
  match c.read d with
  | .ok change => .ok (change s)
  | .error problem => .error (.invalid c.context problem)

end Check

def checks (dialect : Dialect) : List Check :=
  (groups dialect).flatMap fun g => .group g.name :: g.keys.map (.key g.name)

section Reading

variable {sections entries : List (Text × Document)} {g : Group}

theorem run_group (sections : List (Text × Document)) (g : Group) (s : Settings) :
    (Check.group g.name).run (.map sections) s =
      match Document.lookup sections (ascii g.name) with
      | .null | .map _ => .ok s
      | _ => .error (.invalid (ascii g.name) .notMap) := by
  simp only [Check.run, Check.group, Document.under]
  cases Document.lookup sections (ascii g.name) <;> rfl

theorem run_key (part : Document.lookup sections (ascii g.name) = .map entries) (s : Settings)
    (k : Key) :
    (Check.key g.name k).run (.map sections) s = readKey (ascii g.name) entries s k := by
  simp only [Check.run, Check.key, Document.under, part, readKey]
  cases Document.lookup entries (ascii k.name) <;> rfl

theorem run_key_missing (missing : Document.lookup sections (ascii g.name) = .null) (s : Settings)
    (k : Key) : (Check.key g.name k).run (.map sections) s = .ok s := by
  simp only [Check.run, Check.key, Document.under, missing]
  rfl

/-- To read a group is to look at its place and then at its keys. -/
theorem readGroup_checks (s : Settings) :
    readGroup sections s g =
      (Check.group g.name :: g.keys.map (Check.key g.name)).foldlM
        (Check.run (.map sections)) s := by
  have front := run_group sections g s
  simp only [List.foldlM_cons, List.foldlM_map, front, readGroup]
  cases found : Document.lookup sections (ascii g.name) with
  | null =>
      -- The keys of a missing group are looked at as well, but nothing is found.
      have idle (ks : List Key) : ks.foldlM
          (fun s k => (Check.key g.name k).run (.map sections) s) s = .ok s := by
        induction ks with
        | nil => rfl
        | cons k ks ih =>
            rw [List.foldlM_cons, run_key_missing found]
            exact ih
      exact (idle g.keys).symm
  | map entries =>
      simp only [run_key found]
      rfl
  | scalar _ | sequence _ => rfl

theorem ofDocument_checks (dialect : Dialect) (origin : Origin) :
    ofDocument dialect origin (.map sections) =
      (checks dialect).foldlM (Check.run (.map sections)) {} := by
  have read (gs : List Group) (s : Settings) : gs.foldlM (readGroup sections) s =
      (gs.flatMap fun g => Check.group g.name :: g.keys.map (Check.key g.name)).foldlM
        (Check.run (.map sections)) s := by
    induction gs generalizing s with
    | nil => rfl
    | cons g gs ih => simp only [List.foldlM_cons, List.flatMap_cons, List.foldlM_append,
        readGroup_checks, ih]
  exact read (groups dialect) {}

end Reading

section Errors

variable {d : Document} {cs : List Check} {s : Settings} {fault : Fault}

theorem foldlM_run_error (failed : cs.foldlM (Check.run d) s = .error fault) :
    ∃ context problem, fault = .invalid context problem := by
  induction cs generalizing s with
  | nil => cases failed
  | cons c cs ih =>
      rw [List.foldlM_cons, Check.run] at failed
      cases read : c.read d with
      | ok change =>
          rw [read] at failed
          exact ih failed
      | error problem =>
          rw [read] at failed
          exact ⟨c.context, problem, (Except.error.inj failed).symm⟩

/-- Whatever a document holds, it is refused for its root or for one of its places. -/
theorem ofDocument_error {dialect : Dialect} {origin : Origin}
    (failed : ofDocument dialect origin d = .error fault) :
    fault = .rootNotMap origin ∨ ∃ context problem, fault = .invalid context problem := by
  cases d with
  | null => cases failed
  | scalar _ | sequence _ => exact .inl (Except.error.inj failed).symm
  | map sections =>
      rw [ofDocument_checks] at failed
      exact .inr (foldlM_run_error failed)

end Errors

/-- A check accepts what is right at its place, and finds the same wherever the same is said. -/
structure Check.Fits (c : Check) (p : Place) : Prop where
  context : c.context = p.context
  accepts : ∀ {d}, d.IsRoot → ((∃ change, c.read d = .ok change) ↔ ¬ p.Offends d)
  agrees : ∀ {d d'}, d.IsRoot → d'.IsRoot → p.Same d d' → c.read d = c.read d'

section Fitting

variable {dialect : Dialect} {d d' : Document}

theorem read_group (d : Document) (name : String) :
    (Check.group name).read d = .ok id ∧ (d.under name).IsPart ∨
      (Check.group name).read d = .error .notMap ∧ ¬ (d.under name).IsPart := by
  simp only [Check.group]
  cases d.under name with
  | null => exact .inl ⟨rfl, .inl rfl⟩
  | map entries => exact .inl ⟨rfl, .inr ⟨entries, rfl⟩⟩
  | scalar _ | sequence _ => exact .inr ⟨rfl, by simp [Document.IsPart]⟩

theorem offends_group {name : String} (root : d.IsRoot) :
    Place.Offends d (.group name) ↔ ¬ (d.under name).IsPart := by
  rw [root.part_iff]
  simp [Place.Offends]

theorem same_group {name : String} (root : d.IsRoot) (root' : d'.IsRoot) :
    Place.Same d d' (.group name) ↔ ((d.under name).IsPart ↔ (d'.under name).IsPart) := by
  rw [root.part_iff, root'.part_iff]
  rfl

theorem group_fits (name : String) : (Check.group name).Fits (.group name) where
  context := rfl
  accepts := by
    intro d root
    rw [offends_group root, not_not]
    rcases read_group d name with ⟨read, part⟩ | ⟨read, wrong⟩
    · exact iff_of_true ⟨id, read⟩ part
    · exact iff_of_false (by simp [read]) wrong
  agrees := by
    intro d d' root root' same
    have parts := (same_group root root').mp same
    rcases read_group d name with ⟨read, part⟩ | ⟨read, wrong⟩ <;>
      rcases read_group d' name with ⟨read', part'⟩ | ⟨read', wrong'⟩
    · rw [read, read']
    · exact absurd (parts.mp part) wrong'
    · exact absurd (parts.mpr part') wrong
    · rw [read, read']

theorem offends_key {r : Rule} (root : d.IsRoot) :
    Place.Offends d (.key r) ↔ ¬ Accepted d r := by
  rw [accepted_iff root.distinct root.parts]
  simp [Place.Offends]

theorem same_key {r : Rule} (root : d.IsRoot) (root' : d'.IsRoot) :
    Place.Same d d' (.key r) ↔ told d r = told d' r := by
  have tells {d v : Document} (root : d.IsRoot) (some : v ≠ .null) :
      told d r = v ↔ d.Tells r.group r.key v := told_eq root.distinct root.parts some
  constructor
  · intro same
    -- `Tells` says nothing of null, so that both are null is a case of its own.
    by_cases nothing : told d r = .null
    · by_cases nothing' : told d' r = .null
      · rw [nothing, nothing']
      · exact (tells root nothing').mpr ((same _).mpr ((tells root' nothing').mp rfl))
    · exact ((tells root' nothing).mpr ((same _).mp ((tells root nothing).mp rfl))).symm
  · intro same v
    by_cases nothing : v = .null
    · exact iff_of_false (fun told => told.1 nothing) fun told => told.1 nothing
    · rw [← tells root nothing, same, tells root' nothing]

theorem read_key {r : Rule} {k : Key} (serves : Serves dialect k r) :
    (Check.key r.group k).read d = match told d r with
      | .null => .ok id
      | v => k.read v := by
  rw [told_under, ← serves.name]
  rfl

theorem key_fits {r : Rule} {k : Key} (serves : Serves dialect k r) :
    (Check.key r.group k).Fits (.key r) where
  context := by
    rw [Check.key, serves.name]
    rfl
  accepts := by
    intro d root
    rw [offends_key root, not_not, Accepted, read_key serves]
    split
    · next nothing => exact iff_of_true ⟨id, rfl⟩ (.inl nothing)
    · next some =>
        rw [serves.accepts, or_iff_right some]
  agrees := by
    intro d d' root root' same
    rw [read_key serves, read_key serves, (same_key root root').mp same]

theorem checks_fit (dialect : Dialect) :
    List.Forall₂ Check.Fits (checks dialect) (places dialect) := by
  refine List.rel_flatMap (groups_serve dialect) ?_
  rintro g ⟨name, rs⟩ ⟨rfl, keys, group⟩
  refine .cons (group_fits g.name) ?_
  rw [List.forall₂_map_left_iff, List.forall₂_map_right_iff]
  refine List.forall₂_iff_zip.mpr ⟨keys.length_eq, fun {k r} pair => ?_⟩
  have serves : Serves dialect k r := List.forall₂_zip keys pair
  rw [← show r.group = g.name from group r (List.of_mem_zip pair).2]
  exact key_fits serves

end Fitting

end Settings

end BoundSql

import BoundSql.Proofs.Decisions
import BoundSql.Proofs.Lines
import BoundSql.Proofs.Places
import BoundSql.Proofs.Withheld

/-!
How a run can end. It shows the statement and leaves at most one record, which tells the same, or it
does nothing at all; there is nothing between. Without a settings file a run is as with an empty
one.
-/

namespace BoundSql

open Text

namespace Trace

/-- A line that tells a statement: one object, with the statement as a member of its own. -/
def TellsStatement (line sql : Text) : Prop :=
  ∃ members, Json.read? line = some (.object members) ∧ (members.map Prod.fst).Nodup ∧
    (ascii "sql", .string sql) ∈ members

theorem Entry.line_tells (e : Entry) : TellsStatement e.line e.sql :=
  ⟨e.members, read_object e.line_fields (List.cons_ne_nil _ _), e.names_nodup,
    by simp [Entry.members]⟩

variable {s : Settings} (elapsed : Int)

/-- Without an error every level up to that of plain statements has an event. -/
theorem Settings.event_some (low : s.level ≤ .info) : ∃ e, s.event? elapsed none = some e := by
  have decided := event_decided s elapsed none
  cases chosen : s.event? elapsed none with
  | some e => exact ⟨e, rfl⟩
  | none =>
      rw [chosen] at decided
      cases decided with
      | nothing _ _ level => exact absurd low level

theorem Settings.event_none (high : s.level = .error ∨ s.level = .silent) :
    s.event? elapsed none = none := by
  have noError : ¬ ErrorTraced s none := fun ⟨_, f, missing, _⟩ => nomatch missing
  have low (l : Level) : l ≤ .warn → ¬ (l = .error ∨ l = .silent) := by
    cases l <;> decide
  have decided := event_decided s elapsed none
  cases chosen : s.event? elapsed none with
  | none => rfl
  | some e =>
      rw [chosen] at decided
      cases decided with
      | sqlError error => exact absurd error noError
      | slowSql _ slow => exact absurd high (low _ slow.2.2)
      | sql _ _ level => exact absurd high (low _ (Nat.le_succ_of_le level))

end Trace

namespace Command

variable {w : Surroundings} {s : Settings}

/-- The settings that a run goes by: those in the file, or the defaults where there is none. -/
inductive Governs (w : Surroundings) : Settings → Prop
  | file {t s} (present : w.settingsFile = some t)
      (accepted : Settings.ofText w.dialect (.file w.settingsPath) t = .ok s) : Governs w s
  | defaults (missing : w.settingsFile = none) : Governs w {}

/-- Nothing is shown and nothing is recorded. -/
structure Result.Idle (r : Result) (exitCode : Nat) : Prop where
  exitCode : r.exitCode = exitCode
  stdout : r.stdout = []
  records : r.records = []

/-- A statement is shown, and at this level recorded at most once, in the same words. -/
structure Result.Shows (r : Result) (level : Trace.Level) (sql : Text) : Prop where
  exitCode : r.exitCode = 0
  stdout : r.stdout = sql ++ [newline]
  once : r.records.length ≤ 1
  recorded : level ≤ .info → r.records.length = 1
  unrecorded : level = .error ∨ level = .silent → r.records = []
  told : ∀ record ∈ r.records, ∃ text,
    Trace.TellsStatement record.line text ∧ r.stdout = text ++ [newline]

/-- What a run with these words may leave. -/
inductive Outcome (w : Surroundings) (r : Result) : List Text → Prop
  | misused (idle : r.Idle 2) : Outcome w r []
  | refused {template values t} (present : w.settingsFile = some t)
      (rejected : ∀ s, Settings.ofText w.dialect (.file w.settingsPath) t ≠ .ok s)
      (idle : r.Idle 1) :
      Outcome w r (template :: values)
  | unwritable {template values s} (governs : Governs w s)
      (unusable : Trace.Logger.usable s.trace w.opens = false) (idle : r.Idle 1) :
      Outcome w r (template :: values)
  | shown {template values s} (governs : Governs w s)
      (usable : Trace.Logger.usable s.trace w.opens = true)
      (shows : r.Shows s.trace.level
        ((s.logger w.home).explain template (values.map Argument.value))) :
      Outcome w r (template :: values)

theorem Session.result_shows (s : Session) (elapsed : Int) (now : Instant) :
    (s.result elapsed now).Shows s.logger.settings.level s.explained := by
  cases chosen : s.logger.settings.event? elapsed none with
  | none =>
      have records : (s.result elapsed now).records = [] := by
        rw [result, trace, Trace.Settings.trace_nothing chosen]
      have loud (low : s.logger.settings.level ≤ .info) : False := by
        obtain ⟨e, some⟩ := Trace.Settings.event_some elapsed low
        rw [chosen] at some
        cases some
      exact {
        exitCode := rfl
        stdout := rfl
        once := by simp [records]
        recorded := fun low => (loud low).elim
        unrecorded := fun _ => records
        told := by simp [records] }
  | some e =>
      let finished : Trace.Finished := { caller := s.caller, elapsed := elapsed, timestamp := now }
      let entry : Trace.Entry := s.logger.settings.entry finished e s.explained (-1)
      have records : (s.result elapsed now).records = [⟨e.severity, entry.line⟩] := by
        rw [result, trace, Trace.Settings.trace_event chosen]
      have quiet (high : s.logger.settings.level = .error ∨ s.logger.settings.level = .silent) :
          False := by
        rw [Trace.Settings.event_none elapsed high] at chosen
        cases chosen
      exact {
        exitCode := rfl
        stdout := rfl
        once := by simp [records]
        recorded := fun _ => by simp [records]
        unrecorded := fun high => (quiet high).elim
        told := by
          rw [records, List.forall_mem_singleton]
          exact ⟨s.explained, entry.line_tells, rfl⟩ }

theorem ofText_not_missing {dialect : Dialect} {origin : Settings.Origin} {t other : Text} :
    Settings.ofText dialect origin t ≠ .error (.fileMissing other) := by
  intro failed
  unfold Settings.ofText at failed
  split at failed
  · rcases Settings.ofDocument_error failed with same | ⟨_, _, same⟩ <;> cases same
  · cases failed

/-- Settings that are there are refused, or else there are some to go by. -/
theorem settings_cases (w : Surroundings) :
    (∃ s, settings? w = some s ∧ Governs w s) ∨
      settings? w = none ∧ ∃ t, w.settingsFile = some t ∧
        ∀ s, Settings.ofText w.dialect (.file w.settingsPath) t ≠ .ok s := by
  cases present : w.settingsFile with
  | none =>
      refine .inl ⟨{}, ?_, .defaults present⟩
      rw [settings?, present]
      rfl
  | some t =>
      cases read : Settings.ofText w.dialect (.file w.settingsPath) t with
      | ok s =>
          refine .inl ⟨s, ?_, .file present read⟩
          rw [settings?, present, Settings.ofFile, read]
      | error fault =>
          refine .inr ⟨?_, t, rfl, by simp [read]⟩
          rw [settings?, present, Settings.ofFile, read]
          cases fault with
          | fileMissing other => exact absurd read ofText_not_missing
          | malformed _ _ | rootNotMap _ | invalid _ _ => rfl

theorem settings_empty {t : Text} (empty : w.dialect.document t = .ok .null) :
    settings? { w with settingsFile := none } = settings? { w with settingsFile := some t } := by
  simp [settings?, Settings.ofFile, Settings.ofText, empty, Settings.ofDocument]

/-- A run leaves all or nothing: a statement with its record, or an exit code alone. A missing
settings file is as an empty one, and as any that the dialect takes for null. -/
theorem run_outcome (w : Surroundings) (words : List Text) (elapsed : Int) (now : Instant) :
    Outcome w (run w words elapsed now) words ∧
      run { w with settingsFile := none } words elapsed now =
        run { w with settingsFile := some [] } words elapsed now ∧
      ∀ t, w.dialect.document t = .ok .null →
        run { w with settingsFile := none } words elapsed now =
          run { w with settingsFile := some t } words elapsed now := by
  have null (t : Text) (empty : w.dialect.document t = .ok .null) :
      run { w with settingsFile := none } words elapsed now =
        run { w with settingsFile := some t } words elapsed now := by
    cases words with
    | nil => rfl
    | cons template values => simp only [run, session, settings_empty empty, Session.start]
  refine ⟨?_, null [] w.dialect.empty, null⟩
  · cases words with
    | nil => exact .misused ⟨rfl, rfl, rfl⟩
    | cons template values =>
        rcases settings_cases w with ⟨s, found, governs⟩ | ⟨none, t, present, rejected⟩
        · rw [run_found found]
          cases usable : Trace.Logger.usable s.trace w.opens with
          | true => exact .shown governs usable (Session.result_shows _ elapsed now)
          | false => exact .unwritable governs usable ⟨rfl, rfl, rfl⟩
        · have nothing : run w (template :: values) elapsed now = refused := by
            simp only [run, session, none]
          rw [nothing]
          exact .refused present rejected ⟨rfl, rfl, rfl⟩

/-- Without a settings file the statement is shown. -/
theorem run_outcome_defaults :
    let w : Surroundings :=
      { dialect := .flow, settingsPath := ascii "sql.yaml", settingsFile := none,
        opens := fun _ => true, home := .universal, caller := ascii "command line" }
    let words := [ascii "SELECT ?", ascii "7"]
    w.dialect.document [] = .ok .null ∧ Outcome w (run w words 5 Instant.zero) words ∧
      run w words 5 Instant.zero = run { w with settingsFile := some [] } words 5 Instant.zero ∧
      (run w words 5 Instant.zero).exitCode = 0 := by
  intro w words
  have outcome := run_outcome w words 5 Instant.zero
  exact ⟨rfl, outcome.1, outcome.2.2 [] rfl, rfl⟩

end Command

end BoundSql

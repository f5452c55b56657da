import BoundSql.Trace.Logger

/-!
Which statements are traced, and that two filters agree on it. The rules choose an event by the
order of the levels; the back end has a filter of its own. No record that the rules ask for is
held back, so the text of a statement is asked for exactly when a record of it is kept.
-/

namespace BoundSql.Trace

open Text

namespace Level

theorem le_error_iff {l : Level} : l ≤ .error ↔ l ≠ .silent := by
  cases l <;> decide

theorem loud_of_le {l bound : Level} (low : l ≤ bound) (loud : bound ≠ .silent) :
    l ≠ .silent := by
  rintro rfl
  revert low loud
  cases bound <;> decide

/-- The back end filters by the order of the levels, though it has none for silence. -/
theorem keeps_iff (l : Level) (s : Severity) : l.filter.keeps s = true ↔ l.rank ≤ s.rank := by
  cases l <;> cases s <;> decide

end Level

section Rules

variable (s : Settings) (elapsed : Int) (failure : Option Failure)

/-- An error is traced unless it is one of those that are ignored. -/
def ErrorTraced : Prop :=
  s.level ≠ .silent ∧ ∃ f, failure = some f ∧ ¬ (f.notFound = true ∧ s.ignoreNotFound = true)

/-- The threshold counts milliseconds and the time nanoseconds; a threshold of zero is none. -/
def SlownessTraced : Prop :=
  s.slowThreshold ≠ 0 ∧ s.slowThreshold * 1000000 < elapsed ∧ s.level ≤ .warn

/-- What is traced of a finished statement, and how severe it is. -/
inductive Decided : Option (Event × Severity) → Prop
  | sqlError (error : ErrorTraced s failure) : Decided (some (.sqlError, .error))
  | slowSql (noError : ¬ ErrorTraced s failure) (slow : SlownessTraced s elapsed) :
      Decided (some (.slowSql, .warn))
  | sql (noError : ¬ ErrorTraced s failure) (quick : ¬ SlownessTraced s elapsed)
      (level : s.level ≤ .info) : Decided (some (.sql, .info))
  | nothing (noError : ¬ ErrorTraced s failure) (quick : ¬ SlownessTraced s elapsed)
      (level : ¬ s.level ≤ .info) : Decided none

end Rules

namespace Settings

variable {s : Settings} {f : Finished} {elapsed : Int} {failure : Option Failure} {e : Event}

theorem reports_iff :
    (s.reports failure && s.level ≤ .error) = true ↔ ErrorTraced s failure := by
  rw [Bool.and_eq_true, decide_eq_true_eq, Level.le_error_iff, and_comm]
  cases failure with
  | none => simp [reports, ErrorTraced]
  | some f => by_cases notFound : f.notFound = true <;> simp [reports, ErrorTraced, notFound]

theorem isSlow_iff :
    (s.isSlow elapsed && s.level ≤ .warn) = true ↔ SlownessTraced s elapsed := by
  simp [isSlow, SlownessTraced, and_assoc]

/-- The rules in their order, silence being left to each of them. -/
theorem event_rules : s.event? elapsed failure =
    if s.reports failure && s.level ≤ .error then some .sqlError
    else if s.isSlow elapsed && s.level ≤ .warn then some .slowSql
    else if s.level ≤ .info then some .sql
    else none := by
  unfold event?
  by_cases silent : s.level = .silent
  · have error : ¬ s.level ≤ .error := fun low => Level.le_error_iff.mp low silent
    have warn : ¬ s.level ≤ .warn := fun low => Level.loud_of_le low (by decide) silent
    have info : ¬ s.level ≤ .info := fun low => Level.loud_of_le low (by decide) silent
    simp [silent, silent ▸ error, silent ▸ warn, silent ▸ info]
  · rw [if_neg silent]

theorem event_decided (s : Settings) (elapsed : Int) (failure : Option Failure) :
    Decided s elapsed failure ((s.event? elapsed failure).map fun e => (e, e.severity)) := by
  rw [event_rules]
  split
  · next error => exact .sqlError (reports_iff.mp error)
  · next silent =>
      have noError : ¬ ErrorTraced s failure := fun error => silent (reports_iff.mpr error)
      split
      · next slow => exact .slowSql noError (isSlow_iff.mp slow)
      · next other =>
          have quick : ¬ SlownessTraced s elapsed := fun slow => other (isSlow_iff.mpr slow)
          split
          · next level => exact .sql noError quick level
          · next level => exact .nothing noError quick level

/-- Whatever the rules choose passes the filter of the back end. -/
theorem keeps_event (chosen : s.event? elapsed failure = some e) :
    s.level.filter.keeps e.severity = true := by
  have decided := event_decided s elapsed failure
  rw [chosen, Option.map_some] at decided
  apply (Level.keeps_iff s.level e.severity).mpr
  cases e with
  | sqlError =>
      cases decided with
      | sqlError error => exact Level.le_error_iff.mpr error.1
  | slowSql =>
      cases decided with
      | slowSql _ slow => exact slow.2.2
  | sql =>
      cases decided with
      | sql _ _ level => exact level

theorem write_event (chosen : s.event? elapsed failure = some e) (sql : Text) (rows : Int) :
    s.write (s.entry f e sql rows) = [⟨e.severity, (s.entry f e sql rows).line⟩] := by
  have kept := keeps_event chosen
  rw [write, keep, entry, if_pos kept]

theorem trace_nothing (chosen : s.event? f.elapsed f.failure = none)
    (statement : Unit → Text × Int) : s.trace f statement = ⟨0, []⟩ := by
  simp only [trace, steps, chosen]
  rfl

theorem trace_event (chosen : s.event? f.elapsed f.failure = some e)
    (statement : Unit → Text × Int) :
    s.trace f statement =
      ⟨1, [⟨e.severity, (s.entry f e (statement ()).1 (statement ()).2).line⟩]⟩ := by
  rw [← write_event (f := f) chosen]
  simp only [trace, steps, chosen]
  rfl

/-- An ignored error is no error to the rules, and its message is in no entry. -/
theorem trace_ignored {message : Text} (ignored : f.failure = some ⟨message, true⟩)
    (ignores : s.ignoreNotFound = true) (other : Text) (statement : Unit → Text × Int) :
    s.trace { f with failure := some ⟨other, true⟩ } statement = s.trace f statement := by
  have unreported (m : Text) : s.reports (some ⟨m, true⟩) = false := by
    simp [reports, ignores]
  have same : s.event? f.elapsed (some ⟨other, true⟩) = s.event? f.elapsed f.failure := by
    rw [event_rules, event_rules, ignored, unreported, unreported]
  cases chosen : s.event? f.elapsed f.failure with
  | none =>
      rw [trace_nothing chosen, trace_nothing (same.trans chosen)]
  | some e =>
      have decided := event_decided s f.elapsed f.failure
      have plain : e ≠ .sqlError := by
        rintro rfl
        rw [chosen, Option.map_some] at decided
        cases decided with
        | sqlError error =>
            obtain ⟨_, failure, present, told⟩ := error
            rw [ignored] at present
            cases present
            exact told ⟨rfl, ignores⟩
      rw [trace_event chosen, trace_event (same.trans chosen)]
      simp [entry, plain]

end Settings

/-- The statement is asked for at most once, and as often as a record is kept; the record is the
one that the rules decide on, and of an ignored error it tells nothing. -/
theorem trace_decides (s : Settings) (f : Finished) (statement : Unit → Text × Int) :
    (s.trace f statement).calls ≤ 1 ∧
      (s.trace f statement).records.length = (s.trace f statement).calls ∧
      (∃ d, Decided s f.elapsed f.failure d ∧
        (s.trace f statement).records = (d.map fun (event, severity) =>
          ⟨severity, (s.entry f event (statement ()).1 (statement ()).2).line⟩).toList) ∧
      ∀ message, f.failure = some ⟨message, true⟩ → s.ignoreNotFound = true →
        ∀ other, s.trace { f with failure := some ⟨other, true⟩ } statement =
          s.trace f statement := by
  have decided := Settings.event_decided s f.elapsed f.failure
  have ignored (message : Text) (found : f.failure = some ⟨message, true⟩)
      (ignores : s.ignoreNotFound = true) (other : Text) :=
    Settings.trace_ignored found ignores other statement
  cases chosen : s.event? f.elapsed f.failure with
  | none =>
      rw [chosen] at decided
      rw [Settings.trace_nothing chosen] at ignored ⊢
      exact ⟨Nat.zero_le 1, rfl, ⟨none, decided, rfl⟩, ignored⟩
  | some e =>
      rw [chosen] at decided
      rw [Settings.trace_event chosen] at ignored ⊢
      exact ⟨Nat.le_refl 1, rfl, ⟨some (e, e.severity), decided, rfl⟩, ignored⟩

/-- A nanosecond above the greatest threshold, an ignored error is traced as a slow statement. -/
theorem trace_decides_slow :
    let s : Settings := { level := .warn, slowThreshold := 4294967295, ignoreNotFound := true }
    let f : Finished :=
      { caller := ascii "a.cpp:7", elapsed := 4294967295000001,
        failure := some ⟨ascii "no row", true⟩, timestamp := Instant.zero }
    let statement : Unit → Text × Int := fun _ => (ascii "SELECT 1", 0)
    f.failure = some ⟨ascii "no row", true⟩ ∧ s.ignoreNotFound = true ∧
      (s.trace f statement).calls = 1 ∧
      s.trace { f with failure := some ⟨ascii "no record", true⟩ } statement =
        s.trace f statement := by
  intro s f statement
  have decides := trace_decides s f statement
  exact ⟨rfl, rfl, rfl, decides.2.2.2 (ascii "no row") rfl rfl (ascii "no record")⟩

end BoundSql.Trace

import BoundSql.Command
import BoundSql.Settings.Flow

/-!
Runs with parameterized queries. Such a run is told by its template alone: whatever words follow
it, as many as there are, they are neither shown nor recorded, and they decide nothing.
-/

namespace BoundSql.Command

open Text

variable {w : Surroundings} {s : Settings}

namespace Session

variable {a b : Session}

/-- Nothing of the values is left in the one text that is shown and recorded. -/
theorem explained_template (parameterized : a.logger.settings.parameterized = true) :
    a.explained = a.template := by
  rw [explained, Trace.Logger.explain, if_pos parameterized]

theorem trace_template (parameterized : a.logger.settings.parameterized = true) (elapsed : Int)
    (now : Instant) :
    a.trace elapsed now =
      a.logger.settings.trace { caller := a.caller, elapsed := elapsed, timestamp := now }
        fun _ => (a.template, -1) := by
  rw [trace, explained_template parameterized]

/-- Two sessions that differ in nothing but their values leave the same. -/
theorem result_values (logger : a.logger = b.logger) (caller : a.caller = b.caller)
    (template : a.template = b.template)
    (parameterized : a.logger.settings.parameterized = true) (elapsed : Int) (now : Instant) :
    a.result elapsed now = b.result elapsed now := by
  have other : b.logger.settings.parameterized = true := logger ▸ parameterized
  rw [result, result, trace_template parameterized, trace_template other,
    explained_template parameterized, explained_template other, logger, caller, template]

end Session

theorem settings_accepted
    (accepted : Settings.ofFile w.dialect w.settingsPath w.settingsFile = .ok s) :
    settings? w = some s := by
  rw [settings?, accepted]

theorem run_found (found : settings? w = some s) (template : Text) (values : List Text)
    (elapsed : Int) (now : Instant) :
    run w (template :: values) elapsed now =
      if Trace.Logger.usable s.trace w.opens then
        (Session.start w s template values).result elapsed now
      else refused := by
  simp only [run, session, found]
  cases Trace.Logger.usable s.trace w.opens <;> rfl

theorem run_usable
    (accepted : Settings.ofFile w.dialect w.settingsPath w.settingsFile = .ok s)
    (usable : Trace.Logger.usable s.trace w.opens = true) (template : Text) (values : List Text)
    (elapsed : Int) (now : Instant) :
    run w (template :: values) elapsed now =
      (Session.start w s template values).result elapsed now := by
  rw [run_found (settings_accepted accepted), if_pos usable]

theorem run_unusable
    (accepted : Settings.ofFile w.dialect w.settingsPath w.settingsFile = .ok s)
    (unusable : Trace.Logger.usable s.trace w.opens = false) (template : Text)
    (values : List Text) (elapsed : Int) (now : Instant) :
    run w (template :: values) elapsed now = refused := by
  rw [run_found (settings_accepted accepted), unusable]
  rfl

/-- With parameterized queries two runs that differ only in their values leave the same in every
respect: the exit code, the output and each record. The output is the template on a line of its
own, unless the log cannot be written, when there is neither output nor record. -/
theorem run_withholds_values {w : Surroundings} {s : Settings}
    (accepted : Settings.ofFile w.dialect w.settingsPath w.settingsFile = .ok s)
    (parameterized : s.trace.parameterized = true) (template : Text) (values others : List Text)
    (elapsed : Int) (now : Instant) :
    run w (template :: values) elapsed now = run w (template :: others) elapsed now ∧
      ((run w (template :: values) elapsed now).exitCode = 0 ∧
          (run w (template :: values) elapsed now).stdout = template ++ [newline] ∨
        (run w (template :: values) elapsed now).exitCode = 1 ∧
          (run w (template :: values) elapsed now).stdout = [] ∧
          (run w (template :: values) elapsed now).records = []) := by
  cases usable : Trace.Logger.usable s.trace w.opens with
  | true =>
      rw [run_usable accepted usable, run_usable accepted usable]
      constructor
      · apply Session.result_values
        · rfl
        · rfl
        · rfl
        · exact parameterized
      · left
        constructor
        · rfl
        · rw [Session.result, Session.explained_template parameterized]
          rfl
  | false =>
      rw [run_unusable accepted usable, run_unusable accepted usable]
      constructor
      · rfl
      · right
        exact ⟨rfl, rfl, rfl⟩

def withholding : Document :=
  .map [(ascii "logger", .map [(ascii "parameterized_queries", .scalar (ascii "on"))])]

/-- Two values or three, of whatever kinds, leave the same. -/
theorem run_withholds_three :
    let w : Surroundings :=
      { dialect := .flow
        settingsPath := ascii "sql.yaml"
        settingsFile := some (ascii "\x7blogger: \x7bparameterized_queries: \"on\"\x7d\x7d")
        opens := fun _ => true
        home := Zone.universal
        caller := ascii "command line" }
    let s : Settings := { trace := { parameterized := true } }
    Settings.ofFile w.dialect w.settingsPath w.settingsFile = .ok s ∧ s.trace.parameterized = true ∧
      run w [ascii "SELECT ?", ascii "0xCAFE", ascii "1"] 7 Instant.zero =
        run w [ascii "SELECT ?", ascii "null", ascii "-1.5", ascii "key"] 7 Instant.zero := by
  intro w s
  have read : Dialect.flow.document
      (ascii "\x7blogger: \x7bparameterized_queries: \"on\"\x7d\x7d") = .ok withholding :=
    Dialect.flow_document (by cbv)
  have loaded : Settings.ofDocument .flow (.file (ascii "sql.yaml")) withholding =
      .ok { trace := { parameterized := true } } := by rfl
  have accepted : Settings.ofFile w.dialect w.settingsPath w.settingsFile = .ok s := by
    rw [Settings.ofFile, Settings.ofText, read]
    exact loaded
  have withheld := run_withholds_values accepted rfl (ascii "SELECT ?")
    [ascii "0xCAFE", ascii "1"] [ascii "null", ascii "-1.5", ascii "key"] 7 Instant.zero
  exact ⟨accepted, rfl, withheld.1⟩

end BoundSql.Command

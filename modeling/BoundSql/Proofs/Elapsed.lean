import BoundSql.Proofs.Decisions
import BoundSql.Proofs.Lines
import BoundSql.Proofs.RoundingOrder

/-!
The time that a statement took, as its line shows it. The count of nanoseconds is rounded three
times on its way to milliseconds, and each time the order is kept. A whole number of milliseconds
that a threshold may be is not rounded at all, so no slow statement is shown as faster than the
threshold that it was slower than.
-/

namespace BoundSql

open Text Binary Rounding

-- Powers are the built-in ones, whatever else is imported.
attribute [local instance (high)] instPowNat

theorem Json.read_of_writes {t : Text} {v : Json} (written : Writes t v) : read? t = some v := by
  have whole := written (2 * t.length + 1) [] (by simp [Ended])
  have rounds : 2 * (t.length + 1) = 2 * t.length + 1 + 1 := by omega
  rw [List.append_nil, ← rounds] at whole
  rw [read?, whole]
  rfl

namespace Trace

/-- Milliseconds as they are shown for a count of nanoseconds: the double nearest to the count is
divided as doubles are, and of the quotient the nearest thousandth is shown. -/
inductive IsElapsed (nanoseconds : Int) : ℚ → Prop
  | shown {count bits : Nat} {c y : ℚ} {n : Int} (counted : Rounds double nanoseconds count)
      (stands : rational? double count = some c) (divided : Rounds double (c / 10 ^ 6) bits)
      (quotient : rational? double bits = some y) (rounded : Whole (y * 1000) n) :
      IsElapsed nanoseconds (n / 1000)

namespace IsElapsed

variable {a b : Int} {p q : ℚ}

theorem mono (elapsed : IsElapsed a p) (elapsed' : IsElapsed b q) (le : a ≤ b) : p ≤ q := by
  cases elapsed with
  | shown counted stands divided quotient rounded =>
  cases elapsed' with
  | shown counted' stands' divided' quotient' rounded' =>
  have counts := counted.mono counted' stands stands' (by exact_mod_cast le)
  have quotients := divided.mono divided' quotient quotient'
    (div_le_div_of_nonneg_right counts (by positivity))
  have places := rounded.mono rounded' (mul_le_mul_of_nonneg_right quotients (by norm_num))
  exact div_le_div_of_nonneg_right (by exact_mod_cast places) (by norm_num)

/-- All thresholds are doubles, in nanoseconds as well. -/
theorem of_threshold {threshold : Nat} (small : threshold < 2 ^ 32) :
    IsElapsed (threshold * 1000000) threshold := by
  have stands {n : Nat} (fits : n < 2 ^ 53) : ∃ bits, rational? double bits = some n := by
    apply stands_natCast proper_double fits
    apply lt_overflow_double
    exact_mod_cast fits.le.trans (by decide)
  obtain ⟨count, counts⟩ := stands (n := threshold * 1000000) (by omega)
  obtain ⟨bits, quotient⟩ := stands (n := threshold) (by omega)
  have divided : ((threshold * 1000000 : Nat) : ℚ) / 10 ^ 6 = threshold := by
    push_cast
    norm_num
  have places : Whole ((threshold : ℚ) * 1000) (threshold * 1000 : Nat) := by
    exact_mod_cast Whole.refl (threshold * 1000 : Nat)
  have counted : Rounds double (threshold * 1000000 : Int) count := by
    exact_mod_cast rounds_of_stands counts
  have shown : IsElapsed (threshold * 1000000) ((threshold * 1000 : Nat) / 1000 : ℚ) :=
    .shown counted counts (divided ▸ rounds_of_stands quotient) quotient places
  have value : ((threshold * 1000 : Nat) : ℚ) / 1000 = threshold := by
    push_cast
    norm_num
  rwa [value] at shown

end IsElapsed

section Magnitudes

variable {n : Int} (bounded : n.natAbs ≤ 2 ^ 63)

include bounded

theorem count_rounds : (∃ count, Rounds double n count ∧ rational? double count =
      some (withSign (n < 0) ((nearest double n.natAbs 1).units / 2 ^ double.depth))) ∧
    ((nearest double n.natAbs 1).units / 2 ^ double.depth : ℚ) ≤ 2 ^ 64 := by
  have small : (n.natAbs : ℚ) ≤ 2 ^ 63 := by exact_mod_cast bounded
  have single : (n.natAbs / (1 : Nat) : ℚ) = n.natAbs := by rw [Nat.cast_one, div_one]
  have inside := lt_overflow_double (show (n.natAbs / (1 : Nat) : ℚ) ≤ 2 ^ 64 by
    rw [single]
    linarith)
  obtain ⟨rounds, near⟩ := exists_rounds proper_double n.natAbs Nat.one_pos inside (n < 0)
  rw [single, withSign_natAbs] at rounds
  rw [single] at near
  exact ⟨rounds, by linarith⟩

/-- The two doubles behind the milliseconds. -/
theorem elapsedMagnitude_rounds : ∃ count c bits, Rounds double n count ∧
    rational? double count = some c ∧ Rounds double (c / 10 ^ 6) bits ∧
    rational? double bits =
      some (withSign (n < 0) ((elapsedMagnitude n).units / 2 ^ double.depth)) := by
  obtain ⟨⟨count, counted, stands⟩, large⟩ := count_rounds bounded
  generalize magnitude : nearest double n.natAbs 1 = m at stands large
  have positive : 0 < 2 ^ double.depth * 1000000 :=
    Nat.mul_pos (Nat.two_pow_pos _) (show 0 < 1000000 by decide)
  have millionth : (m.units / (2 ^ double.depth * 1000000 : Nat) : ℚ) =
      m.units / 2 ^ double.depth / 10 ^ 6 := by
    rw [div_div, Nat.cast_mul, Nat.cast_pow]
    norm_num only
  have inside := lt_overflow_double
    (show (m.units / (2 ^ double.depth * 1000000 : Nat) : ℚ) ≤ 2 ^ 64 by
      rw [millionth]
      linarith)
  obtain ⟨⟨bits, divided, quotient⟩, -⟩ := exists_rounds proper_double m.units positive inside
    (n < 0)
  rw [millionth, withSign_div] at divided
  rw [← magnitude] at quotient
  exact ⟨count, _, bits, counted, stands, divided, quotient⟩

end Magnitudes

namespace Entry

variable (e : Entry)

theorem whole_thousandths : Whole (withSign (e.elapsed < 0)
    ((elapsedMagnitude e.elapsed).units / 2 ^ double.depth) * 1000) e.thousandths := by
  have whole := whole_quotient (elapsedMagnitude e.elapsed).units (Nat.two_pow_pos double.depth) 3
    (e.elapsed < 0)
  have thousand : (10 : ℚ) ^ 3 = 1000 := by norm_num
  simp only [thousand, Nat.cast_pow, Nat.cast_ofNat, decide_eq_true_eq] at whole
  exact whole

/-- What a line shows of a count of 64 bits. -/
theorem isElapsed_thousandths (bounded : e.elapsed.natAbs ≤ 2 ^ 63) :
    IsElapsed e.elapsed (mkRat e.thousandths 1000) := by
  obtain ⟨count, c, bits, counted, stands, divided, quotient⟩ := elapsedMagnitude_rounds bounded
  rw [Rat.mkRat_eq_div]
  exact .shown counted stands divided quotient e.whole_thousandths

theorem lookup_event : e.members.lookup (ascii "event") = some (.string e.event.name) := rfl

theorem lookup_elapsed :
    e.members.lookup (ascii "elapsed_ms") = some (.number (mkRat e.thousandths 1000)) := rfl

theorem lookup_threshold (slow : e.event = .slowSql) :
    e.members.lookup (ascii "slow_threshold_ms") = some (.number e.slowThreshold) := by
  have errors : e.errorMembers = [] := by simp [errorMembers, slow]
  have threshold : e.thresholdMembers = [(ascii "slow_threshold_ms", .number e.slowThreshold)] := by
    simp [thresholdMembers, slow]
  rw [members, errors, threshold]
  rfl

end Entry

theorem natAbs_count (n : Int64) : n.toInt.natAbs ≤ 2 ^ 63 := by
  have least := n.le_toInt
  have most := n.toInt_lt
  omega

theorem read_elapsedText (n : Int64) : ∃ q,
    Json.read? (elapsedText n.toInt) = some (.number q) ∧ IsElapsed n.toInt q := by
  let e : Entry := { event := .sql, elapsed := n.toInt }
  exact ⟨mkRat e.thousandths 1000, Json.read_of_writes e.elapsed_field.written,
    e.isElapsed_thousandths (natAbs_count n)⟩

theorem threshold_le {threshold elapsed : Int} {q : ℚ} (low : 0 ≤ threshold)
    (high : threshold < 2 ^ 32) (slower : threshold * 1000000 < elapsed)
    (shown : IsElapsed elapsed q) : threshold ≤ q := by
  obtain ⟨n, rfl⟩ := Int.eq_ofNat_of_zero_le low
  have exact := IsElapsed.of_threshold (show n < 2 ^ 32 by omega)
  exact_mod_cast exact.mono shown slower.le

namespace Settings

variable {s : Settings} {f : Finished} {r : Record}

theorem exists_of_mem_records {statement : Unit → Text × Int}
    (member : r ∈ (s.trace f statement).records) : ∃ event sql rows,
      s.event? f.elapsed f.failure = some event ∧ r.line = (s.entry f event sql rows).line := by
  cases chosen : s.event? f.elapsed f.failure with
  | none =>
      rw [trace_nothing chosen] at member
      cases member
  | some event =>
      rw [trace_event chosen] at member
      exact ⟨event, _, _, rfl, congrArg Record.line (List.mem_singleton.mp member)⟩

theorem slow_of_event (chosen : s.event? f.elapsed f.failure = some .slowSql) :
    s.slowThreshold * 1000000 < f.elapsed := by
  have decided := event_decided s f.elapsed f.failure
  rw [chosen] at decided
  cases decided with
  | slowSql _ slow => exact slow.2.1

end Settings

/-- Counts of nanoseconds are shown in milliseconds, rounded to thousandths, and in the order of
the counts. A line that tells of a slow statement never shows less than the threshold beside it. -/
theorem elapsed_consistent :
    (∀ n : Int64, ∃ q, Json.read? (elapsedText n.toInt) = some (.number q) ∧
      IsElapsed n.toInt q) ∧
    (∀ a b : Int64, a ≤ b → ∃ p q, Json.read? (elapsedText a.toInt) = some (.number p) ∧
      Json.read? (elapsedText b.toInt) = some (.number q) ∧ p ≤ q) ∧
    ∀ (s : Settings) (f : Finished) (statement : Unit → Text × Int) (n : Int64),
      1 ≤ s.slowThreshold → s.slowThreshold < 2 ^ 32 → f.elapsed = n.toInt →
      ∀ r ∈ (s.trace f statement).records, ∃ members,
        Json.read? r.line = some (.object members) ∧
        (members.lookup (ascii "event") = some (.string (ascii "slow_sql")) → ∃ q : ℚ,
          members.lookup (ascii "elapsed_ms") = some (.number q) ∧ IsElapsed f.elapsed q ∧
          members.lookup (ascii "slow_threshold_ms") = some (.number s.slowThreshold) ∧
          s.slowThreshold ≤ q) := by
  refine ⟨read_elapsedText, fun a b ordered => ?_, ?_⟩
  · obtain ⟨p, read, shown⟩ := read_elapsedText a
    obtain ⟨q, read', shown'⟩ := read_elapsedText b
    exact ⟨p, q, read, read', shown.mono shown' (Int64.le_iff_toInt_le.mp ordered)⟩
  · intro s f statement n low high count r member
    obtain ⟨event, sql, rows, chosen, line⟩ := Settings.exists_of_mem_records member
    refine ⟨_, line ▸ (line_reads _).2.1, fun told => ?_⟩
    have slow : event = .slowSql := by
      rw [Entry.lookup_event] at told
      exact Event.name_injective (Json.string.inj (Option.some.inj told))
    subst slow
    have bounded : f.elapsed.natAbs ≤ 2 ^ 63 := by
      rw [count]
      exact natAbs_count n
    have shown := (s.entry f .slowSql sql rows).isElapsed_thousandths bounded
    exact ⟨_, Entry.lookup_elapsed _, shown, Entry.lookup_threshold _ rfl,
      threshold_le (by omega) high (Settings.slow_of_event chosen) shown⟩

/-- A nanosecond above the greatest threshold. -/
theorem elapsed_consistent_slow :
    let s : Settings := { level := .warn, slowThreshold := 4294967295 }
    let f : Finished :=
      { caller := ascii "a.cpp:7", elapsed := 4294967295000001, timestamp := Instant.zero }
    let statement : Unit → Text × Int := fun _ => (ascii "SELECT 1", 0)
    ∃ r ∈ (s.trace f statement).records, ∃ members q,
      Json.read? r.line = some (.object members) ∧
      members.lookup (ascii "event") = some (.string (ascii "slow_sql")) ∧
      members.lookup (ascii "elapsed_ms") = some (.number q) ∧ 4294967295 ≤ q := by
  intro s f statement
  have chosen : s.event? f.elapsed f.failure = some .slowSql := by decide
  have records := Settings.trace_event chosen statement
  have member : ⟨.warn, (s.entry f .slowSql (ascii "SELECT 1") 0).line⟩ ∈
      (s.trace f statement).records := by
    rw [records]
    exact List.mem_singleton_self _
  obtain ⟨members, read, told⟩ := elapsed_consistent.2.2 s f statement 4294967295000001
    (by decide) (by decide) (by decide) _ member
  have same := Json.object.inj (Option.some.inj (read.symm.trans (line_reads _).2.1))
  have event : members.lookup (ascii "event") = some (.string (ascii "slow_sql")) := by
    rw [same]
    rfl
  obtain ⟨q, shown, -, -, least⟩ := told event
  exact ⟨_, member, members, q, read, event, shown, by exact_mod_cast least⟩

end Trace

end BoundSql

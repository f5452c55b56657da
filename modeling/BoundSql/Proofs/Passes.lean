import BoundSql.Proofs.Readers
import BoundSql.Regex.Segments

/-!
Bringing a text to its normal form in one pass. Matches are searched for from the left, and the
search goes on where the last match has ended. For a pattern whose matches are what a reader reads,
wherever it is tried, this is the pass of that reader.
-/

namespace BoundSql.Regex

open Text
open Template

/-- A match begins exactly where the reader reads a number, is not empty, and captures it. -/
structure Pattern.Reads (p : Pattern) (r : Reader Text) : Prop where
  found (rounds : Nat) (afterText nonempty : Bool) (c : Cursor) {digits rest : Text}
    (enough : c.rest.length ≤ rounds) (read : r.read? c.rest = some (digits, rest)) :
    ∃ hit after, p.matchAt? rounds afterText nonempty c = some (hit, after) ∧
      hit.text ≠ [] ∧ hit.number = digits ∧ after.rest = rest
  missed (rounds : Nat) (afterText nonempty : Bool) (c : Cursor)
    (enough : c.rest.length ≤ rounds) (missed : r.read? c.rest = none) :
    p.matchAt? rounds afterText nonempty c = none

namespace Pattern

variable {p : Pattern} {r : Reader Text}

/-- What a search has found stands for the front of the text it has passed. -/
def Covers (r : Reader Text) (t : Text) : Option Hit → Prop
  | none => r.rewrite canonical t = t
  | some h =>
      r.rewrite canonical t =
          h.gap ++ canonical h.hit.number ++ r.rewrite canonical h.after.rest ∧
        h.hit.text ≠ [] ∧ h.after.rest.length < t.length

theorem search_covers (reads : p.Reads r) (rounds : Nat) (afterText : Bool) (place : Nat)
    (before : Option UInt8) (t : Text) (enough : t.length ≤ rounds) :
    Covers r t (p.searchFrom rounds afterText place before t) := by
  induction t generalizing afterText place before with
  | nil =>
      have missed := reads.missed rounds afterText false ⟨place, before, []⟩ enough r.read_nil
      simp only [searchFrom, missed]
      exact r.rewrite_nil canonical
  | cons c t ih =>
      cases read : r.read? (c :: t) with
      | none =>
          have missed := reads.missed rounds afterText false ⟨place, before, c :: t⟩ enough read
          have later := ih true (place + 1) (some c) (Nat.le_of_succ_le enough)
          simp only [searchFrom, missed]
          cases found : p.searchFrom rounds true (place + 1) (some c) t with
          | none =>
              rw [found] at later
              exact (r.rewrite_missed _ read).trans (congrArg (List.cons c) later)
          | some h =>
              rw [found] at later
              obtain ⟨same, full, shorter⟩ := later
              refine ⟨?_, full, Nat.lt_succ_of_lt shorter⟩
              rw [r.rewrite_missed _ read, same]
              simp
      | some next =>
          obtain ⟨digits, rest⟩ := next
          obtain ⟨hit, after, found, full, number, same⟩ :=
            reads.found rounds afterText false ⟨place, before, c :: t⟩ enough read
          have atOnce : p.searchFrom rounds afterText place before (c :: t) =
              some ⟨[], hit, after⟩ := by
            unfold searchFrom
            rw [found]
          rw [atOnce]
          refine ⟨?_, full, ?_⟩
          · rw [r.rewrite_found _ read, number, same, List.nil_append]
          · rw [same]
            exact r.shorter read

-- No match is empty, so the search always goes on at the end of the last one.
theorem continued_covers (reads : p.Reads r) (rounds left : Nat) (seen : Bool) (last : Match)
    (c : Cursor) (enough : c.rest.length ≤ rounds) (full : last.text ≠ [])
    (fuel : c.rest.length < left) :
    (p.continued rounds left seen last c).flatMap normalSegment =
      r.rewrite canonical c.rest := by
  induction left generalizing seen last c with
  | zero => simp at fuel
  | succ left ih =>
      have covered := search_covers reads rounds true c.place c.before c.rest enough
      have searched : p.next? rounds seen last c =
          (p.search rounds true c).map fun h => (h, true) := by
        rw [next?, if_neg (by simpa using full)]
      rw [continued, searched, search]
      cases found : p.searchFrom rounds true c.place c.before c.rest with
      | none =>
          rw [found] at covered
          simpa [normalSegment] using covered.symm
      | some h =>
          rw [found] at covered
          obtain ⟨same, fullHit, shorter⟩ := covered
          have tail := ih true h.hit h.after (by omega) fullHit (by omega)
          simp only [Option.map_some, List.flatMap_cons, normalSegment, tail, same,
            List.append_assoc]

end Pattern

end BoundSql.Regex

namespace BoundSql.Template

theorem normalised_reads {p : Regex.Pattern} {r : Reader Text} (reads : p.Reads r) (t : Text) :
    normalised p t = r.rewrite canonical t := by
  have enough : t.length ≤ Regex.Pattern.roundsFor t := by
    simp only [Regex.Pattern.roundsFor]
    omega
  have covered := Regex.Pattern.search_covers reads _ false 0 none t enough
  rw [normalised, Regex.Pattern.segments, Regex.Pattern.search]
  cases found : p.searchFrom (Regex.Pattern.roundsFor t) false 0 none t with
  | none =>
      rw [found] at covered
      simpa [normalSegment] using covered.symm
  | some h =>
      rw [found] at covered
      obtain ⟨same, full, shorter⟩ := covered
      have tail := Regex.Pattern.continued_covers reads (Regex.Pattern.roundsFor t)
        (Regex.Pattern.roundsFor t) false h.hit h.after (by omega) full (by omega)
      simp only [List.flatMap_cons, normalSegment, tail, same, List.append_assoc]

end BoundSql.Template

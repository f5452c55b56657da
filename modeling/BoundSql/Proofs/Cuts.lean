import BoundSql.Proofs.Runs
import BoundSql.Regex.Segments

/-!
What holds of the matches of every pattern. A run only ever moves on in its text: what it has passed
and what is left are the text it began at, and it keeps as many captures as there were. So the
matches of a text and the gaps between them, one after another, are that text again.
-/

namespace BoundSql.Regex

open Text

/-- The second state lies in the same text, no earlier than the first. -/
structure Onward (s e : State) : Prop where
  passed : ∃ between, s.rest = between ++ e.rest ∧ e.place = s.place + between.length
  captures : e.captures.length = s.captures.length

namespace Onward

variable {origin s : State}

theorem refl (s : State) : Onward s s := ⟨⟨[], rfl, rfl⟩, rfl⟩

theorem pass {t later : Text} (onward : Onward origin s) (front : s.rest = t ++ later) :
    Onward origin (s.pass t later) := by
  obtain ⟨⟨between, begun, place⟩, captures⟩ := onward
  refine ⟨⟨between ++ t, ?_, ?_⟩, captures⟩
  · rw [begun, front, List.append_assoc]
    rfl
  · rw [List.length_append, ← Nat.add_assoc, ← place]
    rfl

theorem advance {c : UInt8} {t : Text} (onward : Onward origin s) (front : s.rest = c :: t) :
    Onward origin (s.advance c t) :=
  ⟨(@pass _ _ [c] t onward front).passed, onward.captures⟩

theorem enter (onward : Onward origin s) (path : Path) : Onward origin (s.enter path) :=
  ⟨onward.passed, onward.captures⟩

theorem withCaptures (onward : Onward origin s) {captures : List (Option Text)}
    (kept : captures.length = origin.captures.length) :
    Onward origin (s.withCaptures captures) :=
  ⟨onward.passed, kept⟩

end Onward

/-- Found or not, the outcome is one of a run that has only moved on. -/
def Outcome.Keeps (origin : State) : Outcome → Prop
  | found e => Onward origin e
  | failed captures => captures.length = origin.captures.length

/-- So does whatever is done from any state further on. -/
def Advances (origin : State) (rest : Rest) : Prop :=
  ∀ s, Onward origin s → (rest s).Keeps origin

section Outcomes

variable {origin s : State} {o : Outcome}

theorem keeps_fail (onward : Onward origin s) : (fail s).Keeps origin := onward.captures

theorem Outcome.Keeps.orElse (keeps : o.Keeps origin) {other : List (Option Text) → Outcome}
    (others : ∀ captures, captures.length = origin.captures.length →
      (other captures).Keeps origin) : (o.orElse other).Keeps origin := by
  cases o with
  | found e => exact keeps
  | failed captures => exact others captures keeps

theorem Outcome.Keeps.restoring (keeps : o.Keeps origin) (index : Nat) (earlier : Option Text) :
    (o.restoring index earlier).Keeps origin := by
  cases o with
  | found e => exact keeps
  | failed captures => exact (List.length_set).trans keeps

theorem keeps_accept (scope : Scope) (onward : Onward origin s) :
    (scope.accept s).Keeps origin := by
  unfold Scope.accept
  split
  · exact keeps_fail onward
  · exact onward

end Outcomes

section Repeating

variable {origin : State} {rest : Rest} {reluctant : Bool}

theorem fork_advances {path : Path} {more : Rest} (again : Advances origin more)
    (beyond : Advances origin rest) : Advances origin (fork path reluctant more rest) := by
  intro s onward
  have round (s : State) (here : Onward origin s) :
      (if s.mayEnter path then more (s.enter path) else fail s).Keeps origin := by
    split
    · exact again _ (here.enter path)
    · exact keeps_fail here
  unfold fork
  split
  · exact (beyond s onward).orElse fun captures kept => round _ (onward.withCaptures kept)
  · exact (round s onward).orElse fun captures kept => beyond _ (onward.withCaptures kept)

theorem loop_advances {body : Rest → Rest} {path : Path}
    (round : ∀ rest, Advances origin rest → Advances origin (body rest))
    (beyond : Advances origin rest) (rounds : Nat) :
    Advances origin (loop body path reluctant rest rounds) := by
  induction rounds with
  | zero => exact beyond
  | succ rounds ih => exact fork_advances (round _ ih) beyond

variable {body : Nat → Rest → Rest}

theorem copies_advances
    (round : ∀ i rest, Advances origin rest → Advances origin (body i rest))
    (beyond : Advances origin rest) (first count : Nat) :
    Advances origin (copies body rest first count) := by
  induction count generalizing first with
  | zero => exact beyond
  | succ count ih => exact round first _ (ih (first + 1))

theorem optionalCopies_advances {path : Nat → Path}
    (round : ∀ i rest, Advances origin rest → Advances origin (body i rest))
    (beyond : Advances origin rest) (first count : Nat) :
    Advances origin (optionalCopies body path reluctant rest first count) := by
  induction count generalizing first with
  | zero => exact beyond
  | succ count ih => exact fork_advances (round first _ (ih (first + 1))) beyond

end Repeating

/-- Whatever is matched, a match only moves on if all that follows it does. -/
theorem run_advances {origin : State} (node : Node) (scope : Scope) (path : Path) {rest : Rest}
    (beyond : Advances origin rest) : Advances origin (run scope path node rest) := by
  induction node generalizing scope path rest with
  | empty => exact beyond
  | bytes set =>
      intro s onward
      simp only [run]
      split
      · next c t front =>
          split
          · exact beyond _ (onward.advance front)
          · exact keeps_fail onward
      · exact keeps_fail onward
  | start | finish | boundary =>
      intro s onward
      simp only [run]
      split
      · exact beyond s onward
      · exact keeps_fail onward
  | back index =>
      intro s onward
      simp only [run]
      split
      · next t captured =>
          split
          · next later front => exact beyond _ (onward.pass (after?_eq_some.mp front))
          · exact keeps_fail onward
      · exact keeps_fail onward
  | group index body ih =>
      intro s onward
      refine ih scope _ (fun e further => ?_) s onward
      exact (beyond _ (further.withCaptures (List.length_set.trans further.captures))).restoring _ _
  | look negated body ih =>
      intro s onward
      -- A look ahead is a run of its own from here, of which only the captures stay.
      have inside := ih { scope with origin := s.place } (0 :: path)
        (fun e => keeps_accept { scope with origin := s.place })
        { s with visits := [] } ⟨onward.passed, onward.captures⟩
      simp only [run]
      split
      · next e seen =>
          rw [seen] at inside
          split
          · exact keeps_fail (onward.withCaptures inside.captures)
          · exact beyond _ (onward.withCaptures inside.captures)
      · split
        · exact beyond s onward
        · exact keeps_fail onward
  | seq first second ihFirst ihSecond => exact ihFirst scope _ (ihSecond scope _ beyond)
  | either first second ihFirst ihSecond =>
      intro s onward
      exact (ihFirst scope _ beyond s onward).orElse fun captures kept =>
        ihSecond scope _ beyond _ (onward.withCaptures kept)
  | repetition r reluctant body ih =>
      have round (path : Path) (rest : Rest) :
          Advances origin rest → Advances origin (run scope path body rest) := ih scope path
      cases r with
      | star => exact loop_advances (round _) beyond _
      | plus => exact round _ _ (loop_advances (round _) beyond _)
      | maybe => exact fork_advances (round _ _ beyond) beyond
      | counted least extra =>
          refine copies_advances (fun i => round _) ?_ 0 least
          cases extra with
          | some more => exact optionalCopies_advances (fun i => round _) beyond least more
          | none => exact loop_advances (round _) beyond _

def Segment.source : Segment → Text
  | gap t => t
  | found m => m.text

/-- Gaps and matches in turn that make up a text, a gap at either end. -/
inductive Cut (groups : Nat) : Text → List Segment → Prop
  | last (t : Text) : Cut groups t [.gap t]
  | between {gap t : Text} {m : Match} {segments : List Segment}
      (captures : m.captures.length = groups) (later : Cut groups t segments) :
      Cut groups (gap ++ (m.text ++ t)) (.gap gap :: .found m :: segments)

theorem Cut.source {groups : Nat} {t : Text} {segments : List Segment}
    (cut : Cut groups t segments) : segments.flatMap Segment.source = t := by
  induction cut with
  | last t => simp [Segment.source]
  | between captures later ih => simp [Segment.source, ih]

def Segment.gap? : Segment → Option Text
  | gap t => some t
  | found _ => none

def gaps (segments : List Segment) : List Text := segments.filterMap Segment.gap?

theorem Cut.gaps_clean {groups : Nat} {t : Text} {segments : List Segment} {c : UInt8}
    (cut : Cut groups t segments) (absent : c ∉ t) : ∀ gap ∈ gaps segments, c ∉ gap := by
  induction cut with
  | last t => simpa [gaps, Segment.gap?] using absent
  | between captures later ih =>
      simp only [List.mem_append, not_or] at absent
      intro other member
      rcases List.mem_cons.mp member with rfl | member
      · exact absent.1
      · exact ih absent.2.2 other member

theorem Cut.gaps_ne_nil {groups : Nat} {t : Text} {segments : List Segment}
    (cut : Cut groups t segments) : gaps segments ≠ [] := by
  cases cut <;> simp [gaps, Segment.gap?]

namespace Pattern

variable {p : Pattern} {rounds : Nat}

theorem matchAt_passes {afterText nonempty : Bool} {c after : Cursor} {m : Match}
    (found : p.matchAt? rounds afterText nonempty c = some (m, after)) :
    c.rest = m.text ++ after.rest ∧ m.captures.length = p.groups := by
  let begun : State := ⟨c.place, c.before, c.rest, List.replicate p.groups none, []⟩
  let scope : Scope := ⟨c.place, afterText, nonempty, rounds⟩
  have advances := run_advances p.node scope [] (fun e => keeps_accept scope) begun (.refl begun)
  simp only [matchAt?] at found
  split at found
  · next e ended =>
      rw [ended] at advances
      obtain ⟨⟨between, passed, place⟩, captures⟩ := advances
      cases found
      have front : c.rest = between ++ e.rest := passed
      refine ⟨?_, captures.trans List.length_replicate⟩
      have size : e.place - c.place = between.length := by
        rw [place]
        exact Nat.add_sub_cancel_left _ _
      rw [size, front, List.take_left]
  · cases found

/-- What has been found stands in the text, after the gap and before what is left. -/
def Spans (groups : Nat) (t : Text) (h : Hit) : Prop :=
  t = h.gap ++ (h.hit.text ++ h.after.rest) ∧ h.hit.captures.length = groups

theorem Spans.cons {groups : Nat} {t : Text} {h : Hit} (spans : Spans groups t h) (c : UInt8) :
    Spans groups (c :: t) { h with gap := c :: h.gap } :=
  ⟨congrArg (List.cons c) spans.1, spans.2⟩

theorem Spans.cut {groups : Nat} {t : Text} {h : Hit} {segments : List Segment}
    (spans : Spans groups t h) (later : Cut groups h.after.rest segments) :
    Cut groups t (.gap h.gap :: .found h.hit :: segments) := by
  rw [spans.1]
  exact .between spans.2 later

theorem search_spans {afterText : Bool} {place : Nat} {before : Option UInt8} {t : Text} {h : Hit}
    (found : p.searchFrom rounds afterText place before t = some h) : Spans p.groups t h := by
  induction t generalizing afterText place before h with
  | nil =>
      unfold searchFrom at found
      split at found
      · next hit =>
          cases found
          exact matchAt_passes hit
      · cases found
      · next missed => cases missed
  | cons c t ih =>
      unfold searchFrom at found
      split at found
      · next hit =>
          cases found
          exact matchAt_passes hit
      · next missed => cases missed
      · next missed rest =>
          cases rest
          obtain ⟨later, searched, rfl⟩ := Option.map_eq_some_iff.mp found
          exact (ih searched).cons c

theorem next_spans {seen seen' : Bool} {last : Match} {c : Cursor} {h : Hit}
    (found : p.next? rounds seen last c = some (h, seen')) : Spans p.groups c.rest h := by
  unfold next? at found
  split at found
  · unfold afterEmpty? at found
    split at found
    · cases found
    · next b t front =>
        split at found
        · next hit =>
            cases found
            exact matchAt_passes hit
        · obtain ⟨later, searched, same⟩ := Option.map_eq_some_iff.mp found
          cases same
          rw [front]
          exact (search_spans searched).cons b
  · obtain ⟨later, searched, same⟩ := Option.map_eq_some_iff.mp found
    cases same
    exact search_spans searched

theorem continued_cut (left : Nat) (seen : Bool) (last : Match) (c : Cursor) :
    Cut p.groups c.rest (p.continued rounds left seen last c) := by
  induction left generalizing seen last c with
  | zero => exact .last _
  | succ left ih =>
      unfold continued
      split
      · exact .last _
      · next h seen' found => exact (next_spans found).cut (ih seen' h.hit h.after)

/-- The segments of a text are a cut of it, whatever the pattern. -/
theorem segments_cut (p : Pattern) (t : Text) : Cut p.groups t (p.segments t) := by
  simp only [segments]
  split
  · exact .last _
  · next h found => exact (search_spans found).cut (continued_cut _ false h.hit h.after)

/-- The texts between each two successive matches. -/
def enclosed (p : Pattern) (t : Text) : List Text := (gaps (p.segments t)).tail.dropLast

end Pattern

end BoundSql.Regex

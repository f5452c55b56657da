import BoundSql.Proofs.Passes
import BoundSql.Proofs.Runs

/-!
The pattern of a shape and its matches. Between the fixed bytes stands a group of one or more
digits. A match is found exactly where the shape reads a number, and its group holds that number;
so the text that is scanned for tokens is one pass of the shape, writing each number between dollar
signs.
-/

namespace BoundSql.Regex

open Text
open Template

def decimal : ByteSet := .anyOf (.kind .digit)

theorem holds_decimal (c : UInt8) : decimal.holds c = isDigit c := by
  simp [decimal, ByteSet.anyOf, ByteSet.holds, Member.holds, Kind.holds]

def numeral : Node := .group 1 (.seq (.repetition .plus false (.bytes decimal)) .empty)

def shaped (shape : Shape) : Pattern :=
  ⟨spelled shape.lead (.seq numeral (spelled shape.trail .empty)), 1⟩

/-- What follows the group: the captured digits are kept unless the rest fails. -/
def afterNumeral (rest : Rest) (s : State) : Rest := fun e =>
  let number := s.rest.take (e.place - s.place)
  (rest (e.withCaptures (e.captures.set 0 (some number)))).restoring 1 (e.capture? 1)

section Numeral

variable {scope : Scope} {path : Path} {rest : Rest} {s : State}

theorem run_numeral :
    run scope path numeral rest s =
      run scope (0 :: 0 :: 0 :: path) (.bytes decimal)
        (loop (run scope (0 :: 0 :: 0 :: path) (.bytes decimal)) (0 :: 0 :: path) false
          (afterNumeral rest s) scope.rounds) s :=
  rfl

theorem numeral_finds {good : State → Prop} {digits later : Text} (number : IsNumber digits)
    (ended : NoDigitAhead later) (front : s.rest = digits ++ later) (unseen : s.visits = [])
    (enough : s.rest.length ≤ scope.rounds)
    (finds : ∀ visits, (rest { s.pass digits later with
      captures := s.captures.set 0 (some digits), visits := visits }).Finds good) :
    (run scope path numeral rest s).Finds good := by
  obtain ⟨c, t, rfl⟩ := List.exists_cons_of_ne_nil number.nonempty
  have first : s.rest = c :: (t ++ later) := front
  have digit (b : UInt8) (member : b ∈ c :: t) : decimal.holds b = true :=
    (holds_decimal b).trans (number.digits b member)
  rw [run_numeral, run_bytes_inside first (digit c List.mem_cons_self)]
  refine loop_finds t later scope.rounds _ ?_ rfl
    (fun b member => digit b (List.mem_cons_of_mem c member))
    (fun b member => (holds_decimal b).trans (ended b member))
    (s.roundsHere_advance _ c _ unseen) fun visits => ?_
  · rw [first, List.length_cons, List.length_append] at enough
    omega
  · have taken : s.rest.take ((s.pass (c :: t) later).place - s.place) = c :: t := by
      simp [State.pass, front]
    obtain ⟨e, found, holds⟩ := finds visits
    refine ⟨e, ?_, holds⟩
    rw [State.pass_advance, afterNumeral]
    simp only [taken, State.withCaptures]
    change (rest { s.pass (c :: t) later with
      captures := s.captures.set 0 (some (c :: t)), visits := visits }).restoring 1 _ = _
    rw [found, Outcome.restoring]

theorem numeral_fails_at_once (none : NoDigitAhead s.rest) :
    (run scope path numeral rest s).Fails := by
  rw [run_numeral, run_bytes_outside fun c member => (holds_decimal c).trans (none c member)]
  exact fails_fail s

theorem numeral_fails (stuck : Text → Prop)
    (closed : ∀ c t, isDigit c = true → stuck (c :: t) → stuck t)
    (never : ∀ e : State, stuck e.rest → (rest e).Fails) (here : stuck s.rest) :
    (run scope path numeral rest s).Fails := by
  have shorter (c : UInt8) (t : Text) (digit : decimal.holds c = true) :
      stuck (c :: t) → stuck t := closed c t (holds_decimal c ▸ digit)
  rw [run_numeral]
  refine run_bytes_fails fun c t front digit => ?_
  refine loop_fails stuck shorter (fun e stuckHere => ?_) scope.rounds _
    (shorter c t digit (front ▸ here))
  have failed := never (e.withCaptures
    (e.captures.set 0 (some (s.rest.take (e.place - s.place))))) stuckHere
  exact failed.restoring _ _

end Numeral

/-- The state in which a match of the whole shape ends. -/
def Ends (shape : Shape) (c : Cursor) (digits rest : Text) (e : State) : Prop :=
  e.rest = rest ∧ e.captures = [some digits] ∧
    e.place = c.place + (shape.lead ++ digits ++ shape.trail).length

section Shaped

variable {shape : Shape} {scope : Scope} {c : Cursor}

def Cursor.state (c : Cursor) : State := ⟨c.place, c.before, c.rest, [none], []⟩

theorem run_shaped :
    run scope [] (shaped shape).node scope.accept c.state =
      match after? shape.lead c.rest with
      | some later =>
          run scope (0 :: beyond shape.lead.length []) numeral
            (run scope (1 :: beyond shape.lead.length []) (spelled shape.trail .empty) scope.accept)
            (c.state.pass shape.lead later)
      | none => fail c.state := by
  rw [shaped, run_spelled]
  rfl

theorem run_shaped_finds {digits rest : Text} (origin : scope.origin = c.place)
    (enough : c.rest.length ≤ scope.rounds) (read : shape.read? c.rest = some (digits, rest)) :
    (run scope [] (shaped shape).node scope.accept c.state).Finds (Ends shape c digits rest) := by
  obtain ⟨number, ended, front⟩ := Shape.read_eq_some.mp read
  rw [run_shaped, after?_eq_some.mpr front]
  refine numeral_finds number ended rfl rfl ?_ fun visits => ?_
  · rw [front, List.length_append] at enough
    exact Nat.le_trans (Nat.le_add_left _ _) enough
  · have trail : after? shape.trail (shape.trail ++ rest) = some rest := after?_eq_some.mpr rfl
    have longer := List.length_pos_iff.mpr number.nonempty
    rw [run_spelled]
    simp only [State.pass, trail]
    refine ⟨_, if_neg ?_, rfl, rfl, ?_⟩
    · simp only [origin, Bool.and_eq_true, beq_iff_eq, Cursor.state, not_and]
      omega
    · simp only [List.length_append, Cursor.state]
      omega

-- A trail that begins with no digit cannot stand where a digit is.
theorem after_none_of_digits {trail t : Text} (plain : NoDigitAhead trail)
    (stuck : after? trail (t.dropWhile isDigit) = none) : after? trail t = none := by
  cases t with
  | nil => exact stuck
  | cons b t =>
      by_cases digit : isDigit b = true
      · cases trail with
        | nil => simp [after?] at stuck
        | cons a trail =>
            have other : a ≠ b := by
              rintro rfl
              simp [no_digit_ahead_cons.mp plain] at digit
            rw [after?, if_neg other]
      · rwa [List.dropWhile_cons_of_neg digit] at stuck

theorem run_shaped_fails (plain : NoDigitAhead shape.trail)
    (missed : shape.read? c.rest = none) :
    (run scope [] (shaped shape).node scope.accept c.state).Fails := by
  rw [run_shaped]
  cases front : after? shape.lead c.rest with
  | none => exact fails_fail _
  | some later =>
      by_cases none : later.takeWhile isDigit = []
      · exact numeral_fails_at_once (no_digit_ahead_of_takeWhile none)
      · have stuck : after? shape.trail (later.dropWhile isDigit) = .none :=
          Option.map_eq_none_iff.mp (Shape.read_after_lead front none ▸ missed)
        refine numeral_fails (fun t => after? shape.trail (t.dropWhile isDigit) = .none)
          (fun b t digit same => ?_) (fun e here => ?_) stuck
        · rwa [List.dropWhile_cons_of_pos digit] at same
        · rw [run_spelled, after_none_of_digits plain here]
          exact fails_fail e

end Shaped

def Outcome.hit? (c : Cursor) : Outcome → Option (Match × Cursor)
  | found e =>
      some (⟨c.rest.take (e.place - c.place), e.captures⟩, ⟨e.place, e.before, e.rest⟩)
  | failed _ => none

theorem matchAt_shaped (shape : Shape) (scope : Scope) (c : Cursor)
    (origin : scope.origin = c.place) :
    (shaped shape).matchAt? scope.rounds scope.afterText scope.nonempty c =
      (run scope [] (shaped shape).node scope.accept c.state).hit? c := by
  obtain ⟨place, afterText, nonempty, rounds⟩ := scope
  obtain rfl := origin
  rfl

theorem shaped_reads {shape : Shape} (plain : NoDigitAhead shape.trail) :
    (shaped shape).Reads shape.reader where
  found rounds afterText nonempty c {digits rest} enough read := by
    let scope : Scope := ⟨c.place, afterText, nonempty, rounds⟩
    obtain ⟨e, found, same, captures, place⟩ := @run_shaped_finds shape scope c _ _ rfl enough read
    have matched := matchAt_shaped shape scope c rfl
    rw [found] at matched
    refine ⟨_, _, matched, ?_, ?_, same⟩
    · have longer := List.length_pos_iff.mpr (Shape.read_eq_some.mp read).1.nonempty
      have shorter := shape.reader.shorter read
      simp only [List.length_append] at place
      rw [ne_eq, List.take_eq_nil_iff, not_or]
      exact ⟨by omega, fun none => by simp [none] at shorter⟩
    · simp [Match.number, captures]
  missed rounds afterText nonempty c _ missed := by
    let scope : Scope := ⟨c.place, afterText, nonempty, rounds⟩
    obtain ⟨captures, failed⟩ := @run_shaped_fails shape scope c plain missed
    have matched := matchAt_shaped shape scope c rfl
    rw [failed] at matched
    exact matched

theorem normalised_shaped {shape : Shape} (plain : NoDigitAhead shape.trail) (t : Text) :
    Template.normalised (shaped shape) t = shape.reader.rewrite Template.canonical t :=
  Template.normalised_reads (shaped_reads plain) t

end BoundSql.Regex

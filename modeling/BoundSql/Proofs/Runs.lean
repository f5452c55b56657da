import BoundSql.Regex.Matching

/-!
Running the parts that patterns of placeholders are made of. Fixed bytes are passed as they are
spelled. A greedy repetition of a set of bytes takes all that it can, and gives bytes back only as
long as what follows it fails; if that fails after every shorter run too, the repetition fails.
-/

namespace BoundSql.Regex

open Text

def Outcome.Finds (o : Outcome) (good : State → Prop) : Prop := ∃ s, o = .found s ∧ good s

def Outcome.Fails (o : Outcome) : Prop := ∃ captures, o = .failed captures

theorem Outcome.Finds.orElse {o : Outcome} {good : State → Prop} (finds : o.Finds good)
    (other : List (Option Text) → Outcome) : (o.orElse other).Finds good := by
  obtain ⟨s, rfl, holds⟩ := finds
  exact ⟨s, rfl, holds⟩

theorem Outcome.Fails.orElse {o : Outcome} (fails : o.Fails)
    {other : List (Option Text) → Outcome} (others : ∀ captures, (other captures).Fails) :
    (o.orElse other).Fails := by
  obtain ⟨captures, rfl⟩ := fails
  exact others captures

theorem Outcome.Fails.restoring {o : Outcome} (fails : o.Fails) (index : Nat)
    (earlier : Option Text) : (o.restoring index earlier).Fails := by
  obtain ⟨captures, rfl⟩ := fails
  exact ⟨_, rfl⟩

theorem fails_fail (s : State) : (fail s).Fails := ⟨s.captures, rfl⟩

namespace State

theorem pass_advance (s : State) (c : UInt8) (t between later : Text) :
    (s.advance c between).pass t later = s.pass (c :: t) later := by
  have place : s.place + 1 + t.length = s.place + (t.length + 1) := by omega
  have last : t.getLast?.or (some c) = (c :: t).getLast?.or s.before := by
    rw [List.getLast?_cons]
    cases t.getLast? <;> rfl
  simp only [pass, advance, place, last, List.length_cons]

theorem roundsHere_enter (s : State) (path : Path) (c : UInt8) (t : Text) :
    ((s.enter path).advance c t).roundsHere path = 0 := by
  simp [roundsHere, enter, advance]

theorem roundsHere_advance (s : State) (path : Path) (c : UInt8) (t : Text)
    (unseen : s.visits = []) : (s.advance c t).roundsHere path = 0 := by
  simp [roundsHere, advance, unseen]

end State

section Bytes

variable {scope : Scope} {path : Path} {set : ByteSet} {rest : Rest} {s : State}

theorem run_bytes_end (front : s.rest = []) : run scope path (.bytes set) rest s = fail s := by
  simp only [run, front]

theorem run_bytes_inside {c : UInt8} {t : Text} (front : s.rest = c :: t)
    (inside : set.holds c = true) :
    run scope path (.bytes set) rest s = rest (s.advance c t) := by
  simp only [run, front, inside, ↓reduceIte]

theorem run_bytes_outside (outside : ∀ c ∈ s.rest.head?, set.holds c = false) :
    run scope path (.bytes set) rest s = fail s := by
  cases front : s.rest with
  | nil => exact run_bytes_end front
  | cons c t =>
      have other := outside c (by simp [front])
      simp only [run, front, other, Bool.false_eq_true, ↓reduceIte]

theorem run_bytes_fails (stuck : ∀ c t, s.rest = c :: t → set.holds c = true →
    (rest (s.advance c t)).Fails) : (run scope path (.bytes set) rest s).Fails := by
  by_cases inside : ∃ c ∈ s.rest.head?, set.holds c = true
  · obtain ⟨c, first, holds⟩ := inside
    obtain ⟨t, front⟩ := List.head?_eq_some_iff.mp first
    rw [run_bytes_inside front holds]
    exact stuck c t front holds
  · have outside : ∀ c ∈ s.rest.head?, set.holds c = false := by
      intro c first
      exact Bool.eq_false_iff.mpr fun holds => inside ⟨c, first, holds⟩
    rw [run_bytes_outside outside]
    exact fails_fail s

end Bytes

def spelled (t : Text) (last : Node) : Node :=
  t.foldr (fun c node => .seq (.bytes (.only c)) node) last

-- Where the node after so many spelled bytes stands.
def beyond : Nat → Path → Path
  | 0, path => path
  | n + 1, path => beyond n (1 :: path)

theorem holds_only {b c : UInt8} : (ByteSet.only b).holds c = true ↔ b = c := by
  simp only [ByteSet.holds, ByteSet.only, Member.holds, List.any_cons, List.any_nil, Bool.or_false,
    Bool.bne_false, beq_iff_eq]
  exact eq_comm

theorem run_spelled (scope : Scope) (path : Path) (t : Text) (last : Node) (rest : Rest)
    (s : State) :
    run scope path (spelled t last) rest s =
      match after? t s.rest with
      | some later => run scope (beyond t.length path) last rest (s.pass t later)
      | none => fail s := by
  induction t generalizing path s with
  | nil => rfl
  | cons b t ih =>
      change run scope (0 :: path) (.bytes (.only b)) (run scope (1 :: path) (spelled t last) rest)
        s = _
      cases front : s.rest with
      | nil => rw [run_bytes_end front]; rfl
      | cons c between =>
          by_cases same : b = c
          · rw [run_bytes_inside front (holds_only.mpr same), ih, after?, if_pos same]
            change (match after? t between with
              | some later => _
              | none => _) = _
            cases after? t between with
            | none => rfl
            | some later =>
                rw [same]
                exact congrArg _ (s.pass_advance c t between later)
          · have other : ∀ a ∈ s.rest.head?, (ByteSet.only b).holds a = false := by
              intro a first
              rw [front, List.head?_cons, Option.mem_some] at first
              exact Bool.eq_false_iff.mpr fun holds => same (first ▸ holds_only.mp holds)
            rw [run_bytes_outside other, after?, if_neg same]

section Loop

variable {scope : Scope} {inner path : Path} {set : ByteSet} {rest : Rest}

theorem fork_greedy {more rest : Rest} {s : State} (fresh : s.roundsHere path = 0) :
    fork path false more rest s =
      (more (s.enter path)).orElse fun captures => rest (s.withCaptures captures) := by
  simp only [fork, State.mayEnter, fresh, Nat.zero_lt_succ, decide_true, Bool.false_eq_true,
    ↓reduceIte]

/-- The longest run is taken if what follows the repetition is found after it. -/
theorem loop_finds {good : State → Prop} (t later : Text) (rounds : Nat) (s : State)
    (enough : t.length ≤ rounds) (front : s.rest = t ++ later)
    (inside : ∀ c ∈ t, set.holds c = true) (ended : ∀ c ∈ later.head?, set.holds c = false)
    (fresh : s.roundsHere path = 0)
    (finds : ∀ visits, (rest { s.pass t later with visits := visits }).Finds good) :
    (loop (run scope inner (.bytes set)) path false rest rounds s).Finds good := by
  induction t generalizing rounds s with
  | nil =>
      have stays : (rest s).Finds good := by
        have same := finds s.visits
        rwa [← List.nil_append later, ← front] at same
      cases rounds with
      | zero => exact stays
      | succ rounds =>
          have stopped : run scope inner (.bytes set)
              (loop (run scope inner (.bytes set)) path false rest rounds) (s.enter path) =
                fail (s.enter path) :=
            run_bytes_outside (by simpa [State.enter, front] using ended)
          rw [loop, fork_greedy fresh, stopped]
          exact stays
  | cons c t ih =>
      cases rounds with
      | zero => simp at enough
      | succ rounds =>
          have entered : (s.enter path).rest = c :: (t ++ later) := front
          rw [loop, fork_greedy fresh, run_bytes_inside entered (inside c List.mem_cons_self)]
          refine (ih rounds _ (Nat.le_of_succ_le_succ enough) rfl
            (fun b member => inside b (List.mem_cons_of_mem c member))
            (s.roundsHere_enter path c _) fun visits => ?_).orElse _
          rw [State.pass_advance]
          exact finds visits

/-- Nothing is found if what follows the repetition fails after every run, long or short. -/
theorem loop_fails (stuck : Text → Prop)
    (closed : ∀ c t, set.holds c = true → stuck (c :: t) → stuck t)
    (never : ∀ s : State, stuck s.rest → (rest s).Fails) (rounds : Nat) (s : State)
    (here : stuck s.rest) :
    (loop (run scope inner (.bytes set)) path false rest rounds s).Fails := by
  induction rounds generalizing s with
  | zero => exact never s here
  | succ rounds ih =>
      have another : (run scope inner (.bytes set)
          (loop (run scope inner (.bytes set)) path false rest rounds) (s.enter path)).Fails := by
        refine run_bytes_fails fun c t front inside => ih _ (closed c t inside ?_)
        exact front ▸ here
      rw [loop, fork, if_neg (by simp)]
      refine Outcome.Fails.orElse ?_ fun captures => never _ here
      cases may : s.mayEnter path with
      | true => simpa only [may, ↓reduceIte] using another
      | false => simpa only [may, Bool.false_eq_true, ↓reduceIte] using fails_fail s

end Loop

end BoundSql.Regex

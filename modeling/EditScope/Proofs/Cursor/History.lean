import EditScope.Proofs.Cursor.Queries

set_option autoImplicit false

namespace EditScope

namespace Query

def refusal? (covered : Nat) : Query → Option QueryError
  | .position pos => if pos < covered then some (.outOfOrder covered pos) else none
  | .range start stop =>
    if stop < start then some (.reversedRange start stop)
    else if start < covered then some (.outOfOrder covered start)
    else none

def reach : Query → Nat
  | .position pos => pos
  | .range start stop => max start (stop - 1)

def coveredAfter (covered : Nat) (q : Query) : Nat :=
  if (q.refusal? covered).isSome then covered else q.reach

theorem refusal?_position {covered pos : Nat} :
    (position pos).refusal? covered = none ↔ covered ≤ pos := by
  simp [refusal?]

theorem refusal?_range {covered start stop : Nat} :
    (range start stop).refusal? covered = none ↔ start ≤ stop ∧ covered ≤ start := by
  simp only [refusal?]
  split <;> simp <;> omega

end Query

namespace Cursor

variable {o : Outline} {c : Cursor o} {q : Query} {pos start stop : Nat} {e : QueryError}

def after (c : Cursor o) (queries : List Query) : Cursor o :=
  queries.foldl (fun c q => (c.answer q).2) c

theorem answer_refused (refused : q.refusal? c.covered = some e) : c.answer q = (.error e, c) := by
  cases q with
  | position pos =>
    simp only [Query.refusal?, Option.ite_none_right_eq_some, Option.some.injEq] at refused
    obtain ⟨early, rfl⟩ := refused
    simp only [answer, locate, if_pos early]
  | range start stop =>
    simp only [Query.refusal?] at refused
    split at refused
    · rename_i reversed
      cases refused
      simp only [answer, locateRange, if_pos reversed]
    · rename_i forward
      simp only [Option.ite_none_right_eq_some, Option.some.injEq] at refused
      obtain ⟨early, rfl⟩ := refused
      simp only [answer, locateRange, if_neg forward, if_pos early]

-- Both cursors have moved to the same place, and what follows the move does not look back.
theorem answer_accepted (tracks : Tracks c) (accepted : q.refusal? c.covered = none) :
    ∃ ids c', c.answer q = (.ok ids, c') ∧ (new o).answer q = (.ok ids, c') ∧
      Tracks c' ∧ c'.covered = q.reach := by
  cases q with
  | position pos =>
    have later := Query.refusal?_position.1 accepted
    have fresh : ¬ pos < (new o).covered := Nat.not_lt_zero pos
    refine ⟨[((new o).moveTo pos).current], (new o).moveTo pos, ?_, ?_,
      ⟨_, _, passed_moveTo_new o pos⟩, rfl⟩
    · simp only [answer, locate, if_neg (Nat.not_lt.2 later), moveTo_eq_new tracks later]
    · simp only [answer, locate, if_neg fresh]
  | range start stop =>
    obtain ⟨forward, later⟩ := Query.refusal?_range.1 accepted
    have fresh : ¬ start < (new o).covered := Nat.not_lt_zero start
    refine ⟨((new o).moveTo start).current :: started o (· < stop) ((new o).moveTo start).next, _,
      ?_, ?_, (passed_moveTo_new o start).sweep, rfl⟩
    · simp only [answer, locateRange, if_neg (Nat.not_lt.2 forward), if_neg (Nat.not_lt.2 later),
        moveTo_eq_new tracks later]
      rfl
    · simp only [answer, locateRange, if_neg (Nat.not_lt.2 forward), if_neg fresh]
      rfl

theorem answer_step (tracks : Tracks c) (q : Query) :
    Tracks (c.answer q).2 ∧ (c.answer q).2.covered = q.coveredAfter c.covered := by
  unfold Query.coveredAfter
  cases refusal : q.refusal? c.covered with
  | some e => simp [answer_refused refusal, tracks]
  | none =>
    obtain ⟨_, _, answered, _, tracks', covered⟩ := answer_accepted tracks refusal
    simp [answered, tracks', covered]

theorem after_run (tracks : Tracks c) (history : List Query) :
    Tracks (c.after history) ∧
      (c.after history).covered = history.foldl Query.coveredAfter c.covered := by
  induction history generalizing c with
  | nil => exact ⟨tracks, rfl⟩
  | cons q history ih =>
    obtain ⟨tracks', covered⟩ := answer_step tracks q
    have rest := ih tracks'
    rwa [covered] at rest

theorem answer_after (o : Outline) (history : List Query) (q : Query) :
    let c := (new o).after history
    (∀ e, (c.answer q).1 = .error e ↔ q.refusal? (history.foldl Query.coveredAfter 0) = some e) ∧
      (∀ ids, (c.answer q).1 = .ok ids → ((new o).answer q).1 = .ok ids) ∧
      ∀ e, (c.answer q).1 = .error e →
        ∀ later, ((new o).after (history ++ [q])).answers later = c.answers later := by
  intro c
  obtain ⟨tracks, covered⟩ := after_run (tracks_new o) history
  have covered : c.covered = history.foldl Query.coveredAfter 0 := covered
  have next : (new o).after (history ++ [q]) = (c.answer q).2 := by
    simp only [after, List.foldl_append, List.foldl_cons, List.foldl_nil, c]
  rw [next, ← covered]
  cases refusal : q.refusal? c.covered with
  | some e =>
    rw [answer_refused refusal]
    simp
  | none =>
    obtain ⟨ids, c', answered, alone, _⟩ := answer_accepted tracks refusal
    simp [answered, alone, c]

end Cursor

end EditScope

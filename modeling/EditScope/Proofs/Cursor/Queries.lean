import EditScope.Proofs.Cursor.Innermost

set_option autoImplicit false

namespace EditScope

inductive Query where
  | position (pos : Nat)
  | range (start stop : Nat)
  deriving DecidableEq, Repr

abbrev Answer (o : Outline) := Except QueryError (List o.Id)

namespace Cursor

variable {o : Outline}

def answer (c : Cursor o) : Query → Answer o × Cursor o
  | .position pos =>
    match c.locate pos with
    | .ok (id, c) => (.ok [id], c)
    | .error e => (.error e, c)
  | .range start stop =>
    match c.locateRange start stop with
    | .ok (ids, c) => (.ok ids, c)
    | .error e => (.error e, c)

def answers (c : Cursor o) : List Query → List (Answer o)
  | [] => []
  | q :: queries => (c.answer q).1 :: (c.answer q).2.answers queries

end Cursor

namespace Outline

def searched (o : Outline) (covered : Nat) : Query → Answer o × Nat
  | .position pos =>
    if pos < covered then (.error (.outOfOrder covered pos), covered)
    else (.ok [o.innermost pos], pos)
  | .range start stop =>
    if stop < start then (.error (.reversedRange start stop), covered)
    else if start < covered then (.error (.outOfOrder covered start), covered)
    else (.ok (o.innermost start :: o.startingWithin start stop), max start (stop - 1))

def searchedAll (o : Outline) (covered : Nat) : List Query → List (Answer o)
  | [] => []
  | q :: queries => (o.searched covered q).1 :: o.searchedAll (o.searched covered q).2 queries

end Outline

namespace Cursor

variable {o : Outline} {c : Cursor o}

theorem answer_eq_searched (laminar : o.Laminar) (zero : o.root.span.start = 0) (tracks : Tracks c)
    (q : Query) :
    (c.answer q).1 = (o.searched c.covered q).1 ∧
      (c.answer q).2.covered = (o.searched c.covered q).2 ∧ Tracks (c.answer q).2 := by
  cases q with
  | position pos =>
    unfold answer Outline.searched
    by_cases early : pos < c.covered
    · simp only [locate, if_pos early]
      exact ⟨trivial, trivial, tracks⟩
    · have later := Nat.not_lt.1 early
      simp only [if_neg early, locate_of_le laminar tracks later]
      exact ⟨trivial, rfl, tracks_moveTo tracks later⟩
  | range start stop =>
    unfold answer Outline.searched
    by_cases reversed : stop < start
    · simp only [locateRange, if_pos reversed]
      exact ⟨trivial, trivial, tracks⟩
    by_cases early : start < c.covered
    · simp only [locateRange, if_neg reversed, if_pos early]
      exact ⟨trivial, trivial, tracks⟩
    · obtain ⟨c', found, tracks', covered⟩ := locateRange_of_le laminar tracks zero
        (Nat.not_lt.1 reversed) (Nat.not_lt.1 early)
      simp only [if_neg reversed, if_neg early, found]
      exact ⟨trivial, covered, tracks'⟩

theorem answers_eq (laminar : o.Laminar) (zero : o.root.span.start = 0) (tracks : Tracks c)
    (queries : List Query) : c.answers queries = o.searchedAll c.covered queries := by
  induction queries generalizing c with
  | nil => rfl
  | cons q queries ih =>
    obtain ⟨same, covered, tracks⟩ := answer_eq_searched laminar zero tracks q
    rw [answers, Outline.searchedAll, same, ih tracks, covered]

theorem answers_eq_searched (settings : OutlineSettings) (fallback : Option String)
    (source : List UInt8) (queries : List Query) :
    let o := (Outline.ofSource settings fallback source).1
    (Cursor.new o).answers queries = o.searchedAll 0 queries :=
  answers_eq (Outline.laminar_of_source settings fallback source) rfl (tracks_new _) queries

end Cursor

end EditScope

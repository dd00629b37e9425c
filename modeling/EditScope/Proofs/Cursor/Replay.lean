import EditScope.Outline.Cursor
import EditScope.Proofs.Outline.Enclosing

set_option autoImplicit false

namespace EditScope.Cursor

variable {o : Outline}

theorem started_eq (o : Outline) (p : Nat → Bool) (i : Nat) :
    started o p i = (o.ids.drop i).takeWhile fun id => p (o.node id).span.start := by
  induction left : o.nodes.size - i using Nat.strongRecOn generalizing i with
  | ind _ shorter =>
    rw [started]
    by_cases inside : i < o.nodes.size
    · have cons : o.ids.drop i = ⟨i, inside⟩ :: o.ids.drop (i + 1) := by
        rw [List.drop_eq_getElem_cons (by simpa [Outline.ids] using inside)]
        simp [Outline.ids]
      rw [dif_pos inside, cons, List.takeWhile_cons, shorter _ (by omega) (i + 1) rfl]
      rfl
    · rw [dif_neg inside, List.drop_eq_nil_of_le (by simp [Outline.ids]; omega)]
      rfl

theorem ids_eq (o : Outline) : o.ids = o.rootId :: o.ids.drop 1 := by
  have pos : 0 < o.ids.length := by simpa [Outline.ids] using o.nonempty
  have cons := List.drop_eq_getElem_cons pos
  rw [List.drop_zero] at cons
  rw [cons]
  simp [Outline.ids, Outline.rootId]

variable {pos pos' : Nat} {id p : o.Id}

theorem climb_of_lt (inside : pos < (o.node id).span.stop) : climb o pos id = id := by
  rw [climb, if_pos inside]

theorem climb_of_parent? (passed : ¬ pos < (o.node id).span.stop) (found : o.parent? id = some p) :
    climb o pos id = climb o pos p := by
  rw [climb, if_neg passed]
  split
  · rename_i found'
    rw [Option.some.inj (found.symm.trans found')]
  · rename_i none
    simp [none] at found

theorem climb_of_root (top : o.parent? id = none) : climb o pos id = id := by
  rw [climb]
  split
  · rfl
  · split
    · rename_i found
      simp [found] at top
    · rfl

theorem climb_climb (later : pos ≤ pos') (id : o.Id) :
    climb o pos' (climb o pos id) = climb o pos' id := by
  induction id using Outline.outwards_induction with
  | top id found => rw [climb_of_root found]
  | inner id p found ih =>
    by_cases inside : pos < (o.node id).span.stop
    · rw [climb_of_lt inside]
    · have passed : ¬ pos' < (o.node id).span.stop := by omega
      rw [climb_of_parent? inside found, climb_of_parent? passed found, ih]

/-- Climbing from where the cursor stands is climbing from the last of `passed`. -/
structure Passed (c : Cursor o) (passed rest : List o.Id) : Prop where
  split : o.ids.drop 1 = passed ++ rest
  next : c.next = 1 + passed.length
  started : ∀ id ∈ passed, (o.node id).span.start ≤ c.covered
  current : ∀ pos, c.covered ≤ pos →
    climb o pos c.current = climb o pos (passed.getLast?.getD o.rootId)

def Tracks (c : Cursor o) : Prop := ∃ passed rest, Passed c passed rest

theorem passed_new (o : Outline) : Passed (new o) [] (o.ids.drop 1) :=
  ⟨rfl, rfl, by simp, fun _ _ => rfl⟩

theorem tracks_new (o : Outline) : Tracks (new o) := ⟨_, _, passed_new o⟩

variable {c : Cursor o} {passed rest : List o.Id}

theorem Passed.started_eq (past : Passed c passed rest) (p : Nat → Bool) :
    Cursor.started o p c.next = rest.takeWhile fun id => p (o.node id).span.start := by
  rw [Cursor.started_eq, past.next, ← List.drop_drop, past.split, List.drop_left]

theorem getLast?_append_getD (xs ys : List o.Id) (default : o.Id) :
    (xs ++ ys).getLast?.getD default = ys.getLast?.getD (xs.getLast?.getD default) := by
  cases last : ys.getLast? <;> simp [List.getLast?_append, last]

theorem Passed.moveTo_eq (past : Passed c passed rest) (later : c.covered ≤ pos) :
    c.moveTo pos =
      let gone := (o.ids.drop 1).takeWhile fun id => (o.node id).span.start ≤ pos
      ⟨climb o pos (gone.getLast?.getD o.rootId), 1 + gone.length, pos⟩ := by
  have gone : ((o.ids.drop 1).takeWhile fun id => (o.node id).span.start ≤ pos) =
      passed ++ rest.takeWhile fun id => (o.node id).span.start ≤ pos := by
    rw [past.split, List.takeWhile_append_of_pos]
    intro id mem
    have := past.started id mem
    simp only [decide_eq_true_eq]
    omega
  simp only [moveTo, past.started_eq]
  simp only [past.next, gone, List.length_append, Nat.add_assoc, getLast?_append_getD]
  cases rest.takeWhile fun id => (o.node id).span.start ≤ pos with
  | nil => simp only [List.getLast?_nil, Option.getD_none, past.current pos later]
  | cons id ids => simp only [List.getLast?_cons, Option.getD_some]

theorem moveTo_eq_new (tracks : Tracks c) (later : c.covered ≤ pos) :
    c.moveTo pos = (new o).moveTo pos := by
  obtain ⟨passed, rest, past⟩ := tracks
  rw [past.moveTo_eq later, (passed_new o).moveTo_eq (Nat.zero_le pos)]

theorem passed_moveTo_new (o : Outline) (pos : Nat) :
    Passed ((new o).moveTo pos)
      ((o.ids.drop 1).takeWhile fun id => (o.node id).span.start ≤ pos)
      ((o.ids.drop 1).dropWhile fun id => (o.node id).span.start ≤ pos) := by
  rw [(passed_new o).moveTo_eq (Nat.zero_le pos)]
  refine ⟨List.takeWhile_append_dropWhile.symm, rfl, ?_, ?_⟩
  · intro id mem
    simpa using List.all_eq_true.1 List.all_takeWhile id mem
  · intro pos' later
    exact climb_climb later _

theorem tracks_moveTo (tracks : Tracks c) (later : c.covered ≤ pos) : Tracks (c.moveTo pos) := by
  rw [moveTo_eq_new tracks later]
  exact ⟨_, _, passed_moveTo_new o pos⟩

theorem Passed.sweep {stop : Nat} (past : Passed c passed rest) :
    let inner := Cursor.started o (· < stop) c.next
    Tracks ⟨inner.getLast?.getD c.current, c.next + inner.length, max c.covered (stop - 1)⟩ := by
  intro inner
  have inner_eq : inner = rest.takeWhile fun id => (o.node id).span.start < stop :=
    past.started_eq _
  refine ⟨passed ++ inner, rest.dropWhile fun id => (o.node id).span.start < stop, ?_, ?_, ?_, ?_⟩
  · rw [past.split, List.append_assoc, inner_eq, List.takeWhile_append_dropWhile]
  · simp only [past.next, List.length_append]
    omega
  · intro id mem
    rcases List.mem_append.1 mem with mem | mem
    · exact Nat.le_trans (past.started id mem) (Nat.le_max_left ..)
    · rw [inner_eq] at mem
      have := List.all_eq_true.1 List.all_takeWhile id mem
      simp only [decide_eq_true_eq] at this
      simp only
      omega
  · intro pos later
    rw [getLast?_append_getD]
    cases last : inner.getLast? with
    | none => exact past.current pos (Nat.le_trans (Nat.le_max_left ..) later)
    | some id => rfl

end EditScope.Cursor

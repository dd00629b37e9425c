import EditScope.Proofs.Cursor.Replay
import EditScope.Proofs.Outline.Laminar

set_option autoImplicit false

namespace EditScope.Outline

def innermost (o : Outline) (pos : Nat) : o.Id :=
  ((o.ids.filter fun id => (o.node id).span.contains pos).getLast?).getD o.rootId

def startingWithin (o : Outline) (start stop : Nat) : List o.Id :=
  o.ids.filter fun id => start < (o.node id).span.start ∧ (o.node id).span.start < stop

variable {o : Outline} {i j : o.Id} {pos : Nat}

theorem eq_root_of_outwards (mem : i ∈ o.outwards o.rootId) : i = o.rootId := by
  rcases mem_outwards.1 mem with same | mem
  · exact same
  · exact absurd (lt_of_mem_enclosing mem) (Nat.not_lt_zero _)

theorem mem_ids (o : Outline) (id : o.Id) : id ∈ o.ids := List.mem_finRange id

theorem ids_ascending (o : Outline) : o.ids.Pairwise (· < ·) := by
  rw [List.pairwise_iff_getElem]
  intro i j _ _ less
  simpa [ids] using less

end EditScope.Outline

namespace EditScope.Cursor

open Outline

variable {o : Outline} {i : o.Id} {pos : Nat}

theorem climb_mem_outwards (pos : Nat) (i : o.Id) : climb o pos i ∈ o.outwards i := by
  induction i using outwards_induction with
  | top i found => simp [climb_of_root found, outwards]
  | inner i p found ih =>
    by_cases inside : pos < (o.node i).span.stop
    · simp [climb_of_lt inside, outwards]
    · rw [climb_of_parent? inside found, outwards, enclosing_of_parent? found]
      exact List.mem_cons_of_mem _ ih

theorem climb_cases (pos : Nat) (i : o.Id) :
    pos < (o.node (climb o pos i)).span.stop ∨ o.parent? (climb o pos i) = none := by
  induction i using outwards_induction with
  | top i found =>
    rw [climb_of_root found]
    exact .inr found
  | inner i p found ih =>
    by_cases inside : pos < (o.node i).span.stop
    · rw [climb_of_lt inside]
      exact .inl inside
    · rw [climb_of_parent? inside found]
      exact ih

theorem mem_outwards_climb {a : o.Id} (mem : a ∈ o.outwards i) (inside : pos < (o.node a).span.stop) :
    a ∈ o.outwards (climb o pos i) := by
  induction i using outwards_induction with
  | top i found =>
    rw [climb_of_root found]
    exact mem
  | inner i p found ih =>
    by_cases here : pos < (o.node i).span.stop
    · rw [climb_of_lt here]
      exact mem
    · rw [climb_of_parent? here found]
      rw [outwards, enclosing_of_parent? found] at mem
      rcases List.mem_cons.1 mem with rfl | mem
      · exact absurd inside here
      · exact ih mem

theorem contains_climb (enclosed : o.Enclosed) {last : o.Id}
    (reached : last ≠ o.rootId → (o.node last).span.start ≤ pos) :
    climb o pos last = o.rootId ∨ (o.node (climb o pos last)).span.contains pos := by
  by_cases root : climb o pos last = o.rootId
  · exact .inl root
  · have way := climb_mem_outwards pos last
    have started : (o.node last).span.start ≤ pos := by
      refine reached fun same => root ?_
      rw [same] at way ⊢
      exact eq_root_of_outwards way
    have low : (o.node (climb o pos last)).span.start ≤ (o.node last).span.start := by
      rcases mem_outwards.1 way with same | mem
      · exact Nat.le_of_eq (by rw [same])
      · exact (enclosed.within_of_enclosing mem).1
    have high := (climb_cases pos last).resolve_right fun top =>
      root (enclosed.eq_root_of_parent? top)
    right
    simp only [Span.contains, Bool.and_eq_true, decide_eq_true_eq]
    omega

theorem le_getLast? {ids : List o.Id} {last a : o.Id} (ascending : ids.Pairwise (· < ·))
    (found : ids.getLast? = some last) (mem : a ∈ ids) : a ≤ last := by
  obtain ⟨before, rfl⟩ := List.getLast?_eq_some_iff.1 found
  rcases List.mem_append.1 mem with mem | mem
  · exact Nat.le_of_lt ((List.pairwise_append.1 ascending).2.2 a mem last (List.mem_singleton_self _))
  · exact Nat.le_of_eq (congrArg Fin.val (List.mem_singleton.1 mem))

theorem getLast?_eq_of_ascending {ids : List o.Id} (ascending : ids.Pairwise (· < ·)) (mem : i ∈ ids)
    (greatest : ∀ a ∈ ids, a ≤ i) : ids.getLast? = some i := by
  cases found : ids.getLast? with
  | none => simp [List.getLast?_eq_none_iff.1 found] at mem
  | some last =>
    have le := greatest last (List.mem_of_getLast? found)
    exact congrArg some (Fin.ext (Nat.le_antisymm le (le_getLast? ascending found mem)))

theorem innermost_eq_of_last (mem : (o.node i).span.contains pos)
    (last : ∀ a, (o.node a).span.contains pos → a ≤ i) : o.innermost pos = i := by
  have found := getLast?_eq_of_ascending (i := i)
    ((ids_ascending o).filter fun id => (o.node id).span.contains pos)
    (List.mem_filter.2 ⟨mem_ids o i, mem⟩) (fun a mem => last a (List.mem_filter.1 mem).2)
  rw [innermost, found]
  rfl

theorem innermost_eq_root (none : ∀ a, a ≠ o.rootId → (o.node a).span.contains pos = false) :
    o.innermost pos = o.rootId := by
  unfold innermost
  cases last : (o.ids.filter fun id => (o.node id).span.contains pos).getLast? with
  | none => rfl
  | some a =>
    have contains := (List.mem_filter.1 (List.mem_of_getLast? last)).2
    by_cases root : a = o.rootId
    · exact root
    · simp [none a root] at contains

theorem takeWhile_eq_filter {α : Type} {p : α → Bool} {xs : List α}
    (mono : xs.Pairwise fun a b => p b → p a) : xs.takeWhile p = xs.filter p := by
  induction xs with
  | nil => rfl
  | cons a xs ih =>
    obtain ⟨first, rest⟩ := List.pairwise_cons.1 mono
    by_cases here : p a
    · rw [List.takeWhile_cons_of_pos here, List.filter_cons_of_pos here, ih rest]
    · rw [List.takeWhile_cons_of_neg here, List.filter_cons_of_neg here]
      exact (List.filter_eq_nil_iff.2 fun b mem holds => here (first b mem holds)).symm

theorem dropWhile_eq_filter {α : Type} {p : α → Bool} {xs : List α}
    (mono : xs.Pairwise fun a b => p b → p a) : xs.dropWhile p = xs.filter (!p ·) := by
  induction xs with
  | nil => rfl
  | cons a xs ih =>
    obtain ⟨first, rest⟩ := List.pairwise_cons.1 mono
    by_cases here : p a
    · rw [List.dropWhile_cons_of_pos here, List.filter_cons_of_neg (by simpa using here), ih rest]
    · rw [List.dropWhile_cons_of_neg here, List.filter_cons_of_pos (by simpa using here)]
      congr 1
      exact (List.filter_eq_self.2 fun b mem => by
        simpa using fun holds => here (first b mem holds)).symm

theorem start_last_started (o : Outline) (pos : Nat) :
    let gone := (o.ids.drop 1).takeWhile fun id => (o.node id).span.start ≤ pos
    let last := gone.getLast?.getD o.rootId
    last ≠ o.rootId → (o.node last).span.start ≤ pos := by
  intro gone
  cases found : gone.getLast? with
  | none => exact fun inner => absurd rfl inner
  | some last =>
    show last ≠ o.rootId → (o.node last).span.start ≤ pos
    intro _
    simpa using List.all_eq_true.1 List.all_takeWhile last (List.mem_of_getLast? found)

section

variable {c : Cursor o} {start stop : Nat} (laminar : o.Laminar) (tracks : Tracks c)

include laminar

-- Starts ascend in preorder, so what has started by a position are the first declarations.
theorem starts_mono {p : Nat → Bool} (down : ∀ {m n}, m ≤ n → p n → p m) :
    (o.ids.drop 1).Pairwise fun a b => p (o.node b).span.start → p (o.node a).span.start := by
  have ascending : (o.ids.drop 1).Pairwise (· < ·) :=
    (ids_ascending o).sublist (List.drop_sublist 1 _)
  refine ascending.imp ?_
  intro a b less
  exact down (laminar.start_mono (Nat.le_of_lt less))

theorem last_started (pos : Nat) :
    let gone := (o.ids.drop 1).takeWhile fun id => (o.node id).span.start ≤ pos
    let last := gone.getLast?.getD o.rootId
    (last ≠ o.rootId → (o.node last).span.start ≤ pos) ∧
      ∀ a, a ≠ o.rootId → (o.node a).span.start ≤ pos → a ≤ last := by
  intro gone
  have eq : gone = (o.ids.drop 1).filter fun id => (o.node id).span.start ≤ pos :=
    takeWhile_eq_filter (starts_mono laminar (p := (· ≤ pos)) (by simp; omega))
  have started {a : o.Id} (inner : a ≠ o.rootId) (le : (o.node a).span.start ≤ pos) : a ∈ gone := by
    have mem := mem_ids o a
    rw [ids_eq] at mem
    rw [eq]
    exact List.mem_filter.2 ⟨(List.mem_cons.1 mem).resolve_left inner, by simpa using le⟩
  refine ⟨start_last_started o pos, fun a inner le => ?_⟩
  have mem := started inner le
  cases found : gone.getLast? with
  | none => simp [List.getLast?_eq_none_iff.1 found] at mem
  | some last =>
    refine le_getLast? ?_ found mem
    rw [eq]
    exact ((ids_ascending o).sublist (List.drop_sublist 1 _)).filter _

theorem climb_eq_innermost {last : o.Id} (reached : last ≠ o.rootId → (o.node last).span.start ≤ pos)
    (greatest : ∀ a, a ≠ o.rootId → (o.node a).span.start ≤ pos → a ≤ last) :
    climb o pos last = o.innermost pos := by
  -- Every declaration around `pos` lies on the way out from the last one that has started.
  have around {a : o.Id} (inner : a ≠ o.rootId) (here : (o.node a).span.contains pos) :
      a ∈ o.outwards (climb o pos last) := by
    simp only [Span.contains, Bool.and_eq_true, decide_eq_true_eq] at here
    refine mem_outwards_climb (mem_outwards.2 ?_) here.2
    rcases Nat.eq_or_lt_of_le (greatest a inner here.1) with same | less
    · exact .inl (Fin.ext same)
    · refine .inr ((laminar.apart a last less).resolve_right ?_)
      have started := reached fun root => by simp [root, rootId] at less
      omega
  rcases contains_climb laminar.inside reached with root | inside
  · rw [root] at around ⊢
    refine (innermost_eq_root fun a inner => ?_).symm
    cases here : (o.node a).span.contains pos with
    | false => rfl
    | true => exact absurd (eq_root_of_outwards (around inner here)) inner
  · refine (innermost_eq_of_last inside fun a here => ?_).symm
    by_cases inner : a = o.rootId
    · exact inner ▸ Nat.zero_le _
    rcases mem_outwards.1 (around inner here) with same | mem
    · exact Nat.le_of_eq (congrArg Fin.val same)
    · exact Nat.le_of_lt (lt_of_mem_enclosing mem)

include tracks

theorem current_moveTo (later : c.covered ≤ pos) : (c.moveTo pos).current = o.innermost pos := by
  obtain ⟨passed, rest, past⟩ := tracks
  obtain ⟨reached, greatest⟩ := last_started laminar pos
  rw [past.moveTo_eq later]
  exact climb_eq_innermost laminar reached greatest

theorem started_moveTo (zero : o.root.span.start = 0) (later : c.covered ≤ start) :
    started o (· < stop) (c.moveTo start).next = o.startingWithin start stop := by
  rw [moveTo_eq_new tracks later, (passed_moveTo_new o start).started_eq]
  have below : (o.ids.drop 1).Pairwise fun a b =>
      decide ((o.node b).span.start ≤ start) → decide ((o.node a).span.start ≤ start) :=
    starts_mono laminar (p := (· ≤ start)) (by simp; omega)
  have before : (o.ids.drop 1).Pairwise fun a b =>
      decide ((o.node b).span.start < stop) → decide ((o.node a).span.start < stop) :=
    starts_mono laminar (p := (· < stop)) (by simp; omega)
  have unit : ¬ start < (o.node o.rootId).span.start := by
    have : (o.node o.rootId).span.start = 0 := zero
    omega
  rw [dropWhile_eq_filter below, takeWhile_eq_filter (before.filter _), List.filter_filter,
    startingWithin, ids_eq o, List.filter_cons_of_neg (by simp [unit])]
  refine List.filter_congr fun id _ => ?_
  rcases Nat.lt_or_ge start (o.node id).span.start with after | before
  · simp [after, Nat.not_le.2 after]
  · simp [before, Nat.not_lt.2 before]

theorem locate_of_le (later : c.covered ≤ pos) :
    c.locate pos = .ok (o.innermost pos, c.moveTo pos) := by
  simp only [locate, if_neg (Nat.not_lt.2 later), current_moveTo laminar tracks later]

theorem locateRange_of_le (zero : o.root.span.start = 0) (forward : start ≤ stop)
    (later : c.covered ≤ start) :
    ∃ c' : Cursor o, c.locateRange start stop =
      .ok (o.innermost start :: o.startingWithin start stop, c') ∧
        Tracks c' ∧ c'.covered = max start (stop - 1) := by
  obtain ⟨_, _, past⟩ := tracks_moveTo tracks later
  refine ⟨_, ?_, past.sweep, rfl⟩
  simp only [locateRange, if_neg (Nat.not_lt.2 forward), if_neg (Nat.not_lt.2 later),
    current_moveTo laminar tracks later, started_moveTo laminar tracks zero later]
  rfl

end

end EditScope.Cursor

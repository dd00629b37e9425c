import EditScope.Proofs.Cursor.Innermost

set_option autoImplicit false

namespace EditScope

def Span.Meets (s : Span) (start stop : Nat) : Prop :=
  ∃ pos, start ≤ pos ∧ pos < stop ∧ s.contains pos

namespace Outline

variable {o : Outline} {i : o.Id} {pos : Nat}

theorem innermost_of_contains (here : (o.node i).span.contains pos) :
    (o.node (o.innermost pos)).span.contains pos ∧ i ≤ o.innermost pos := by
  have mem : i ∈ o.ids.filter fun id => (o.node id).span.contains pos :=
    List.mem_filter.2 ⟨mem_ids o i, here⟩
  unfold innermost
  cases found : (o.ids.filter fun id => (o.node id).span.contains pos).getLast? with
  | none => simp [List.getLast?_eq_none_iff.1 found] at mem
  | some last =>
    exact ⟨(List.mem_filter.1 (List.mem_of_getLast? found)).2,
      Cursor.le_getLast? ((ids_ascending o).filter _) found mem⟩

theorem innermost_of_not_contains (none : ∀ a, (o.node a).span.contains pos = false) :
    o.innermost pos = o.rootId :=
  Cursor.innermost_eq_root fun a _ => none a

theorem Laminar.mem_outwards_innermost (laminar : o.Laminar) (here : (o.node i).span.contains pos) :
    i ∈ o.outwards (o.innermost pos) := by
  obtain ⟨inside, le⟩ := innermost_of_contains here
  rcases Nat.eq_or_lt_of_le le with same | less
  · exact mem_outwards.2 (.inl (Fin.ext same))
  · refine mem_outwards.2 (.inr ((laminar.apart i _ less).resolve_right ?_))
    simp only [Span.contains, Bool.and_eq_true, decide_eq_true_eq] at here inside
    omega

theorem contains_root (zero : o.root.span.start = 0) (inside : pos < o.root.span.stop) :
    (o.node o.rootId).span.contains pos := by
  have low : (o.node o.rootId).span.start = 0 := zero
  have high : pos < (o.node o.rootId).span.stop := inside
  simp [Span.contains, low, high]

theorem mem_startingWithin {start stop : Nat} : i ∈ o.startingWithin start stop ↔
    start < (o.node i).span.start ∧ (o.node i).span.start < stop := by
  simp [startingWithin, mem_ids]

section Touched

variable {start stop : Nat} (laminar : o.Laminar) (zero : o.root.span.start = 0)
  (forward : start < stop)

include laminar

theorem Laminar.reported_of_meets (meets : (o.node i).span.Meets start stop) :
    ∃ j ∈ o.innermost start :: o.startingWithin start stop, i ∈ o.outwards j := by
  obtain ⟨pos, low, high, here⟩ := meets
  by_cases after : start < (o.node i).span.start
  · -- It starts inside the range, and is reported itself.
    simp only [Span.contains, Bool.and_eq_true, decide_eq_true_eq] at here
    have within : i ∈ o.startingWithin start stop := mem_startingWithin.2 ⟨after, by omega⟩
    exact ⟨i, List.mem_cons_of_mem _ within, mem_outwards.2 (.inl rfl)⟩
  · -- It contains the first byte of the range.
    have first : (o.node i).span.contains start := by
      simp only [Span.contains, Bool.and_eq_true, decide_eq_true_eq] at here ⊢
      omega
    exact ⟨_, List.mem_cons_self .., laminar.mem_outwards_innermost first⟩

include zero forward

theorem Laminar.meets_of_reported (inside : start < o.root.span.stop)
    (mem : i ∈ o.innermost start :: o.startingWithin start stop) :
    (o.node i).span.Meets start stop := by
  rcases List.mem_cons.1 mem with rfl | mem
  · have first := (innermost_of_contains (contains_root zero inside)).1
    exact ⟨start, Nat.le_refl _, forward, first⟩
  · obtain ⟨after, before⟩ := mem_startingWithin.1 mem
    have inner : i ≠ o.rootId := by
      rintro rfl
      have low : (o.node o.rootId).span.start = 0 := zero
      omega
    have proper := laminar.nonempty i inner
    refine ⟨(o.node i).span.start, Nat.le_of_lt after, before, ?_⟩
    simpa [Span.contains] using proper

end Touched

end Outline

namespace Cursor

open Outline

theorem locateRange_touched (settings : OutlineSettings) (fallback : Option String)
    (source : List UInt8) {start stop : Nat} (forward : start < stop)
    (inside : start < source.length) :
    let o := (Outline.ofSource settings fallback source).1
    ∃ ids c, (new o).locateRange start stop = .ok (ids, c) ∧
      (∀ i, (o.node i).span.Meets start stop → i ∈ ids ∨ ∃ j ∈ ids, i ∈ o.enclosing j) ∧
      (∀ j ∈ ids, (o.node j).span.Meets start stop) ∧
      ∀ pos, start ≤ pos → pos < stop →
        o.innermost pos ∈ ids ∨ ∃ j ∈ ids, o.innermost pos ∈ o.enclosing j := by
  intro o
  have laminar : o.Laminar := laminar_of_source settings fallback source
  obtain ⟨c, found, _⟩ :=
    locateRange_of_le laminar (tracks_new o) rfl (Nat.le_of_lt forward) (Nat.zero_le start)
  have touched (i : o.Id) (meets : (o.node i).span.Meets start stop) :
      i ∈ o.innermost start :: o.startingWithin start stop ∨
        ∃ j ∈ o.innermost start :: o.startingWithin start stop, i ∈ o.enclosing j := by
    obtain ⟨j, mem, way⟩ := laminar.reported_of_meets meets
    rcases mem_outwards.1 way with rfl | outer
    · exact .inl mem
    · exact .inr ⟨j, mem, outer⟩
  have unit : (o.node o.rootId).span.Meets start stop :=
    ⟨start, Nat.le_refl _, forward, contains_root rfl inside⟩
  refine ⟨_, c, found, touched, fun j => laminar.meets_of_reported rfl forward inside,
    fun pos low high => touched _ ?_⟩
  by_cases around : ∃ a, (o.node a).span.contains pos
  · obtain ⟨a, here⟩ := around
    exact ⟨pos, low, high, (innermost_of_contains here).1⟩
  · rw [innermost_of_not_contains fun a => Bool.eq_false_iff.2 fun here => around ⟨a, here⟩]
    exact unit

theorem locateRange_touched_siblings :
    let source := "class A\x7bvoid f()\x7b\x7dclass B\x7b\x7dvoid h();\x7d".toList.map Piece.byte
    let o := (Outline.ofSource {} none source).1
    17 < 34 ∧ 17 < source.length ∧ ∃ ids c, (new o).locateRange 17 34 = .ok (ids, c) ∧
      ids.map (fun j => (o.node j).name) = ["f", "B", "h"] ∧
      ∀ i, (o.node i).span.Meets 17 34 → i ∈ ids ∨ ∃ j ∈ ids, i ∈ o.enclosing j := by
  intro source o
  have forward : 17 < 34 := by decide
  have inside : 17 < source.length := by decide +kernel
  obtain ⟨ids, c, found, touched, _⟩ := locateRange_touched {} none source forward inside
  have names : (((new o).locateRange 17 34).toOption.map fun a =>
      a.1.map fun j => (o.node j).name) = some ["f", "B", "h"] := by decide +kernel
  rw [found] at names
  exact ⟨forward, inside, ids, c, found, Option.some.inj names, touched⟩

end Cursor

end EditScope

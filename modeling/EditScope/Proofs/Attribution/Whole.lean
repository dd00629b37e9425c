import EditScope.Proofs.Attribution.Reversal
import EditScope.Proofs.Outline.Nearest

set_option autoImplicit false

namespace EditScope

namespace Outline

def Leading (o : Outline) (i : o.Id) : Prop := i ≠ o.rootId ∧ (o.node i).span.start = 0

instance (o : Outline) (i : o.Id) : Decidable (o.Leading i) :=
  inferInstanceAs (Decidable (i ≠ o.rootId ∧ (o.node i).span.start = 0))

def Spread (o : Outline) : Prop :=
  ∀ i j : o.Id, i < j → i ≠ o.rootId → (o.node i).span.start < (o.node j).span.start

theorem spread_of_numbered {source : List UInt8} {d d' : Declaration Span} {policy : Overloads}
    (reported : Reported source d) (laminar : d.Laminar Span.layout)
    (numbered : policy.Numbered d d') : (ofDeclaration d').Spread := by
  intro i' j' less inner
  obtain ⟨i, sameI⟩ := exists_merged numbered i'
  obtain ⟨j, sameJ⟩ := exists_merged numbered j'
  rw [(numbered_node numbered sameI).span, (numbered_node numbered sameJ).span]
  have less : i.val < j.val := by
    rw [← sameI, ← sameJ]
    exact less
  exact start_lt reported laminar less (ne_root_of_same sameI inner)

theorem spread_of_source (settings : OutlineSettings) (fallback : Option String)
    (source : List UInt8) : (ofSource settings fallback source).1.Spread :=
  spread_of_numbered (declared_reported settings fallback source)
    (declared_laminar settings.merging fallback (some nestingLimit) source)
    (declared_numbered settings fallback source)

variable {o : Outline} {i j : o.Id}

theorem Laminar.stop_le (laminar : o.Laminar) (i : o.Id) : (o.node i).span.stop ≤ o.root.span.stop := by
  by_cases root : i = o.rootId
  · exact Nat.le_of_eq (by rw [root]; rfl)
  · exact (laminar.within_of_enclosing (laminar.root_mem_enclosing root)).2

theorem Laminar.eq_root_of_nameOf (laminar : o.Laminar) (same : o.nameOf i = o.nameOf o.rootId) :
    i = o.rootId := by
  have enclosing := congrArg QualifiedName.enclosing same
  simp only [nameOf, enclosing_of_root parent?_rootId, List.map_nil, List.map_eq_nil_iff] at enclosing
  cases found : o.parent? i with
  | none => exact laminar.eq_root_of_parent? found
  | some p => simp [enclosing_of_parent? found] at enclosing

section Leading

variable (spread : o.Spread) (leading : o.Leading i)

include spread leading

theorem eq_of_leading (inner : j ≠ o.rootId) (start : (o.node j).span.start = 0) : j = i := by
  have first := leading.2
  rcases Nat.lt_trichotomy j.val i.val with less | same | more
  · have := spread j i less inner
    omega
  · exact Fin.ext same
  · have := spread i j more leading.1
    omega

theorem innermost_of_leading (laminar : o.Laminar) : o.innermost 0 = i := by
  have first := leading.2
  have proper := laminar.nonempty i leading.1
  refine Cursor.innermost_eq_of_last (by simp [Span.contains, first]; omega) fun a contains => ?_
  simp only [Span.contains, Bool.and_eq_true, decide_eq_true_eq] at contains
  refine Nat.not_lt.1 fun later => ?_
  have := spread i a later leading.1
  omega

theorem parent?_of_leading (ranked : o.Ranked) :
    o.parent? i = some o.rootId ∧ (o.node i).kind = .type := by
  obtain ⟨p, found, admits⟩ := ranked.admitted i leading.1
  obtain rfl : p = o.rootId := by
    by_contra inner
    have := spread p i (o.parent?_lt found) inner
    have := leading.2
    omega
  rw [show (o.node o.rootId).kind = .unit from ranked.unit] at admits
  exact ⟨found, admits⟩

end Leading

theorem innermost_of_not_leading (none : ∀ i, ¬ o.Leading i) : o.innermost 0 = o.rootId := by
  refine Cursor.innermost_eq_root fun a inner => ?_
  have start : (o.node a).span.start ≠ 0 := fun start => none a ⟨inner, start⟩
  simp [Span.contains, start]

end Outline

namespace Attribution

open Outline

variable {old new o : Outline}

theorem touched_whole (laminar : o.Laminar) (spread : o.Spread) (zero : o.root.span.start = 0)
    (name : QualifiedName) : Touched o [⟨0, o.root.span.stop⟩] name ↔
      ∃ i, o.nameOf i = name ∧ (i = o.rootId → ∀ j, ¬ o.Leading j) := by
  simp only [Touched, List.mem_singleton, exists_eq_left]
  refine exists_congr fun i => and_congr_right fun _ => ?_
  have inside (inner : i ≠ o.rootId) : (o.node i).span.start < o.root.span.stop :=
    Nat.lt_of_lt_of_le (laminar.nonempty i inner) (laminar.stop_le i)
  have zero : (o.node o.rootId).span.start = 0 := zero
  by_cases some : ∃ j, o.Leading j
  · obtain ⟨j, leading⟩ := some
    rw [innermost_of_leading spread leading laminar]
    constructor
    · rintro touched rfl
      rcases touched with same | ⟨later, _⟩
      · exact absurd same.symm leading.1
      · omega
    · intro root
      have inner : i ≠ o.rootId := fun same => root same j leading
      by_cases start : (o.node i).span.start = 0
      · exact .inl (eq_of_leading spread leading inner start)
      · exact .inr ⟨by omega, inside inner⟩
  · have none : ∀ j, ¬ o.Leading j := not_exists.1 some
    rw [innermost_of_not_leading none]
    refine iff_of_true ?_ fun _ => none
    by_cases root : i = o.rootId
    · exact .inl root
    · have start : (o.node i).span.start ≠ 0 := fun start => none i ⟨root, start⟩
      exact .inr ⟨by omega, inside root⟩

theorem mem_added {c : Change} : c ∈ added o ↔ c.kind = .add ∧ ∃ i, o.nameOf i = c.declaration := by
  obtain ⟨name, kind⟩ := c
  rw [added, Change.sorted, mem_ascending, List.mem_map]
  constructor
  · rintro ⟨n, mem, same⟩
    obtain ⟨i, _, rfl⟩ := List.mem_map.1 mem
    cases same
    exact ⟨rfl, i, rfl⟩
  · rintro ⟨rfl, i, rfl⟩
    exact ⟨_, List.mem_map_of_mem (mem_ids o i), rfl⟩

theorem map_undo_added (o : Outline) : (added o).map Change.undo = deleted o := by
  have once (c : Change) (memc : c ∈ added o) (d : Change) (memd : d ∈ added o)
      (same : c.declaration = d.declaration) : c = d := by
    have kinds := (mem_added.1 memc).1.trans (mem_added.1 memd).1.symm
    cases c
    cases d
    cases same
    cases kinds
    rfl
  refine eq_of_ascending (Change.ascending_undo (ascending_pairwise _) once) (ascending_pairwise _)
    fun c => ?_
  rw [deleted, Change.sorted, Change.mem_map_undo, added, Change.sorted, mem_ascending, mem_ascending,
    ← Change.mem_map_undo, List.map_map]
  rfl

theorem map_undo_filter (cs : List Change) (name : QualifiedName) :
    (cs.filter (· ≠ ⟨name, .add⟩)).map Change.undo =
      (cs.map Change.undo).filter (· ≠ ⟨name, .delete⟩) := by
  rw [List.filter_map]
  congr 2
  funext c
  obtain ⟨other, kind⟩ := c
  cases kind <;> simp [Change.undo, Change.Kind.undo]

theorem ascending_of_modified {hunks : List Hunk} {cs : List Change}
    (ok : modified old new hunks = .ok cs) : cs.Pairwise fun c d => compare c d = .lt := by
  obtain ⟨before, after, touched⟩ := exists_touchedNames ok
  obtain ⟨_, ok', ascending, _⟩ := modified_of_touchedNames touched
  cases ok.symm.trans ok'
  exact ascending

section Whole

variable (oldLaminar : old.Laminar) (newLaminar : new.Laminar) (spread : new.Spread)
  (oldZero : old.root.span.start = 0) (newZero : new.root.span.start = 0)

include oldLaminar newLaminar spread oldZero newZero

theorem exists_modified_whole : ∃ cs,
    modified old new [.addition ⟨0, new.root.span.stop⟩] = .ok cs ∧ ∀ c, c ∈ cs ↔ c.kind = .add ∧
      ∃ i, new.nameOf i = c.declaration ∧ (i = new.rootId → ∀ j, ¬ new.Leading j) := by
  have ordered : Ordered [.addition ⟨0, new.root.span.stop⟩] := by
    simp [Ordered, InOrder, deletedRanges, addedRanges, Hunk.addition]
  obtain ⟨cs, ok, _, mem⟩ := modified_of_ordered oldLaminar newLaminar oldZero newZero ordered
  refine ⟨cs, ok, fun c => ?_⟩
  obtain ⟨name, kind⟩ := c
  have before : ¬ Touched old [] name := by simp [Touched]
  have after := touched_whole newLaminar spread newZero name
  rw [mem]
  cases kind <;> simp [Attributed, deletedRanges, addedRanges, Hunk.addition, before, after]

theorem modified_whole (none : ∀ j, ¬ new.Leading j) :
    modified old new [.addition ⟨0, new.root.span.stop⟩] = .ok (added new) := by
  obtain ⟨cs, ok, mem⟩ := exists_modified_whole oldLaminar newLaminar spread oldZero newZero
  refine ok.trans (congrArg Except.ok ?_)
  refine eq_of_ascending (ascending_of_modified ok) (ascending_pairwise _) fun c => ?_
  rw [mem, mem_added]
  simp [none]

theorem modified_whole_of_leading {j : new.Id} (leading : new.Leading j) :
    modified old new [.addition ⟨0, new.root.span.stop⟩] =
      .ok ((added new).filter (· ≠ ⟨new.nameOf new.rootId, .add⟩)) := by
  obtain ⟨cs, ok, mem⟩ := exists_modified_whole oldLaminar newLaminar spread oldZero newZero
  refine ok.trans (congrArg Except.ok ?_)
  refine eq_of_ascending (ascending_of_modified ok) ((ascending_pairwise _).filter _) fun c => ?_
  rw [mem, List.mem_filter, mem_added, and_assoc]
  refine and_congr_right fun add => ?_
  -- No declaration shares the name of the unit, for no other name has only one part.
  have unit : decide (c ≠ ⟨new.nameOf new.rootId, .add⟩) ↔ c.declaration ≠ new.nameOf new.rootId := by
    obtain ⟨name, kind⟩ := c
    cases add
    simp
  rw [unit]
  constructor
  · rintro ⟨i, named, root⟩
    exact ⟨⟨i, named⟩, fun same => root (newLaminar.eq_root_of_nameOf (named.trans same)) j leading⟩
  · rintro ⟨⟨i, named⟩, other⟩
    exact ⟨i, named, fun root => absurd (by rw [← named, root]) other⟩

end Whole

theorem changes_whole (settings : OutlineSettings) (old new : FileText) :
    let before := (outline settings old).1
    let after := (outline settings new).1
    let putIn := (changes settings (.modified old new [.addition ⟨0, new.content.length⟩])).1
    let takenOut := (changes settings (.modified old new [.deletion ⟨0, old.content.length⟩])).1
    ((∀ i, ¬ after.Leading i) → putIn = (changes settings (.added new)).1) ∧
      (∀ i, after.Leading i →
        after.parent? i = some after.rootId ∧ (after.node i).kind = .type ∧
        putIn = (changes settings (.added new)).1.map
          (List.filter (· ≠ ⟨after.nameOf after.rootId, .add⟩))) ∧
      ((∀ i, ¬ before.Leading i) → takenOut = (changes settings (.deleted old)).1) ∧
      ∀ i, before.Leading i →
        before.parent? i = some before.rootId ∧ (before.node i).kind = .type ∧
        takenOut = (changes settings (.deleted old)).1.map
          (List.filter (· ≠ ⟨before.nameOf before.rootId, .delete⟩)) := by
  intro before after putIn takenOut
  have laminar (t : FileText) := laminar_of_source settings t.unitHint t.content
  have spread (t : FileText) := spread_of_source settings t.unitHint t.content
  have ranked (t : FileText) := ranked_of_source settings t.unitHint t.content
  refine ⟨modified_whole (laminar old) (laminar new) (spread new) rfl rfl, fun i leading => ?_,
    fun none => ?_, fun i leading => ?_⟩
  · obtain ⟨parent, kind⟩ := parent?_of_leading (spread new) leading (ranked new)
    exact ⟨parent, kind,
      modified_whole_of_leading (laminar old) (laminar new) (spread new) rfl rfl leading⟩
  -- What is taken out of the old file is put in again on the way back.
  · have back := modified_undo_of_ok
      (modified_whole (laminar new) (laminar old) (spread old) rfl rfl none)
    rw [map_undo_added] at back
    exact back
  · obtain ⟨parent, kind⟩ := parent?_of_leading (spread old) leading (ranked old)
    refine ⟨parent, kind, ?_⟩
    have back := modified_undo_of_ok
      (modified_whole_of_leading (laminar new) (laminar old) (spread old) rfl rfl leading)
    rw [map_undo_filter, map_undo_added] at back
    exact back

theorem changes_whole_leading :
    let new : FileText := ⟨"class A\x7bvoid f()\x7b\x7d\x7d".toList.map Piece.byte, none⟩
    let unit : NamePart := ⟨.unit, "<default>"⟩
    (outline {} new).1.Leading ⟨1, by decide +kernel⟩ ∧
      (changes {} (.modified ⟨[], none⟩ new [.addition ⟨0, new.content.length⟩])).1 =
        (changes {} (.added new)).1.map (List.filter (· ≠ ⟨⟨unit, []⟩, .add⟩)) := by
  intro new unit
  have leading : (outline {} new).1.Leading ⟨1, by decide +kernel⟩ := by decide +kernel
  have name : (outline {} new).1.nameOf (outline {} new).1.rootId = ⟨unit, []⟩ := by decide +kernel
  rw [← name]
  exact ⟨leading, ((changes_whole {} ⟨[], none⟩ new).2.1 _ leading).2.2⟩

end Attribution

end EditScope

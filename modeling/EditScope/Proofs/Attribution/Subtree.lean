import EditScope.Proofs.Attribution.Whole

set_option autoImplicit false

namespace EditScope

open Std

section Lists

variable {α : Type} [Ord α] [TransOrd α] {p xs ys zs : List α}

theorem compareLex_of_prefix (inner : xs <+: ys) (proper : xs ≠ ys) :
    List.compareLex compare xs ys = .lt := by
  induction xs generalizing ys with
  | nil =>
    obtain ⟨y, ys, rfl⟩ := List.exists_cons_of_ne_nil proper.symm
    exact List.compareLex_nil_cons
  | cons x xs ih =>
    obtain ⟨rest, rfl, rests⟩ := List.cons_prefix_iff.1 inner
    rw [List.compareLex_cons_cons, ReflOrd.compare_self]
    exact ih rests fun same => proper (congrArg _ same)

theorem prefix_of_between [LawfulEqOrd α] (low : (List.compareLex compare xs ys).isLE)
    (high : (List.compareLex compare ys zs).isLE) (first : p <+: xs) (last : p <+: zs) : p <+: ys := by
  induction p generalizing xs ys zs with
  | nil => exact List.nil_prefix
  | cons a p ih =>
    obtain ⟨xs', rfl, first'⟩ := List.cons_prefix_iff.1 first
    obtain ⟨zs', rfl, last'⟩ := List.cons_prefix_iff.1 last
    cases ys with
    | nil => simp [List.compareLex] at low
    | cons y ys =>
      rw [List.compareLex_cons_cons, Ordering.isLE_then_iff_and] at low high
      -- Both ends of the stretch begin with `a`, and so does what lies between them.
      obtain rfl : a = y := LawfulEqOrd.eq_of_compare (OrientedCmp.isLE_antisymm low.1 high.1)
      have tails : (List.compareLex compare xs' ys).isLE ∧ (List.compareLex compare ys zs').isLE := by
        simpa [ReflOrd.compare_self] using And.intro low.2 high.2
      exact List.cons_prefix_cons.2 ⟨rfl, ih tails.1 tails.2 first' last'⟩

end Lists

namespace QualifiedName

def Contains (p n : QualifiedName) : Prop := p.outermost <+: n.outermost

instance (p n : QualifiedName) : Decidable (p.Contains n) :=
  inferInstanceAs (Decidable (p.outermost <+: n.outermost))

variable {p a b c : QualifiedName}

theorem lt_of_contains (inner : a.Contains b) (proper : a ≠ b) : compare a b = .lt :=
  compareLex_of_prefix inner fun same => proper (outermost_inj same)

theorem contains_of_between (low : (compare a b).isLE) (high : (compare b c).isLE) (first : p.Contains a)
    (last : p.Contains c) : p.Contains b :=
  prefix_of_between low high first last

theorem not_contains_of_lt (less : compare a b = .lt) : ¬ b.Contains a := by
  intro inner
  rcases eq_or_ne b a with rfl | proper
  · simp [ReflOrd.compare_self] at less
  · have more := lt_of_contains inner proper
    rw [OrientedOrd.eq_swap, less] at more
    cases more

theorem parts_eq_iff {n : QualifiedName} : p.parts = n.parts ↔ n = p :=
  ⟨fun same => outermost_inj (congrArg List.reverse same.symm), fun same => congrArg parts same.symm⟩

theorem contains_nameOf {o : Outline} {k : o.Id} :
    p.Contains (o.nameOf k) ↔ ∃ j ∈ o.outwards k, o.nameOf j = p := by
  rw [Contains, outermost, outermost, List.reverse_prefix]
  induction k using Outline.outwards_induction with
  | top k found =>
    have alone : o.outwards k = [k] := by rw [Outline.outwards, Outline.enclosing_of_root found]
    have nonempty : p.parts ≠ [] := List.cons_ne_nil _ _
    have parts : (o.nameOf k).parts = [o.part k] := by rw [Outline.parts_nameOf, alone]; rfl
    rw [parts, List.suffix_cons_iff, List.suffix_nil, ← parts, parts_eq_iff, alone]
    simp [nonempty]
  | inner k q found ih =>
    have parts := Outline.parts_of_parent? found
    rw [parts, List.suffix_cons_iff, ih, ← parts, parts_eq_iff, Outline.outwards_of_parent? found]
    simp

theorem depth_lt_of_mem_enclosing {o : Outline} {j k : o.Id} (mem : j ∈ o.enclosing k) :
    (o.nameOf j).depth < (o.nameOf k).depth := by
  induction k using Outline.outwards_induction with
  | top k found => simp [Outline.enclosing_of_root found] at mem
  | inner k q found ih =>
    have deeper : (o.nameOf k).depth = (o.nameOf q).depth + 1 := by
      rw [depth, Outline.parts_of_parent? found, List.length_cons, depth]
    rw [Outline.enclosing_of_parent? found] at mem
    rcases List.mem_cons.1 mem with rfl | mem
    · omega
    · have := ih mem
      omega

theorem exists_enclosing_iff {o : Outline} {k : o.Id} :
    (∃ j ∈ o.enclosing k, o.nameOf j = p) ↔ p.Contains (o.nameOf k) ∧ p ≠ o.nameOf k := by
  rw [contains_nameOf]
  constructor
  · rintro ⟨j, mem, rfl⟩
    refine ⟨⟨j, Outline.mem_outwards.2 (.inr mem), rfl⟩, fun same => ?_⟩
    exact absurd (congrArg depth same) (Nat.ne_of_lt (depth_lt_of_mem_enclosing mem))
  · rintro ⟨⟨j, mem, rfl⟩, proper⟩
    rcases Outline.mem_outwards.1 mem with rfl | mem
    · exact absurd rfl proper
    · exact ⟨j, mem, rfl⟩

end QualifiedName

namespace Attribution

open QualifiedName

variable {o : Outline} {kind : Change.Kind}

def throughout (o : Outline) (kind : Change.Kind) : List Change :=
  Change.sorted (o.names.map (⟨·, kind⟩))

theorem mem_throughout {c : Change} :
    c ∈ throughout o kind ↔ ∃ k, c = ⟨o.nameOf k, kind⟩ := by
  rw [throughout, Change.sorted, mem_ascending, Outline.names, List.map_map, List.mem_map]
  simp [Outline.mem_ids, eq_comm]

theorem throughout_ascending :
    (throughout o kind).Pairwise fun c d => compare c.declaration d.declaration = .lt := by
  refine (ascending_pairwise _).imp_of_mem fun {c d} memC memD less => ?_
  obtain ⟨j, rfl⟩ := mem_throughout.1 memC
  obtain ⟨k, rfl⟩ := mem_throughout.1 memD
  change (compare (o.nameOf j) (o.nameOf k)).then (compare kind kind) = .lt at less
  simpa [ReflOrd.compare_self] using less

structure Gathers (o : Outline) (kind : Change.Kind) (i : o.Id) (before inside after : List Change) :
    Prop where
  whole : throughout o kind = before ++ ⟨o.nameOf i, kind⟩ :: (inside ++ after)
  enclosed : ∀ c, c ∈ inside ↔
    ∃ k, c = ⟨o.nameOf k, kind⟩ ∧ ∃ j ∈ o.enclosing k, o.nameOf j = o.nameOf i
  apart : ∀ c ∈ before ++ after, ¬ (o.nameOf i).Contains c.declaration

theorem exists_gathers (i : o.Id) :
    ∃ before inside after, Gathers o kind i before inside after := by
  obtain ⟨before, rest, split⟩ := List.append_of_mem (mem_throughout.2 ⟨i, rfl⟩)
  have ordered : (throughout o kind).Pairwise fun c d => compare c.declaration d.declaration = .lt :=
    throughout_ascending
  rw [split, List.pairwise_append, List.pairwise_cons] at ordered
  obtain ⟨-, ⟨later, restOrdered⟩, earlier⟩ := ordered
  let own : Change → Bool := fun c => (o.nameOf i).Contains c.declaration
  -- From `i` on the subtree comes first, so to cut the list is to filter it.
  have mono : rest.Pairwise fun c d => own d → own c := by
    refine restOrdered.imp_of_mem fun {c d} memC memD less inner => ?_
    simp only [own, decide_eq_true_eq] at inner ⊢
    exact contains_of_between (by simp [later c memC]) (by simp [less]) (List.prefix_refl _) inner
  have notBefore : ∀ c ∈ before, ¬ (o.nameOf i).Contains c.declaration :=
    fun c mem => not_contains_of_lt (earlier c mem _ (List.mem_cons_self ..))
  refine ⟨before, rest.filter own, rest.filter (!own ·), ?_, fun c => ?_, fun c mem => ?_⟩
  · rw [← Cursor.takeWhile_eq_filter mono, ← Cursor.dropWhile_eq_filter mono,
      List.takeWhile_append_dropWhile, split]
  · simp only [exists_enclosing_iff, List.mem_filter, own, decide_eq_true_eq]
    constructor
    · rintro ⟨mem, inner⟩
      have there : c ∈ throughout o kind := split ▸ List.mem_append_right _ (List.mem_cons_of_mem _ mem)
      obtain ⟨k, rfl⟩ := mem_throughout.1 there
      refine ⟨k, rfl, inner, fun same => ?_⟩
      have less := later _ mem
      rw [← same, ReflOrd.compare_self] at less
      cases less
    · rintro ⟨k, rfl, inner, proper⟩
      have there : (⟨o.nameOf k, kind⟩ : Change) ∈ throughout o kind := mem_throughout.2 ⟨k, rfl⟩
      rw [split] at there
      rcases List.mem_append.1 there with mem | mem
      · exact absurd inner (notBefore _ mem)
      · rcases List.mem_cons.1 mem with same | mem
        · exact absurd (congrArg Change.declaration same).symm proper
        · exact ⟨mem, inner⟩
  · rcases List.mem_append.1 mem with mem | mem
    · exact notBefore c mem
    · simpa [own] using (List.mem_filter.1 mem).2

theorem changes_by_subtree :
    (∀ a b : QualifiedName, compare a b = .eq ↔ a.parts = b.parts) ∧
    (∀ a b : QualifiedName, compare b a = (compare a b).swap) ∧
    (∀ a b c : QualifiedName, (compare a b).isLE → (compare b c).isLE → (compare a c).isLE) ∧
    (∀ a b : QualifiedName, a.outermost <+: b.outermost → a.outermost ≠ b.outermost →
      compare a b = .lt) ∧
    (∀ p a b c : QualifiedName, (compare a b).isLE → (compare b c).isLE →
      p.Contains a → p.Contains c → p.Contains b) ∧
    ∀ (settings : OutlineSettings) (file : FileText), let o := (outline settings file).1
      (changes settings (.added file)).1 = .ok (throughout o .add) ∧
      (changes settings (.deleted file)).1 = .ok (throughout o .delete) ∧
      ∀ kind (i : o.Id), ∃ before inside after, Gathers o kind i before inside after := by
  refine ⟨fun a b => ?_, fun a b => OrientedOrd.eq_swap, fun a b c => TransCmp.isLE_trans,
    fun a b inner proper => lt_of_contains inner fun same => proper (congrArg outermost same),
    fun p a b c => contains_of_between, fun settings file => ⟨rfl, rfl, fun kind i => exists_gathers i⟩⟩
  rw [LawfulEqCmp.compare_eq_iff_eq, parts_eq_iff, eq_comm]

end Attribution

end EditScope

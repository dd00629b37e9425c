import EditScope.Proofs.Attribution.Modified

set_option autoImplicit false

namespace EditScope

def Hunk.undo (h : Hunk) : Hunk := ⟨h.added, h.deleted⟩

theorem Hunk.undo_eq_self {h : Hunk} (same : h.deleted = h.added) : h.undo = h := by
  cases h
  cases same
  rfl

namespace Change

def Kind.undo : Kind → Kind
  | .add => .delete
  | .modify => .modify
  | .delete => .add

def undo (c : Change) : Change := ⟨c.declaration, c.kind.undo⟩

theorem undo_undo (c : Change) : c.undo.undo = c := by
  obtain ⟨name, kind⟩ := c
  cases kind <;> rfl

theorem kind_of_undo_eq_self {c : Change} (own : c.undo = c) : c.kind = .modify := by
  obtain ⟨name, kind⟩ := c
  cases kind <;> simp_all [undo, Kind.undo]

theorem mem_map_undo {c : Change} {cs : List Change} : c ∈ cs.map undo ↔ c.undo ∈ cs := by
  constructor
  · intro mem
    obtain ⟨d, mem, rfl⟩ := List.mem_map.1 mem
    rwa [undo_undo]
  · intro mem
    exact List.mem_map.2 ⟨c.undo, mem, undo_undo c⟩

theorem ascending_undo {cs : List Change} (ascending : cs.Pairwise fun c d => compare c d = .lt)
    (once : ∀ c ∈ cs, ∀ d ∈ cs, c.declaration = d.declaration → c = d) :
    (cs.map undo).Pairwise fun c d => compare c d = .lt := by
  rw [List.pairwise_map]
  refine ascending.imp_of_mem fun {c d} memc memd less => ?_
  have split : compare c d = (compare c.declaration d.declaration).then (compare c.kind d.kind) := rfl
  cases order : compare c.declaration d.declaration with
  | lt =>
    show (compare c.declaration d.declaration).then (compare c.kind.undo d.kind.undo) = .lt
    rw [order]
    rfl
  | eq =>
    cases once c memc d memd (Std.LawfulEqCmp.eq_of_compare order)
    have self : compare c c = .eq := Std.ReflCmp.compare_self
    cases self.symm.trans less
  | gt =>
    rw [split, order] at less
    cases less

end Change

namespace Attribution

variable {old new : Outline} {h : Hunk} {hunks : List Hunk} {sides sides' : Side old × Side new}

theorem reversed?_undo (straight : h.reversed? = none) : h.undo.reversed? = none :=
  reversed?_eq_none.2 (reversed?_eq_none.1 straight).symm

theorem touchHunk_undo (touched : touchHunk sides h = .ok sides') :
    touchHunk sides.swap h.undo = .ok sides'.swap := by
  obtain ⟨straight, deleted, added⟩ := touchHunk_eq_ok_iff.1 touched
  exact touchHunk_eq_ok_iff.2 ⟨reversed?_undo straight, added, deleted⟩

theorem run_undo (run : hunks.foldlM touchHunk sides = .ok sides') :
    (hunks.map Hunk.undo).foldlM touchHunk sides.swap = .ok sides'.swap := by
  induction hunks generalizing sides with
  | nil =>
    cases run
    rfl
  | cons h hunks ih =>
    rw [List.foldlM_cons] at run
    cases touched : touchHunk sides h with
    | error e =>
      rw [touched] at run
      cases run
    | ok next =>
      rw [touched] at run
      rw [List.map_cons, List.foldlM_cons, touchHunk_undo touched]
      exact ih run

theorem touchedNames_undo {before after : List QualifiedName}
    (touched : touchedNames old new hunks = .ok (before, after)) :
    touchedNames new old (hunks.map Hunk.undo) = .ok (after, before) := by
  unfold touchedNames at touched ⊢
  cases run : hunks.foldlM touchHunk (({}, {}) : Side old × Side new) with
  | error e =>
    rw [run] at touched
    cases touched
  | ok sides =>
    rw [run] at touched
    cases touched
    have back := run_undo run
    rw [Prod.swap_prod_mk] at back
    rw [back]
    rfl

theorem attributed_undo {before after : QualifiedName → Prop} {c : Change} :
    Attributed after before c ↔ Attributed before after c.undo := by
  obtain ⟨name, kind⟩ := c
  cases kind <;> simp [Attributed, Change.undo, Change.Kind.undo, and_comm]

theorem exists_touchedNames {cs : List Change} (ok : modified old new hunks = .ok cs) :
    ∃ before after, touchedNames old new hunks = .ok (before, after) := by
  cases touched : touchedNames old new hunks with
  | error e => simp [modified, touched, bind, Except.bind] at ok
  | ok names => exact ⟨names.1, names.2, rfl⟩

theorem eq_of_declaration {cs : List Change} {c d : Change} (ok : modified old new hunks = .ok cs)
    (memc : c ∈ cs) (memd : d ∈ cs) (same : c.declaration = d.declaration) : c = d := by
  obtain ⟨before, after, touched⟩ := exists_touchedNames ok
  obtain ⟨_, ok', _, mem⟩ := modified_of_touchedNames touched
  cases ok.symm.trans ok'
  exact ((mem c).1 memc).unique ((mem d).1 memd) same

theorem modified_undo_of_ok {cs : List Change} (ok : modified old new hunks = .ok cs) :
    modified new old (hunks.map Hunk.undo) = .ok (cs.map Change.undo) := by
  obtain ⟨before, after, touched⟩ := exists_touchedNames ok
  obtain ⟨_, ok', ascending, mem⟩ := modified_of_touchedNames touched
  cases ok.symm.trans ok'
  obtain ⟨ds, undone, ascending', mem'⟩ := modified_of_touchedNames (touchedNames_undo touched)
  have once (c : Change) (memc : c ∈ cs) (d : Change) (memd : d ∈ cs) :
      c.declaration = d.declaration → c = d :=
    eq_of_declaration ok memc memd
  have same (c : Change) : c ∈ ds ↔ c ∈ cs.map Change.undo := by
    rw [mem', attributed_undo, ← mem, Change.mem_map_undo]
  rw [undone, eq_of_ascending ascending' (Change.ascending_undo ascending once) same]

theorem map_undo_undo (hunks : List Hunk) : (hunks.map Hunk.undo).map Hunk.undo = hunks := by
  rw [List.map_map]
  exact List.map_id hunks

-- Nothing is said of the errors: of two faults in one hunk, the one on the old side is reported.
theorem modified_undo (old new : Outline) (hunks : List Hunk) :
    ((∃ cs, modified old new hunks = .ok cs) ↔
        ∃ cs, modified new old (hunks.map Hunk.undo) = .ok cs) ∧
      (∀ cs, modified old new hunks = .ok cs →
        modified new old (hunks.map Hunk.undo) = .ok (cs.map Change.undo)) ∧
      ((∀ h ∈ hunks, h.deleted = h.added) →
        ∀ cs, modified old old hunks = .ok cs → ∀ c ∈ cs, c.kind = .modify) := by
  refine ⟨⟨fun ⟨cs, ok⟩ => ⟨_, modified_undo_of_ok ok⟩, fun ⟨cs, ok⟩ => ?_⟩,
    fun cs => modified_undo_of_ok, fun alike cs ok c mem => ?_⟩
  · have back := modified_undo_of_ok ok
    rw [map_undo_undo] at back
    exact ⟨_, back⟩
  · -- The hunks are their own undoing, and so are the changes that they make.
    have own : hunks.map Hunk.undo = hunks :=
      (List.map_congr_left fun h mem => Hunk.undo_eq_self (alike h mem)).trans (List.map_id hunks)
    have back := modified_undo_of_ok ok
    rw [own, ok] at back
    have undone : c.undo ∈ cs := Change.mem_map_undo.1 (Except.ok.inj back ▸ mem)
    exact Change.kind_of_undo_eq_self (eq_of_declaration ok undone mem rfl)

theorem modified_undo_replaced :
    let old := Outline.ofDeclaration (.mk .unit "F" ⟨0, 20⟩ [.mk .type "A" ⟨1, 15⟩ []])
    let new := Outline.ofDeclaration (.mk .unit "F" ⟨0, 20⟩ [.mk .type "B" ⟨1, 12⟩ []])
    let a : QualifiedName := ⟨⟨.type, "A"⟩, [⟨.unit, "F"⟩]⟩
    let b : QualifiedName := ⟨⟨.type, "B"⟩, [⟨.unit, "F"⟩]⟩
    let hunk := Hunk.replacement ⟨1, 15⟩ ⟨1, 12⟩
    modified old new [hunk] = .ok [⟨a, .delete⟩, ⟨b, .add⟩] ∧
      modified new old [hunk.undo] = .ok [⟨a, .add⟩, ⟨b, .delete⟩] := by
  intro old new a b hunk
  have touched : touchedNames old new [hunk] = .ok (ascending [a], ascending [b]) := by
    with_unfolding_all rfl
  rw [ascending_eq_self (List.pairwise_singleton ..),
    ascending_eq_self (List.pairwise_singleton ..)] at touched
  have order : compare (⟨a, .delete⟩ : Change) ⟨b, .add⟩ = .lt := by decide
  have replaced : modified old new [hunk] = .ok [⟨a, .delete⟩, ⟨b, .add⟩] := by
    rw [modified, touched]
    exact congrArg Except.ok (ascending_eq_self (List.pairwise_pair.2 order))
  obtain ⟨_, undone, _⟩ := modified_undo old new [hunk]
  exact ⟨replaced, undone _ replaced⟩

end Attribution

end EditScope

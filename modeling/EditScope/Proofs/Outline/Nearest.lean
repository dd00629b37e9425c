import EditScope.Proofs.Outline.Links
import EditScope.Proofs.Outline.Shape
import EditScope.Proofs.Sketch.Nesting
import Mathlib.Data.List.TakeWhile

set_option autoImplicit false

namespace EditScope

namespace Declaration.Kind

def Admits : Kind → Kind → Prop
  | .unit, inner => inner = .type
  | .type, inner => inner ≠ .unit
  | .method, _ => False

theorem Admits.not_general {outer inner : Kind} (admits : outer.Admits inner) :
    ¬ inner.isMoreGeneralThan outer := by
  cases outer <;> cases inner <;> simp [Admits] at admits <;> decide

theorem not_general_trans {a b c : Kind} :
    ¬ a.isMoreGeneralThan b → ¬ b.isMoreGeneralThan c → ¬ a.isMoreGeneralThan c := by
  cases a <;> cases b <;> cases c <;> decide

theorem eq_of_not_general {a b : Kind} :
    ¬ a.isMoreGeneralThan b → ¬ b.isMoreGeneralThan a → a = b := by
  cases a <;> cases b <;> decide

end Declaration.Kind

namespace QualifiedName

open Declaration

variable {n m : QualifiedName} {k k' : Kind}

/-- From the inside out, kinds do not become more specific. -/
def Graded (n : QualifiedName) : Prop :=
  n.parts.Pairwise fun inner outer => ¬ inner.kind.isMoreGeneralThan outer.kind

theorem nearest?_of_graded (graded : n.Graded) (k : Kind) :
    n.nearest? k = ofInnermost? (n.parts.dropWhile (·.kind != k)) := by
  unfold nearest?
  split
  · rename_i general
    -- All that encloses the declaration is at least as general as it is.
    have none : ∀ p ∈ n.parts, p.kind != k := by
      have self : n.kind ≠ k := by
        rintro rfl
        cases kind : n.kind <;> rw [kind] at general <;> cases general
      refine List.forall_mem_cons.2 ⟨by simpa [kind] using self, fun p mem => ?_⟩
      have outer := (List.pairwise_cons.1 graded).1 p mem
      rw [bne_iff_ne]
      rintro rfl
      exact outer general
    rw [List.dropWhile_eq_nil_iff.2 none]
    rfl
  · rfl

-- From a type inside a method, a name that is not graded, the method is not found.
example : (⟨⟨.type, "T"⟩, [⟨.method, "m"⟩, ⟨.unit, "u"⟩]⟩ : QualifiedName).nearest? .method = none := by
  decide

theorem nearest?_nearest? (graded : n.Graded) (found : n.nearest? k = some m)
    (general : ¬ k.isMoreGeneralThan k') : m.nearest? k' = n.nearest? k' := by
  rw [nearest?_of_graded graded, ofInnermost?_eq_some] at found
  have split : n.parts.takeWhile (·.kind != k) ++ m.parts = n.parts := by
    rw [found, List.takeWhile_append_dropWhile]
  have here : m.kind = k := by
    have first := List.head?_dropWhile_not (·.kind != k) n.parts
    rw [← found] at first
    simpa [parts, kind] using first
  have graded' := graded
  rw [Graded, ← split] at graded'
  obtain ⟨_, inner, across⟩ := List.pairwise_append.1 graded'
  -- What stands before the part of kind `k` is more specific than it, and so is not of kind `k'`.
  have passed : ∀ p ∈ n.parts.takeWhile (·.kind != k), p.kind != k' := by
    intro p mem
    have other : p.kind ≠ k := by simpa using List.mem_takeWhile_imp mem
    have specific := across p mem m.self (List.mem_cons_self ..)
    rw [show m.self.kind = k from here] at specific
    rw [bne_iff_ne]
    rintro rfl
    exact other (Kind.eq_of_not_general specific general)
  rw [nearest?_of_graded graded, nearest?_of_graded (n := m) inner, ← split,
    List.dropWhile_append_of_pos passed]

end QualifiedName

namespace Outline

open Declaration

theorem parts_nameOf {o : Outline} (i : o.Id) : (o.nameOf i).parts = (o.outwards i).map o.part := rfl

theorem parts_of_parent? {o : Outline} {i p : o.Id} (found : o.parent? i = some p) :
    (o.nameOf i).parts = o.part i :: (o.nameOf p).parts := by
  rw [parts_nameOf, outwards_of_parent? found, List.map_cons, ← parts_nameOf]

section Depth

variable {d : Declaration Span}

theorem length_outwards (i : (ofDeclaration d).Id) :
    ((ofDeclaration d).outwards i).length ≤ d.height := by
  have passed : (ofDeclaration d).Inherited fun _ id m => ∀ i : (ofDeclaration d).Id, i.val = id →
      ((ofDeclaration d).outwards i).length + m.height ≤ d.height + 1 := by
    rintro parent id e holds deep k c m member place i rfl
    obtain ⟨m', member', held⟩ := holds.members.sibling place
    cases Option.some.inj (member.symm.trans member')
    obtain ⟨q, found, rfl⟩ := parent?_of_node (i := i) (p := id) (by rw [held.node_eq])
    have lower : m.height ≤ heights e.members :=
      heights_le.1 (Nat.le_refl _) m (List.mem_of_getElem? member)
    have outer := deep q rfl
    rw [height_eq e] at outer
    rw [outwards_of_parent? found, List.length_cons]
    omega
  have top (i : (ofDeclaration d).Id) (root : i.val = 0) :
      ((ofDeclaration d).outwards i).length + d.height ≤ d.height + 1 := by
    cases Fin.ext (b := (ofDeclaration d).rootId) root
    rw [outwards, enclosing_of_root parent?_rootId, List.length_singleton]
    omega
  obtain ⟨_, m, _, deep⟩ := ofDeclaration_inherits passed top i
  have := deep i rfl
  have := height_eq m
  omega

end Depth

structure Ranked (o : Outline) : Prop where
  unit : o.root.kind = .unit
  admitted (i : o.Id) : i ≠ o.rootId →
    ∃ p, o.parent? i = some p ∧ (o.node p).kind.Admits (o.node i).kind

namespace Ranked

variable {o : Outline} (ranked : o.Ranked) {i p : o.Id}

include ranked

theorem admits (found : o.parent? i = some p) : (o.node p).kind.Admits (o.node i).kind := by
  obtain ⟨q, found', admits⟩ := ranked.admitted i (ne_root_of_parent? found)
  cases Option.some.inj (found.symm.trans found')
  exact admits

theorem kind_eq_unit_iff : (o.node i).kind = .unit ↔ i = o.rootId := by
  constructor
  · intro unit
    by_contra inner
    obtain ⟨p, _, admits⟩ := ranked.admitted i inner
    rw [unit] at admits
    cases kind : (o.node p).kind <;> simp [kind, Kind.Admits] at admits
  · rintro rfl
    exact ranked.unit

theorem graded_nameOf (i : o.Id) : (o.nameOf i).Graded := by
  induction i using outwards_induction with
  | top i found => simp [QualifiedName.Graded, QualifiedName.parts, nameOf, enclosing_of_root found]
  | inner i p found ih =>
    have next := (ranked.admits found).not_general
    rw [QualifiedName.Graded, parts_of_parent? found, List.pairwise_cons]
    refine ⟨List.forall_mem_cons.2 ⟨next, fun outer mem => ?_⟩, ih⟩
    exact Kind.not_general_trans next ((List.pairwise_cons.1 ih).1 outer mem)

theorem nearest?_nameOf (i : o.Id) (k : Kind) : (o.nameOf i).nearest? k =
    ((o.outwards i).find? fun j => (o.node j).kind == k).map o.nameOf := by
  rw [QualifiedName.nearest?_of_graded (ranked.graded_nameOf i)]
  induction i using outwards_induction with
  | top i found =>
    by_cases here : (o.node i).kind = k <;>
      simp [QualifiedName.parts, nameOf, outwards, part, here, enclosing_of_root found,
        QualifiedName.ofInnermost?]
  | inner i p found ih =>
    by_cases here : (o.node i).kind = k
    · simp [QualifiedName.parts, nameOf, outwards, part, here, QualifiedName.ofInnermost?]
    · rw [parts_of_parent? found, List.dropWhile_cons_of_pos (by simpa [part] using here), ih,
        outwards_of_parent? found, List.find?_cons_of_neg (by simpa using here)]

end Ranked

theorem ranked_of_numbered {source : List UInt8} {d d' : Declaration Span} {policy : Overloads}
    (reported : Reported source d) (unit : d.kind = .unit) (numbered : policy.Numbered d d') :
    (ofDeclaration d').Ranked where
  unit := by
    have root := Holds.node_eq (i := (ofDeclaration d').rootId) (ofDeclaration_holds d')
    exact (congrArg Node.kind root).trans (numbered.kind.trans unit)
  admitted i' inner := by
    obtain ⟨i, same⟩ := exists_merged numbered i'
    have alike := numbered_node numbered same
    have below := ne_root_of_same same inner
    obtain ⟨p, e, found, _, resolves, around⟩ := exists_shaped reported below
    obtain ⟨p', found', same'⟩ := parent?_of_node (alike.parent.trans (node_of_parent? found))
    refine ⟨p', found', ?_⟩
    rw [(numbered_node numbered same').kind, alike.kind]
    rcases around with ⟨unit, type⟩ | ⟨type, _⟩
    · rw [unit]
      exact resolves.kind.trans type
    · rw [type]
      exact kind_ne_unit reported below

theorem ranked_of_source (settings : OutlineSettings) (fallback : Option String)
    (source : List UInt8) : (ofSource settings fallback source).1.Ranked :=
  ranked_of_numbered (declared_reported settings fallback source) rfl
    (declared_numbered settings fallback source)

theorem height_declared (settings : OutlineSettings) (fallback : Option String)
    (source : List UInt8) :
    (declared settings fallback (some nestingLimit) source).1.height ≤ nestingLimit + 2 := by
  rw [declared_eq, height, heights_mapPlaces]
  exact Nat.succ_le_succ (SketchedFile.heights_le settings.overloads nestingLimit _)

theorem ofSource_ranked (settings : OutlineSettings) (fallback : Option String)
    (source : List UInt8) :
    let o := (ofSource settings fallback source).1
    (∀ i : o.Id, (o.node i).kind = .unit ↔ i = o.rootId) ∧
      (∀ c ∈ o.root.children, ∃ i : o.Id, i.val = c ∧ (o.node i).kind = .type) ∧
      (∀ i : o.Id, (o.node i).kind = .method →
        (o.node i).children = [] ∧ ∃ p, o.parent? i = some p ∧ (o.node p).kind = .type) ∧
      (∀ i : o.Id, (o.nameOf i).depth ≤ nestingLimit + 2) ∧
      (∀ (i : o.Id) (k : Kind), (o.nameOf i).nearest? k =
        ((o.outwards i).find? fun j => (o.node j).kind == k).map o.nameOf) ∧
      (∀ (i : o.Id) (k : Kind),
        (o.nameOf i).nearest? k = none ↔ ∀ j ∈ o.outwards i, (o.node j).kind ≠ k) ∧
      ∀ (i : o.Id) (k k' : Kind) (n : QualifiedName), (o.nameOf i).nearest? k = some n →
        ¬ k.isMoreGeneralThan k' → n.nearest? k' = (o.nameOf i).nearest? k' := by
  intro o
  -- All but the bound on the depth follows from the kinds that a parent admits.
  have ranked : o.Ranked := ranked_of_source settings fallback source
  refine ⟨fun i => ranked.kind_eq_unit_iff, fun c child => ?_, fun i method => ⟨?_, ?_⟩, fun i => ?_,
    ranked.nearest?_nameOf, fun i k => ?_,
    fun i k k' n => QualifiedName.nearest?_nearest? (ranked.graded_nameOf i)⟩
  · obtain ⟨i, same, found⟩ := exists_id_of_child child
    have admits := ranked.admits found
    rw [show (o.node o.rootId).kind = .unit from ranked.unit] at admits
    exact ⟨i, same, admits⟩
  · refine List.eq_nil_iff_forall_not_mem.2 fun c child => ?_
    obtain ⟨j, _, found⟩ := exists_id_of_child child
    have admits := ranked.admits found
    rw [method] at admits
    exact admits
  · have inner : i ≠ o.rootId := by
      intro root
      cases method.symm.trans (ranked.kind_eq_unit_iff.2 root)
    obtain ⟨p, found, admits⟩ := ranked.admitted i inner
    refine ⟨p, found, ?_⟩
    rw [method] at admits
    cases kind : (o.node p).kind <;> simp [kind, Kind.Admits] at admits ⊢
  · rw [QualifiedName.depth, parts_nameOf, List.length_map]
    exact Nat.le_trans (length_outwards i) (height_declared settings fallback source)
  · rw [ranked.nearest?_nameOf, Option.map_eq_none_iff, List.find?_eq_none]
    simp

end Outline

end EditScope

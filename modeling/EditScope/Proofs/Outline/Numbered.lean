import EditScope.Proofs.Outline.Origin
import EditScope.Proofs.Sketch.Numbered
import EditScope.Proofs.Sketch.Shape
import Mathlib.Data.List.Forall2

set_option autoImplicit false

namespace EditScope

def OutlineSettings.merging (settings : OutlineSettings) : OutlineSettings :=
  { settings with overloads := .merge }

namespace Outline

open Declaration Overloads

structure Node.Numbered (policy : Overloads) (n n' : Node) : Prop where
  kind : n'.kind = n.kind
  span : n'.span = n.span
  parent : n'.parent = n.parent
  children : n'.children = n.children
  name : n.kind ≠ .method → n'.name = n.name
  ordinal : ∃ count, n'.name = ordinalName n.name count ∧ (policy = .merge → count = 1)

theorem ne_root_of_same {o o' : Outline} {i : o.Id} {i' : o'.Id} (same : i'.val = i.val)
    (inner : i' ≠ o'.rootId) : i ≠ o.rootId := by
  rintro rfl
  exact inner (Fin.ext same)

theorem siblingIds_of_sizes (id : Nat) {ds ds' : List (Declaration Span)}
    (same : ds'.map size = ds.map size) : siblingIds id ds' = siblingIds id ds := by
  induction ds generalizing id ds' with
  | nil => rw [List.map_eq_nil_iff.1 same]
  | cons d ds ih =>
    cases ds' with
    | nil => cases same
    | cons d' ds' =>
      obtain ⟨first, rest⟩ := List.cons.inj same
      rw [siblingIds, siblingIds, first, ih _ rest]

theorem countP_take_succ {α : Type} {xs : List α} {p : α → Bool} {k : Nat} {x : α}
    (here : xs[k]? = some x) (counts : p x) :
    (xs.take (k + 1)).countP p = (xs.take k).countP p + 1 := by
  rw [List.take_add_one, here, List.countP_append, Option.toList_some, List.countP_singleton,
    if_pos counts]

def isMethodNamed (o : Outline) (name : String) (c : Nat) : Bool :=
  o.nodes[c]?.any fun n => n.kind == .method && n.name == name

theorem HoldsAll.countP_take {o : Outline} {parent : Option Nat} {id : Nat}
    {ds : List (Declaration Span)} (holds : o.HoldsAll parent id ds) (name : String) (k : Nat) :
    ((siblingIds id ds).take k).countP (o.isMethodNamed name) =
      (ds.take k).countP (Declaration.isMethodNamed name) := by
  induction ds generalizing id k with
  | nil => simp [siblingIds]
  | cons d ds ih =>
    cases k with
    | zero => rfl
    | succ k =>
      rw [siblingIds, List.take_succ_cons, List.take_succ_cons, List.countP_cons, List.countP_cons,
        ih holds.tail]
      simp [isMethodNamed, holds.head.node, Declaration.isMethodNamed]

section Held

variable {policy : Overloads} {o o' : Outline} {parent : Option Nat} {id : Nat}
  {d d' : Declaration Span}

theorem siblingIds_numbered (numbered : Numbered policy d d') (id : Nat) :
    siblingIds id d'.members = siblingIds id d.members := by
  rw [numbered.members]
  exact siblingIds_of_sizes id ((map_size_apply policy _).trans (map_size_throughoutAll policy _))

theorem exists_holds_member (holds : o'.Holds parent id d') (numbered : Numbered policy d d')
    {k c : Nat} {m : Declaration Span} (member : d.members[k]? = some m)
    (place : (siblingIds (id + 1) d.members)[k]? = some c) :
    ∃ m', o'.Holds (some id) c m' ∧ Numbered policy m m' ∧
      (policy = .ordinal → m.kind = .method →
        m'.name = ordinalName m.name
          ((d.members.take k).countP (Declaration.isMethodNamed m.name) + 1)) := by
  rw [← siblingIds_numbered numbered] at place
  obtain ⟨m', member', held⟩ := holds.members.sibling place
  obtain ⟨e, found, alike⟩ := exists_numbered policy member
  rw [← numbered.members] at found
  cases Option.some.inj (found.symm.trans member')
  exact ⟨m', held, alike⟩

theorem exists_holds_numbered (numbered : Numbered policy d d') (i : (ofDeclaration d).Id) :
    ∃ parent m, (ofDeclaration d).Holds parent i m ∧
      ∃ m', (ofDeclaration d').Holds parent i m' ∧ Numbered policy m m' := by
  refine ofDeclaration_inherits (motive := fun parent id m =>
    ∃ m', (ofDeclaration d').Holds parent id m' ∧ Numbered policy m m') ?_ ?_ i
  · rintro parent id e holds ⟨e', held, alike⟩ k c m member place
    obtain ⟨m', held', alike', _⟩ := exists_holds_member held alike member place
    exact ⟨m', held', alike'⟩
  · exact ⟨d', ofDeclaration_holds d', numbered⟩

theorem size_numbered (numbered : Numbered policy d d') :
    (ofDeclaration d').nodes.size = (ofDeclaration d).nodes.size := by
  rw [ofDeclaration_size, ofDeclaration_size, numbered.size_eq]

theorem exists_merged (numbered : Numbered policy d d') (i' : (ofDeclaration d').Id) :
    ∃ i : (ofDeclaration d).Id, i'.val = i.val :=
  ⟨⟨i'.val, size_numbered numbered ▸ i'.isLt⟩, rfl⟩

theorem numbered_node (numbered : Numbered policy d d') {i : (ofDeclaration d).Id}
    {i' : (ofDeclaration d').Id} (same : i'.val = i.val) :
    Node.Numbered policy ((ofDeclaration d).node i) ((ofDeclaration d').node i') := by
  obtain ⟨parent, m, holds, m', holds', alike⟩ := exists_holds_numbered numbered i
  rw [holds.node_eq, Holds.node_eq (i := i') (same ▸ holds')]
  exact ⟨alike.kind, alike.place, rfl, by rw [same, siblingIds_numbered alike], alike.name,
    alike.ordinal⟩

theorem forall₂_numbered (numbered : Numbered policy d d') :
    List.Forall₂ (Node.Numbered policy) (ofDeclaration d).nodes.toList
      (ofDeclaration d').nodes.toList := by
  refine List.forall₂_iff_get.2 ⟨(size_numbered numbered).symm, fun i inside inside' => ?_⟩
  have alike : Node.Numbered policy ((ofDeclaration d).node ⟨i, inside⟩)
      ((ofDeclaration d').node ⟨i, inside'⟩) := numbered_node numbered rfl
  exact alike

theorem ordinalName_child (numbered : Numbered .ordinal d d') {p : (ofDeclaration d).Id} {k c : Nat}
    (child : ((ofDeclaration d).node p).children[k]? = some c) {name : String}
    (method : (ofDeclaration d).isMethodNamed name c) :
    ∃ n, (ofDeclaration d').nodes[c]? = some n ∧ n.name = ordinalName name
      ((((ofDeclaration d).node p).children.take (k + 1)).countP
        ((ofDeclaration d).isMethodNamed name)) := by
  obtain ⟨parent, e, holds, e', holds', alike⟩ := exists_holds_numbered numbered p
  rw [countP_take_succ child method, holds.node_eq]
  rw [holds.node_eq] at child
  obtain ⟨m, member, held⟩ := holds.members.sibling child
  obtain ⟨m', held', _, named⟩ := exists_holds_member holds' alike member child
  obtain ⟨kind, rfl⟩ : m.kind = .method ∧ m.name = name := by
    simpa [isMethodNamed, held.node] using method
  exact ⟨_, held'.node, by rw [named rfl kind, ← holds.members.countP_take]⟩

end Held

section Source

variable (settings : OutlineSettings) (fallback : Option String) (source : List UInt8)

theorem sketched_numbered : sketched settings source =
    ⟨(sketched settings.merging source).package,
      throughoutAll settings.overloads (sketched settings.merging source).types,
      (sketched settings.merging source).notes⟩ :=
  SketchedFile.ofLexemes_numbered settings.overloads (some nestingLimit) (Token.lexemes source)

theorem declared_numbered : Numbered settings.overloads
    (declared settings.merging fallback (some nestingLimit) source).1
    (declared settings fallback (some nestingLimit) source).1 := by
  rw [declared_eq, declared_eq settings, sketched_numbered settings]
  refine ⟨rfl, rfl, ?_, fun _ => rfl, 1, rfl, fun _ => rfl⟩
  -- A unit has no methods, so that it does not matter that its members are not numbered.
  have types := (SketchedFile.shaped (some nestingLimit) (Token.lexemes source)).1
  simp only [Declaration.members]
  rw [throughoutAll_mapPlaces, mapPlaces_eq_map, apply_map, apply_eq_self]
  intro d mem
  rw [throughoutAll_eq_map] at mem
  obtain ⟨e, found, rfl⟩ := List.mem_map.1 mem
  rw [kind_throughout, types e found]
  simp

end Source

end Outline

end EditScope

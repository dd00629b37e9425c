import EditScope.Proofs.Outline.Moved
import EditScope.Proofs.Outline.Origin
import Mathlib.Data.List.Forall2

set_option autoImplicit false

namespace EditScope

def Token.Paired (source source' : List UInt8) (t t' : Token) : Prop :=
  ∃ k : Nat, (Token.ofSource source)[k]? = some t ∧ (Token.ofSource source')[k]? = some t'

namespace Outline

structure Node.Alike {σ : Type} (f g : σ → Span) (P : σ → Prop) (n n' : Node) : Prop where
  name : n'.name = n.name
  kind : n'.kind = n.kind
  parent : n'.parent = n.parent
  children : n'.children = n.children
  spans : ∃ place, P place ∧ n.span = f place ∧ n'.span = g place

section Alike

variable {σ : Type} (f g : σ → Span) (P : σ → Prop)

theorem siblingIds_alike (id : Nat) (ds : List (Declaration σ)) :
    siblingIds id (Declaration.mapPlaces g ds) = siblingIds id (Declaration.mapPlaces f ds) := by
  induction ds generalizing id with
  | nil => rfl
  | cons d ds ih =>
    rw [Declaration.mapPlaces, Declaration.mapPlaces, siblingIds, siblingIds, size_mapPlace,
      size_mapPlace, ih]

mutual

theorem nodesOf_alike (parent : Option Nat) (id : Nat) : ∀ d : Declaration σ,
    d.Everywhere (fun d => P d.place) →
      List.Forall₂ (Node.Alike f g P) (nodesOf parent id (d.mapPlace f))
        (nodesOf parent id (d.mapPlace g))
  | .mk _ _ place members, ⟨here, inner⟩ =>
    .cons ⟨rfl, rfl, rfl, siblingIds_alike f g (id + 1) members, place, here, rfl, rfl⟩
      (nodesOfAll_alike (some id) (id + 1) members inner)

theorem nodesOfAll_alike (parent : Option Nat) (id : Nat) : ∀ ds : List (Declaration σ),
    Declaration.EverywhereIn (fun d => P d.place) ds →
      List.Forall₂ (Node.Alike f g P) (nodesOfAll parent id (Declaration.mapPlaces f ds))
        (nodesOfAll parent id (Declaration.mapPlaces g ds))
  | [], _ => .nil
  | d :: ds, ⟨here, rest⟩ => by
    rw [Declaration.mapPlaces, Declaration.mapPlaces, nodesOfAll, nodesOfAll, size_mapPlace,
      size_mapPlace]
    exact List.rel_append (nodesOf_alike parent id d here)
      (nodesOfAll_alike parent (id + d.size) ds rest)

end

end Alike

/-- Both start at the same-numbered token; both end with the same one, or with their sources. -/
structure Node.Reflowed (source source' : List UInt8) (n n' : Node) : Prop where
  name : n'.name = n.name
  kind : n'.kind = n.kind
  parent : n'.parent = n.parent
  children : n'.children = n.children
  start : ∃ t t', Token.Paired source source' t t' ∧
    n.span.start = t.offset ∧ n'.span.start = t'.offset
  stop : (∃ t t', Token.Paired source source' t t' ∧ n.span.stop = t.stop ∧ n'.span.stop = t'.stop) ∨
    n.span.stop = source.length ∧ n'.span.stop = source'.length

section Reflow

variable {source source' : List UInt8} (same : Token.lexemes source' = Token.lexemes source)

include same

theorem size_of_lexemes : (Token.ofSource source').size = (Token.ofSource source).size := by
  simpa [Token.lexemes] using congrArg List.length same

theorem getElem?_of_lexemes (k : Nat) :
    (∃ t t', (Token.ofSource source)[k]? = some t ∧ (Token.ofSource source')[k]? = some t') ∨
      (Token.ofSource source)[k]? = none ∧ (Token.ofSource source')[k]? = none := by
  have size := size_of_lexemes same
  by_cases inside : k < (Token.ofSource source).size
  · exact .inl ⟨_, _, Array.getElem?_eq_getElem inside, Array.getElem?_eq_getElem (size ▸ inside)⟩
  · exact .inr ⟨by simpa using inside, by simpa [size] using inside⟩

theorem reflowed_of_alike {n n' : Node}
    (alike : Node.Alike (resolve (Token.ofSource source) source.length)
      (resolve (Token.ofSource source') source'.length)
      (fun e => e.first < (Token.ofSource source).size) n n') :
    Node.Reflowed source source' n n' := by
  obtain ⟨name, kind, parent, children, ⟨first, last⟩, inside, here, there⟩ := alike
  have inside : first < (Token.ofSource source).size := inside
  refine ⟨name, kind, parent, children, ?_, ?_⟩
  · obtain ⟨t, t', found, found'⟩ | ⟨none, _⟩ := getElem?_of_lexemes same first
    · refine ⟨t, t', ⟨first, found, found'⟩, ?_, ?_⟩
      · simp [here, resolve, offsetAt, found]
      · simp [there, resolve, offsetAt, found']
    · simp only [Array.getElem?_eq_none_iff] at none
      omega
  · rw [here, there]
    cases last with
    | none => exact .inr ⟨rfl, rfl⟩
    | some k =>
      obtain ⟨t, t', found, found'⟩ | ⟨found, found'⟩ := getElem?_of_lexemes same k
      · refine .inl ⟨t, t', ⟨k, found, found'⟩, ?_, ?_⟩
        · simp [resolve, stopAt, found]
        · simp [resolve, stopAt, found']
      · refine .inr ⟨?_, ?_⟩
        · simp [resolve, stopAt, found]
        · simp [resolve, stopAt, found']

end Reflow

theorem getElem?_below {o : Outline} {below : List Node} {i : o.Id} {j : Nat}
    (nodes : o.nodes.toList = o.root :: below) (index : i.val = j + 1) :
    below[j]? = some (o.node i) := by
  have here : o.nodes.toList[j + 1]? = some (o.node i) := by
    rw [Array.getElem?_toList, ← index]
    exact Array.getElem?_eq_getElem i.isLt
  rw [nodes, List.getElem?_cons_succ] at here
  exact here

theorem ofSource_reflow (settings : OutlineSettings) (fallback : Option String)
    (source source' : List UInt8) (same : Token.lexemes source' = Token.lexemes source) :
    let o := (ofSource settings fallback source).1
    let o' := (ofSource settings fallback source').1
    o'.nodes.size = o.nodes.size ∧ o'.root = { o.root with span := ⟨0, source'.length⟩ } ∧
      ∀ (i : o.Id) (i' : o'.Id), i'.val = i.val → i ≠ o.rootId →
        Node.Reflowed source source' (o.node i) (o'.node i') := by
  intro o o'
  have sketch : sketched settings source' = sketched settings source := by
    rw [sketched, same, sketched]
  -- One sketch is resolved against two lists of tokens, and its indices are the same for both.
  have alike := nodesOfAll_alike (resolve (Token.ofSource source) source.length)
    (resolve (Token.ofSource source') source'.length)
    (fun e => e.first < (Token.ofSource source).size) (some 0) 1 (sketched settings source).types
    (sketched_starts settings source)
  have nodes : o.nodes.toList = o.root :: nodesOfAll (some 0) 1 (Declaration.mapPlaces
      (resolve (Token.ofSource source) source.length) (sketched settings source).types) := rfl
  have nodes' : o'.nodes.toList = o'.root :: nodesOfAll (some 0) 1 (Declaration.mapPlaces
      (resolve (Token.ofSource source') source'.length) (sketched settings source).types) := by
    rw [← sketch]
    rfl
  refine ⟨?_, ?_, ?_⟩
  · rw [← Array.length_toList, ← Array.length_toList, nodes, nodes', List.length_cons,
      List.length_cons, alike.length_eq]
  · have root (source : List UInt8) : (ofSource settings fallback source).1.root =
        ⟨((sketched settings source).package.or fallback).getD settings.defaultUnitName, .unit,
          ⟨0, source.length⟩, none, siblingIds 1 (Declaration.mapPlaces
            (resolve (Token.ofSource source) source.length) (sketched settings source).types)⟩ := rfl
    rw [root source, root source', sketch, siblingIds_alike]
  · intro i i' number inner
    obtain ⟨j, index⟩ : ∃ j, i.val = j + 1 :=
      Nat.exists_eq_succ_of_ne_zero fun zero => inner (Fin.ext zero)
    obtain ⟨within, here⟩ := List.getElem?_eq_some_iff.1 (getElem?_below nodes index)
    obtain ⟨within', there⟩ := List.getElem?_eq_some_iff.1 (getElem?_below nodes' (number.trans index))
    have pair := alike.get within within'
    rw [List.get_eq_getElem, List.get_eq_getElem, here, there] at pair
    exact reflowed_of_alike same pair

theorem ofSource_reflow_comment :
    let source := "class A\x7bint f();\x7d".toList.map Piece.byte
    let source' := "class/*\x7b*/A \x7b\n int f ( ) ;\n".toList.map Piece.byte ++ [Piece.byte '\x7d']
    let o := (ofSource {} none source).1
    let o' := (ofSource {} none source').1
    Token.lexemes source' = Token.lexemes source ∧ o.nodes.size = 3 ∧ o'.nodes.size = o.nodes.size ∧
      ∀ (i : o.Id) (i' : o'.Id), i'.val = i.val → i ≠ o.rootId →
        Node.Reflowed source source' (o.node i) (o'.node i') := by
  intro source source' o o'
  have same : Token.lexemes source' = Token.lexemes source := by decide +kernel
  obtain ⟨size, _, nodes⟩ := ofSource_reflow {} none source source' same
  exact ⟨same, by decide +kernel, size, nodes⟩

end Outline

end EditScope

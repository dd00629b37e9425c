import EditScope.Outline.Source
import EditScope.Proofs.Outline.Links
import EditScope.Proofs.Sketch.Pruned

set_option autoImplicit false

namespace EditScope

namespace Declaration

theorem preorderAll_eq_flatMap {σ : Type} (ds : List (Declaration σ)) :
    preorderAll ds = ds.flatMap preorder := by
  induction ds with
  | nil => rfl
  | cons d ds ih => rw [preorderAll, ih, List.flatMap_cons]

def rowsTo : Nat → Declaration Span → List (Kind × String × Span)
  | 0, _ => []
  | levels + 1, d => d.row :: d.members.flatMap (rowsTo levels)

theorem flatMap_rowsTo_zero (ds : List (Declaration Span)) : ds.flatMap (rowsTo 0) = [] :=
  List.flatMap_eq_nil_iff.2 fun _ _ => rfl

theorem map_row_prune (depth : Nat) (d : Declaration Span) :
    (d.prune depth).preorder.map row = d.rowsTo (depth + 1) := by
  induction depth generalizing d with
  | zero =>
    rw [rowsTo, flatMap_rowsTo_zero]
    rfl
  | succ depth ih =>
    rw [rowsTo, preorder_eq, List.map_cons, preorderAll_eq_flatMap, List.map_flatMap, prune,
      Declaration.members, List.flatMap_map]
    simp only [ih]
    rfl

end Declaration

namespace Outline

open Declaration

variable {o : Outline}

theorem length_enclosing_of_node {i p : o.Id} (parent : (o.node i).parent = some p.val) :
    (o.enclosing i).length = (o.enclosing p).length + 1 := by
  obtain ⟨q, found, same⟩ := parent?_of_node parent
  cases Fin.ext same
  rw [enclosing_of_parent? found, List.length_cons]

variable (o) in
def rowWithin? (levels i : Nat) : Option (Kind × String × Span) :=
  if inside : i < o.nodes.size then
    if (o.enclosing ⟨i, inside⟩).length < levels then some (o.node ⟨i, inside⟩).row else none
  else none

theorem rowWithin?_id (levels : Nat) (i : o.Id) : o.rowWithin? levels i =
    if (o.enclosing i).length < levels then some (o.node i).row else none :=
  dif_pos i.isLt

mutual

theorem rowsWithin_below (levels : Nat) (parent : Option Nat) (i : o.Id) :
    ∀ d : Declaration Span, o.Holds parent i d →
      (List.range' i d.size).filterMap (o.rowWithin? levels) =
        d.rowsTo (levels - (o.enclosing i).length)
  | .mk kind name span members, holds => by
    have inner := rowsWithin_among levels i (i + 1) members holds.members
    rw [Declaration.size, List.range'_succ, List.filterMap_cons, inner, rowWithin?_id, holds.node_eq]
    by_cases within : (o.enclosing i).length < levels
    · rw [if_pos within,
        show levels - (o.enclosing i).length = levels - ((o.enclosing i).length + 1) + 1 by omega]
      rfl
    · rw [if_neg within, Nat.sub_eq_zero_of_le (by omega), Nat.sub_eq_zero_of_le (by omega),
        flatMap_rowsTo_zero]
      rfl

theorem rowsWithin_among (levels : Nat) (p : o.Id) (id : Nat) :
    ∀ ds : List (Declaration Span), o.HoldsAll (some p) id ds →
      (List.range' id (sizes ds)).filterMap (o.rowWithin? levels) =
        ds.flatMap (rowsTo (levels - ((o.enclosing p).length + 1)))
  | [], _ => rfl
  | d :: ds, holds => by
    obtain ⟨i, rfl⟩ := holds.head.exists_id
    have depth := length_enclosing_of_node (i := i) (p := p) (by rw [holds.head.node_eq])
    have first := rowsWithin_below levels (some p) i d holds.head
    have rest := rowsWithin_among levels p (i + d.size) ds holds.tail
    rw [sizes, ← List.range'_append_1, List.filterMap_append, first, rest, depth, List.flatMap_cons]

end

theorem map_val_ids (o : Outline) : o.ids.map Fin.val = List.range' 0 o.nodes.size := by
  refine List.ext_getElem ?_ fun i _ _ => ?_ <;> simp [ids]

theorem map_row_filter_ids (o : Outline) (levels : Nat) :
    (o.ids.filter fun id => (o.enclosing id).length < levels).map (fun id => (o.node id).row) =
      (List.range' 0 o.nodes.size).filterMap (o.rowWithin? levels) := by
  rw [← map_val_ids, List.filterMap_map]
  induction o.ids with
  | nil => rfl
  | cons id ids ih =>
    rw [List.filterMap_cons, List.filter_cons, ← ih, Function.comp_apply, rowWithin?_id]
    by_cases within : (o.enclosing id).length < levels
    · simp only [within, decide_true, if_true, List.map_cons]
    · simp only [within, decide_false, if_false, Bool.false_eq_true]

theorem rows_prune (depth : Nat) (d : Declaration Span) :
    (ofDeclaration (d.prune depth)).rows = ((ofDeclaration d).ids.filter fun id =>
      ((ofDeclaration d).enclosing id).length ≤ depth).map fun id => ((ofDeclaration d).node id).row := by
  have listed := rowsWithin_below (depth + 1) none (ofDeclaration d).rootId d (ofDeclaration_holds d)
  rw [enclosing_of_root parent?_rootId, ← ofDeclaration_size] at listed
  rw [rows_ofDeclaration, map_row_prune]
  simp only [← Nat.lt_succ_iff]
  rw [map_row_filter_ids]
  exact listed.symm

variable {source : List UInt8}

theorem declared_prune (nested : Bracket.Nested (Token.lexemes source)) (settings : OutlineSettings)
    (fallback : Option String) (limit : Nat) :
    (declared settings fallback (some limit) source).1 =
      (declared settings fallback none source).1.prune (limit + 1) := by
  obtain ⟨package, types⟩ := SketchedFile.types_prune nested settings.overloads limit
  rw [Token.lexemes] at package types
  have pruned (f : Extent → Span) (ds : List Sketch) :
      mapPlaces f (ds.map (prune limit)) = (mapPlaces f ds).map (prune limit) := by
    simp only [mapPlaces_eq_map, List.map_map, Function.comp_def, prune_mapPlace]
  simp only [declared, package, types, pruned]
  rfl

theorem ofSource_pruned (nested : Bracket.Nested (Token.lexemes source)) (settings : OutlineSettings)
    (fallback : Option String) :
    (ofSource settings fallback source).1 =
        ofDeclaration ((declared settings fallback none source).1.prune (nestingLimit + 1)) ∧
      ∀ limit : Nat,
        let whole := ofDeclaration (declared settings fallback none source).1
        let limited := declared settings fallback (some limit) source
        limited.1 = (declared settings fallback none source).1.prune (limit + 1) ∧
          (ofDeclaration limited.1).rows = (whole.ids.filter fun id =>
            (whole.enclosing id).length ≤ limit + 1).map fun id => (whole.node id).row := by
  refine ⟨congrArg ofDeclaration (declared_prune nested settings fallback nestingLimit), ?_⟩
  intro limit whole limited
  have pruned : limited.1 = _ := declared_prune nested settings fallback limit
  exact ⟨pruned, pruned ▸ rows_prune (limit + 1) _⟩

theorem ofSource_pruned_sibling :
    let source := "class A\x7bclass B\x7bclass C\x7b\x7dint f()\x7b\x7d\x7dint g()\x7b\x7d\x7d".toList.map
      Piece.byte
    let whole := (declared {} none none source).1
    let limited := (declared {} none (some 1) source).1
    Bracket.Nested (Token.lexemes source) ∧
      (ofSource {} none source).1 = ofDeclaration (whole.prune 257) ∧ limited = whole.prune 2 ∧
        (ofDeclaration whole).rows = [(.unit, "<default>", ⟨0, 45⟩), (.type, "A", ⟨0, 45⟩),
          (.type, "B", ⟨8, 35⟩), (.type, "C", ⟨16, 25⟩), (.method, "f", ⟨29, 34⟩), (.method, "g", ⟨39, 44⟩)] ∧
          (ofDeclaration limited).rows = [(.unit, "<default>", ⟨0, 45⟩), (.type, "A", ⟨0, 45⟩),
            (.type, "B", ⟨8, 35⟩), (.method, "g", ⟨39, 44⟩)] := by
  intro source whole limited
  have nested : Bracket.Nested (Token.lexemes source) := by decide +kernel
  obtain ⟨outline, pruned⟩ := ofSource_pruned nested {} none
  exact ⟨nested, outline, (pruned 1).1, by decide +kernel, by decide +kernel⟩

end Outline

end EditScope

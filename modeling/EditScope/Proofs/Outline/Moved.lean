import EditScope.Proofs.Declaration.Everywhere
import EditScope.Proofs.Outline.Enclosing

set_option autoImplicit false

namespace EditScope.Outline

def Node.mapSpan (f : Span → Span) (n : Node) : Node := { n with span := f n.span }

section Sizes

variable {σ τ : Type} (f : σ → τ)

mutual

theorem size_mapPlace : ∀ d : Declaration σ, (d.mapPlace f).size = d.size
  | .mk _ _ _ members => by
    rw [Declaration.mapPlace, Declaration.size, Declaration.size, sizes_mapPlaces members]

theorem sizes_mapPlaces :
    ∀ ds : List (Declaration σ), Declaration.sizes (Declaration.mapPlaces f ds) = Declaration.sizes ds
  | [] => rfl
  | d :: ds => by
    rw [Declaration.mapPlaces, Declaration.sizes, Declaration.sizes, size_mapPlace d,
      sizes_mapPlaces ds]

end

end Sizes

variable (f : Span → Span)

theorem siblingIds_mapPlaces (id : Nat) (ds : List (Declaration Span)) :
    siblingIds id (Declaration.mapPlaces f ds) = siblingIds id ds := by
  induction ds generalizing id with
  | nil => rfl
  | cons d ds ih => rw [Declaration.mapPlaces, siblingIds, siblingIds, size_mapPlace, ih]

mutual

theorem nodesOf_mapPlace (parent : Option Nat) (id : Nat) : ∀ d : Declaration Span,
    nodesOf parent id (d.mapPlace f) = (nodesOf parent id d).map (Node.mapSpan f)
  | .mk kind name span members => by
    rw [Declaration.mapPlace, nodesOf, nodesOf, siblingIds_mapPlaces,
      nodesOfAll_mapPlaces (some id) (id + 1) members]
    rfl

theorem nodesOfAll_mapPlaces (parent : Option Nat) (id : Nat) : ∀ ds : List (Declaration Span),
    nodesOfAll parent id (Declaration.mapPlaces f ds) = (nodesOfAll parent id ds).map (Node.mapSpan f)
  | [] => rfl
  | d :: ds => by
    rw [Declaration.mapPlaces, nodesOfAll, nodesOfAll, List.map_append, size_mapPlace,
      nodesOf_mapPlace parent id d, nodesOfAll_mapPlaces parent (id + d.size) ds]

end

mutual

theorem everywhere_of_nodesOf {P : Span → Prop} (parent : Option Nat) (id : Nat) :
    ∀ d : Declaration Span, (∀ n ∈ nodesOf parent id d, P n.span) →
      d.Everywhere (fun d => P d.place)
  | .mk _ _ _ members, all => by
    obtain ⟨here, inner⟩ := List.forall_mem_cons.1 all
    exact ⟨here, everywhereIn_of_nodesOfAll (some id) (id + 1) members inner⟩

theorem everywhereIn_of_nodesOfAll {P : Span → Prop} (parent : Option Nat) (id : Nat) :
    ∀ ds : List (Declaration Span), (∀ n ∈ nodesOfAll parent id ds, P n.span) →
      Declaration.EverywhereIn (fun d => P d.place) ds
  | [], _ => trivial
  | d :: ds, all => by
    obtain ⟨here, rest⟩ := List.forall_mem_append.1 all
    exact ⟨everywhere_of_nodesOf parent id d here,
      everywhereIn_of_nodesOfAll parent (id + d.size) ds rest⟩

end

section Names

variable {f} {o o' : Outline} (moved : o'.nodes = o.nodes.map (Node.mapSpan f))

include moved

theorem node_of_mapSpan {i : o.Id} {i' : o'.Id} (same : i'.val = i.val) :
    o'.node i' = (o.node i).mapSpan f := by
  have there : o'.nodes[i'.val]? = some (o'.node i') := Array.getElem?_eq_getElem i'.isLt
  have here : o.nodes[i.val]? = some (o.node i) := Array.getElem?_eq_getElem i.isLt
  rw [same, moved, Array.getElem?_map, here] at there
  exact (Option.some.inj there).symm

theorem enclosing_of_mapSpan {i : o.Id} {i' : o'.Id} (same : i'.val = i.val) :
    (o'.enclosing i').map o'.part = (o.enclosing i).map o.part := by
  -- Parents are indices and stay as they are, so both ways out pass the same indices.
  induction i using outwards_induction generalizing i' with
  | top i found =>
    have parent : (o'.node i').parent = none := by
      rw [node_of_mapSpan moved same]
      exact node_of_root found
    cases found' : o'.parent? i' with
    | none => rw [enclosing_of_root found, enclosing_of_root found', List.map_nil, List.map_nil]
    | some p => cases (node_of_parent? found').symm.trans parent
  | inner i p found ih =>
    have parent : (o'.node i').parent = some p.val := by
      rw [node_of_mapSpan moved same]
      exact node_of_parent? found
    obtain ⟨p', found', same'⟩ := parent?_of_node parent
    have part : o'.part p' = o.part p := by
      simp only [Outline.part, node_of_mapSpan moved same', Node.mapSpan]
    rw [enclosing_of_parent? found, enclosing_of_parent? found', List.map_cons, List.map_cons,
      ih same', part]

theorem nameOf_of_mapSpan {i : o.Id} {i' : o'.Id} (same : i'.val = i.val) :
    o'.nameOf i' = o.nameOf i := by
  have part : o'.part i' = o.part i := by
    simp only [Outline.part, node_of_mapSpan moved same, Node.mapSpan]
  rw [nameOf, nameOf, enclosing_of_mapSpan moved same, part]

end Names

end EditScope.Outline

import EditScope.Proofs.Declaration.Preorder
import EditScope.Proofs.Outline.Enclosing
import EditScope.Proofs.Outline.Placement

set_option autoImplicit false

namespace EditScope.Outline

open Declaration

theorem size_pos (d : Declaration Span) : 0 < d.size := by
  cases d
  rw [size]
  exact Nat.succ_pos _

section Siblings

variable {id c : Nat} {ds : List (Declaration Span)}

theorem bounds_of_mem_siblingIds (mem : c ∈ siblingIds id ds) : id ≤ c ∧ c < id + sizes ds := by
  induction ds generalizing id with
  | nil => simp [siblingIds] at mem
  | cons d ds ih =>
    have first := size_pos d
    rw [sizes]
    rcases List.mem_cons.1 mem with rfl | mem
    · omega
    · have := ih mem
      omega

theorem siblingIds_ascending (id : Nat) (ds : List (Declaration Span)) :
    (siblingIds id ds).Pairwise (· < ·) := by
  induction ds generalizing id with
  | nil => exact .nil
  | cons d ds ih =>
    refine List.pairwise_cons.2 ⟨fun c mem => ?_, ih (id + d.size)⟩
    have first := size_pos d
    have := (bounds_of_mem_siblingIds mem).1
    omega

variable {all : List (Declaration Span)}

end Siblings

section Rows

def Node.row (n : Node) : Kind × String × Span := (n.kind, n.name, n.span)

mutual

theorem map_row_nodesOf (parent : Option Nat) (id : Nat) : ∀ d : Declaration Span,
    (nodesOf parent id d).map Node.row = d.preorder.map row
  | .mk _ _ _ members => by
    rw [nodesOf, preorder, List.map_cons, map_row_nodesOfAll (some id) (id + 1) members, List.map_cons]
    rfl

theorem map_row_nodesOfAll (parent : Option Nat) (id : Nat) : ∀ ds : List (Declaration Span),
    (nodesOfAll parent id ds).map Node.row = (preorderAll ds).map row
  | [] => rfl
  | d :: ds => by
    rw [nodesOfAll, preorderAll, List.map_append, map_row_nodesOf parent id d,
      map_row_nodesOfAll parent (id + d.size) ds, List.map_append]

end

theorem rows_ofDeclaration (d : Declaration Span) :
    (ofDeclaration d).rows = d.preorder.map row :=
  map_row_nodesOf none 0 d

end Rows

section Links

variable {d : Declaration Span}

theorem exists_held (i : (ofDeclaration d).Id) : ∃ parent m, (ofDeclaration d).Holds parent i m := by
  obtain ⟨parent, m, holds, _⟩ :=
    exists_holds_at (P := fun _ => True) (fun _ _ _ _ => trivial) trivial i
  exact ⟨parent, m, holds⟩

theorem exists_id_of_child {p : (ofDeclaration d).Id} {c : Nat}
    (child : c ∈ ((ofDeclaration d).node p).children) :
    ∃ i : (ofDeclaration d).Id, i.val = c ∧ (ofDeclaration d).parent? i = some p := by
  obtain ⟨_, m, holds⟩ := exists_held p
  rw [holds.node_eq] at child
  obtain ⟨k, place⟩ := List.mem_iff_getElem?.1 child
  obtain ⟨m', _, held⟩ := holds.members.sibling place
  obtain ⟨i, rfl⟩ := held.exists_id
  obtain ⟨q, found, same⟩ := parent?_of_node (i := i) (p := p) (by rw [held.node_eq])
  exact ⟨i, rfl, Fin.ext same ▸ found⟩

theorem child_of_parent? {i p : (ofDeclaration d).Id} (found : (ofDeclaration d).parent? i = some p) :
    i.val ∈ ((ofDeclaration d).node p).children := by
  have passed : (ofDeclaration d).Inherited fun parent id _ => ∀ p : (ofDeclaration d).Id,
      parent = some p.val → id ∈ ((ofDeclaration d).node p).children := by
    rintro _ _ e holds _ k c m _ place p ⟨⟩
    rw [holds.node_eq]
    exact List.mem_of_getElem? place
  obtain ⟨parent, m, holds, named⟩ := ofDeclaration_inherits passed nofun i
  have here := node_of_parent? found
  rw [holds.node_eq] at here
  exact named p here

theorem mem_children {p : (ofDeclaration d).Id} {c : Nat} :
    c ∈ ((ofDeclaration d).node p).children ↔
      ∃ i : (ofDeclaration d).Id, i.val = c ∧ (ofDeclaration d).parent? i = some p := by
  refine ⟨exists_id_of_child, ?_⟩
  rintro ⟨i, rfl, found⟩
  exact child_of_parent? found

theorem children_ascending (i : (ofDeclaration d).Id) :
    ((ofDeclaration d).node i).children.Pairwise (· < ·) := by
  obtain ⟨_, m, holds⟩ := exists_held i
  rw [holds.node_eq]
  exact siblingIds_ascending _ _

end Links

/-- An index that does not lie behind its node names no member. -/
def rebuild (o : Outline) (id : o.Id) : Declaration Span :=
  .mk (o.node id).kind (o.node id).name (o.node id).span
    ((o.node id).children.filterMap fun c =>
      if behind : id.val < c ∧ c < o.nodes.size then some (rebuild o ⟨c, behind.2⟩) else none)
termination_by o.nodes.size - id.val

mutual

theorem rebuild_of_holds {o : Outline} (parent : Option Nat) (i : o.Id) : ∀ d : Declaration Span,
    o.Holds parent i d → o.rebuild i = d
  | .mk kind name span members, holds => by
    rw [rebuild, holds.node_eq]
    exact congrArg (Declaration.mk kind name span) (rebuild_of_holdsAll i (i + 1) (Nat.lt_succ_self i) members
      holds.members)

theorem rebuild_of_holdsAll {o : Outline} (i : o.Id) (id : Nat) (behind : i.val < id) :
    ∀ ds : List (Declaration Span), o.HoldsAll (some i) id ds →
      ((siblingIds id ds).filterMap fun c =>
        if behind : i.val < c ∧ c < o.nodes.size then some (o.rebuild ⟨c, behind.2⟩) else none) = ds
  | [], _ => rfl
  | d :: ds, holds => by
    obtain ⟨j, rfl⟩ := holds.head.exists_id
    have first : o.rebuild ⟨j.val, j.isLt⟩ = d := rebuild_of_holds (some i.val) j d holds.head
    have rest := rebuild_of_holdsAll i (j + d.size) (Nat.lt_add_right _ behind) ds holds.tail
    rw [siblingIds, List.filterMap_cons_some (dif_pos ⟨behind, j.isLt⟩), first, rest]

end

end EditScope.Outline

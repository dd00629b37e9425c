import EditScope.Outline.Flattening
import EditScope.Proofs.Outline.Links

set_option autoImplicit false

namespace EditScope.Outline

open Declaration

def Node.upTo (n : Nat) (node : Node) : Node :=
  { node with children := node.children.filter (· < n) }

def nodesOfStack (id : Nat) : List (Declaration Span × Option Nat) → List Node
  | [] => []
  | (d, parent) :: stack => nodesOf parent id d ++ nodesOfStack (id + d.size) stack

structure Flattened (d : Declaration Span) (nodes : Array Node)
    (stack : List (Declaration Span × Option Nat)) : Prop where
  done (i : Nat) : i < nodes.size →
    nodes[i]? = ((ofDeclaration d).nodes[i]?).map (Node.upTo nodes.size)
  left : (ofDeclaration d).nodes.toList.drop nodes.size = nodesOfStack nodes.size stack

theorem nodesOfStack_members (p id : Nat) (ds : List (Declaration Span))
    (stack : List (Declaration Span × Option Nat)) :
    nodesOfStack id (ds.map (·, some p) ++ stack) =
      nodesOfAll (some p) id ds ++ nodesOfStack (id + sizes ds) stack := by
  induction ds generalizing id with
  | nil => rfl
  | cons d ds ih =>
    simp only [List.map_cons, List.cons_append, nodesOfStack, nodesOfAll, sizes, ih,
      List.append_assoc, Nat.add_assoc]

theorem filter_lt_eq_nil {ids : List Nat} {bound : Nat} (behind : ∀ c ∈ ids, bound ≤ c) :
    ids.filter (· < bound) = [] :=
  List.filter_eq_nil_iff.2 fun c mem => by
    have := behind c mem
    rw [decide_eq_true_eq]
    omega

theorem filter_lt_cons {a bound : Nat} (less : a < bound) (ids : List Nat) :
    (a :: ids).filter (· < bound) = a :: ids.filter (· < bound) :=
  List.filter_cons_of_pos (decide_eq_true less)

theorem filter_lt_succ {ids : List Nat} (ascending : ids.Pairwise (· < ·)) (n : Nat) :
    ids.filter (· < n + 1) = ids.filter (· < n) ++ if n ∈ ids then [n] else [] := by
  induction ids with
  | nil => rfl
  | cons a ids ih =>
    obtain ⟨later, rest⟩ := List.pairwise_cons.1 ascending
    rcases Nat.lt_trichotomy a n with less | rfl | more
    · have other : n ≠ a := by omega
      rw [filter_lt_cons (Nat.lt_succ_of_lt less), filter_lt_cons less, ih rest, List.cons_append]
      simp only [List.mem_cons, other, false_or]
    · rw [filter_lt_cons (Nat.lt_succ_self a), filter_lt_eq_nil later,
        filter_lt_eq_nil (List.forall_mem_cons.2 ⟨Nat.le_refl a, fun c mem => Nat.le_of_lt (later c mem)⟩),
        if_pos (List.mem_cons_self ..)]
      rfl
    · have behind : ∀ c ∈ a :: ids, n + 1 ≤ c :=
        List.forall_mem_cons.2 ⟨more, fun c mem => Nat.le_trans more (Nat.le_of_lt (later c mem))⟩
      have absent : n ∉ a :: ids := fun mem => absurd (behind n mem) (Nat.not_succ_le_self n)
      rw [filter_lt_eq_nil behind, filter_lt_eq_nil fun c mem => Nat.le_of_succ_le (behind c mem),
        if_neg absent]
      rfl

section Node

variable (nodes : Array Node) (d : Declaration Span) (parent : Option Nat)

theorem size_withNode : (withNode nodes d parent).size = nodes.size + 1 := by
  cases parent <;> simp [withNode]

theorem getElem?_withNode_size : (withNode nodes d parent)[nodes.size]? =
    some ⟨d.name, d.kind, d.place, parent, []⟩ := by
  cases parent with
  | none => simp [withNode]
  | some p =>
    have size : (nodes.modify p fun n => { n with children := n.children ++ [nodes.size] }).size =
        nodes.size := Array.size_modify
    simp only [withNode]
    rw [Array.getElem?_push, if_pos size.symm]

theorem getElem?_withNode {i : Nat} (below : i < nodes.size) : (withNode nodes d parent)[i]? =
    nodes[i]?.map fun n =>
      if parent = some i then { n with children := n.children ++ [nodes.size] } else n := by
  have last : i ≠ nodes.size := Nat.ne_of_lt below
  cases parent with
  | none => simp [withNode, Array.getElem?_push, last]
  | some p =>
    by_cases same : p = i <;>
      simp [withNode, Array.getElem?_push, Array.getElem?_modify, last, same]

end Node

theorem mem_children_iff_parent {d : Declaration Span} {i j : Nat} {n m : Node}
    (here : (ofDeclaration d).nodes[i]? = some n) (there : (ofDeclaration d).nodes[j]? = some m) :
    j ∈ n.children ↔ m.parent = some i := by
  obtain ⟨inside, rfl⟩ := Array.getElem?_eq_some_iff.1 here
  obtain ⟨inside', rfl⟩ := Array.getElem?_eq_some_iff.1 there
  refine Iff.trans (mem_children (p := ⟨i, inside⟩)) ⟨?_, fun parent => ?_⟩
  · rintro ⟨k, rfl, found⟩
    exact node_of_parent? found
  · obtain ⟨q, found, same⟩ := parent?_of_node (i := ⟨j, inside'⟩) parent
    exact ⟨⟨j, inside'⟩, rfl, found.trans (congrArg some (Fin.ext same))⟩

section Step

variable {d e : Declaration Span} {nodes : Array Node} {parent : Option Nat}
  {stack : List (Declaration Span × Option Nat)}

theorem Flattened.next (state : Flattened d nodes ((e, parent) :: stack)) :
    (ofDeclaration d).nodes[nodes.size]? =
        some ⟨e.name, e.kind, e.place, parent, siblingIds (nodes.size + 1) e.members⟩ ∧
      (ofDeclaration d).nodes.toList.drop (nodes.size + 1) =
        nodesOfStack (nodes.size + 1) (e.members.map (·, some nodes.size) ++ stack) := by
  obtain ⟨kind, name, span, members⟩ := e
  have left := state.left
  rw [nodesOfStack, nodesOf, List.cons_append] at left
  constructor
  · rw [← Array.getElem?_toList, ← List.head?_drop, left]
    rfl
  · rw [← List.tail_drop, left, List.tail_cons, nodesOfStack_members, Declaration.members, size,
      Nat.add_assoc, Nat.add_comm 1]

theorem Flattened.step (state : Flattened d nodes ((e, parent) :: stack)) :
    Flattened d (withNode nodes e parent) (e.members.map (·, some nodes.size) ++ stack) := by
  obtain ⟨here, left⟩ := state.next
  rw [← size_withNode nodes e parent] at left
  refine ⟨fun i below => ?_, left⟩
  rw [size_withNode] at below ⊢
  rcases Nat.lt_succ_iff_lt_or_eq.1 below with less | rfl
  · rw [getElem?_withNode nodes e parent less, state.done i less]
    cases there : (ofDeclaration d).nodes[i]? with
    | none => rfl
    | some n =>
      obtain ⟨inside, rfl⟩ := Array.getElem?_eq_some_iff.1 there
      have ascending : (ofDeclaration d).nodes[i].children.Pairwise (· < ·) :=
        children_ascending ⟨i, inside⟩
      have entered := mem_children_iff_parent there here
      simp only [Option.map_some, Node.upTo, filter_lt_succ ascending, entered]
      split <;> simp
  · -- All members of the new node are placed behind it.
    have none : (siblingIds (nodes.size + 1) e.members).filter (· < nodes.size + 1) = [] :=
      filter_lt_eq_nil fun _ mem => (bounds_of_mem_siblingIds mem).1
    rw [getElem?_withNode_size, here, Option.map_some, Node.upTo, none]

theorem upTo_eq_self {n : Nat} (all : (ofDeclaration d).nodes.size ≤ n) (i : (ofDeclaration d).Id) :
    ((ofDeclaration d).node i).upTo n = (ofDeclaration d).node i := by
  have kept : ((ofDeclaration d).node i).children.filter (· < n) = ((ofDeclaration d).node i).children :=
    List.filter_eq_self.2 fun c child => by
      obtain ⟨j, rfl, _⟩ := mem_children.1 child
      simpa using Nat.lt_of_lt_of_le j.isLt all
  rw [Node.upTo, kept]

theorem Flattened.run (state : Flattened d nodes stack) :
    flattenFrom nodes stack = (ofDeclaration d).nodes := by
  fun_induction flattenFrom nodes stack with
  | case1 nodes =>
    have all : (ofDeclaration d).nodes.size ≤ nodes.size := by
      simpa [nodesOfStack] using state.left
    refine Array.ext_getElem? fun i => ?_
    by_cases placed : i < nodes.size
    · rw [state.done i placed]
      cases there : (ofDeclaration d).nodes[i]? with
      | none => rfl
      | some n =>
        obtain ⟨inside, rfl⟩ := Array.getElem?_eq_some_iff.1 there
        exact congrArg some (upTo_eq_self all ⟨i, inside⟩)
    · rw [Array.getElem?_eq_none (by omega), Array.getElem?_eq_none (by omega)]
  | case2 nodes e parent stack ih => exact ih state.step

end Step

end EditScope.Outline

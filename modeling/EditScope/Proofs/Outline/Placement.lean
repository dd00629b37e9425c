import EditScope.Outline.Basic

set_option autoImplicit false

namespace EditScope.Outline

theorem getElem?_of_prefix_cons {α : Type} {xs l : List α} {a : α} {n : Nat}
    (start : a :: l <+: xs.drop n) : xs[n]? = some a ∧ l <+: xs.drop (n + 1) := by
  obtain ⟨rest, eq⟩ := start
  constructor
  · rw [← List.head?_drop, ← eq]
    rfl
  · refine ⟨rest, ?_⟩
    rw [← List.tail_drop, ← eq]
    rfl

theorem drop_prefix_of_append {α : Type} {xs l m : List α} {n : Nat}
    (start : l ++ m <+: xs.drop n) : l <+: xs.drop n ∧ m <+: xs.drop (n + l.length) := by
  obtain ⟨rest, eq⟩ := start
  constructor
  · exact ⟨m ++ rest, by rw [← eq, List.append_assoc]⟩
  · refine ⟨rest, ?_⟩
    rw [← List.drop_drop, ← eq, List.append_assoc, List.drop_left]

variable (o : Outline)

def Holds (parent : Option Nat) (id : Nat) (d : Declaration Span) : Prop :=
  nodesOf parent id d <+: o.nodes.toList.drop id

def HoldsAll (parent : Option Nat) (id : Nat) (ds : List (Declaration Span)) : Prop :=
  nodesOfAll parent id ds <+: o.nodes.toList.drop id

variable {o} {parent : Option Nat} {id : Nat}

theorem ofDeclaration_holds (d : Declaration Span) : (ofDeclaration d).Holds none 0 d :=
  List.prefix_rfl

theorem Holds.node {d : Declaration Span} (holds : o.Holds parent id d) :
    o.nodes[id]? = some ⟨d.name, d.kind, d.place, parent, siblingIds (id + 1) d.members⟩ := by
  cases d
  have first := (getElem?_of_prefix_cons holds).1
  rw [Array.getElem?_toList] at first
  exact first

theorem Holds.node_eq {d : Declaration Span} {i : o.Id} (holds : o.Holds parent i d) :
    o.node i = ⟨d.name, d.kind, d.place, parent, siblingIds (i + 1) d.members⟩ := by
  have here := holds.node
  rw [Array.getElem?_eq_getElem i.isLt] at here
  exact Option.some.inj here

theorem Holds.exists_id {d : Declaration Span} (holds : o.Holds parent id d) :
    ∃ i : o.Id, i.val = id :=
  ⟨⟨id, (Array.getElem?_eq_some_iff.1 holds.node).1⟩, rfl⟩

theorem Holds.members {d : Declaration Span} (holds : o.Holds parent id d) :
    o.HoldsAll (some id) (id + 1) d.members := by
  cases d
  exact (getElem?_of_prefix_cons holds).2

theorem HoldsAll.head {d : Declaration Span} {ds : List (Declaration Span)}
    (holds : o.HoldsAll parent id (d :: ds)) : o.Holds parent id d :=
  (drop_prefix_of_append holds).1

theorem HoldsAll.tail {d : Declaration Span} {ds : List (Declaration Span)}
    (holds : o.HoldsAll parent id (d :: ds)) : o.HoldsAll parent (id + d.size) ds := by
  have rest := (drop_prefix_of_append holds).2
  rw [nodesOf_length] at rest
  exact rest

theorem HoldsAll.sibling {ds : List (Declaration Span)} (holds : o.HoldsAll parent id ds) {k c : Nat}
    (here : (siblingIds id ds)[k]? = some c) :
    ∃ d, ds[k]? = some d ∧ o.Holds parent c d := by
  induction ds generalizing id k with
  | nil => simp [siblingIds] at here
  | cons d ds ih =>
    cases k with
    | zero =>
      cases Option.some.inj here
      exact ⟨d, rfl, holds.head⟩
    | succ k => exact ih holds.tail here

theorem HoldsAll.spans {ds : List (Declaration Span)} (holds : o.HoldsAll parent id ds) :
    (siblingIds id ds).filterMap (fun c => (o.nodes[c]?).map Node.span) =
      ds.map Declaration.place := by
  induction ds generalizing id with
  | nil => rfl
  | cons d ds ih =>
    rw [siblingIds, List.filterMap_cons, holds.head.node, Option.map_some, ih holds.tail, List.map_cons]

theorem HoldsAll.linked {ds : List (Declaration Span)} (holds : o.HoldsAll parent id ds) :
    (siblingIds id ds).all (fun c => (o.nodes[c]?).any (·.parent == parent)) = true := by
  induction ds generalizing id with
  | nil => rfl
  | cons d ds ih =>
    rw [siblingIds, List.all_cons, holds.head.node, ih holds.tail, Option.any_some, beq_self_eq_true]
    rfl

variable (o) in
def Inherited (motive : Option Nat → Nat → Declaration Span → Prop) : Prop :=
  ∀ parent id d, o.Holds parent id d → motive parent id d →
    ∀ (k c : Nat) (m : Declaration Span), d.members[k]? = some m →
      (siblingIds (id + 1) d.members)[k]? = some c → motive (some id) c m

section Inherited

variable {motive : Option Nat → Nat → Declaration Span → Prop}

mutual

theorem holds_below (inherited : o.Inherited motive) (parent : Option Nat) (id : Nat) :
    ∀ d : Declaration Span, o.Holds parent id d → motive parent id d →
      ∀ j, id ≤ j → j < id + d.size → ∃ parent' m, o.Holds parent' j m ∧ motive parent' j m
  | .mk kind name span members, holds, here, j, low, high => by
    rcases Nat.eq_or_lt_of_le low with rfl | more
    · exact ⟨parent, _, holds, here⟩
    · refine holds_among inherited id (id + 1) members holds.members
        (inherited parent id _ holds here) j more ?_
      simp only [Declaration.size] at high
      omega

theorem holds_among (inherited : o.Inherited motive) (p id : Nat) :
    ∀ ds : List (Declaration Span), o.HoldsAll (some p) id ds →
      (∀ (k c : Nat) m, ds[k]? = some m → (siblingIds id ds)[k]? = some c → motive (some p) c m) →
        ∀ j, id ≤ j → j < id + Declaration.sizes ds →
          ∃ parent' m, o.Holds parent' j m ∧ motive parent' j m
  | [], _, _, j, low, high => by
    simp only [Declaration.sizes] at high
    omega
  | d :: ds, holds, all, j, low, high => by
    simp only [Declaration.sizes] at high
    by_cases first : j < id + d.size
    · exact holds_below inherited (some p) id d holds.head (all 0 id d rfl rfl) j low first
    · exact holds_among inherited p (id + d.size) ds holds.tail (fun k => all (k + 1)) j (by omega)
        (by omega)

end

end Inherited

theorem ofDeclaration_size (d : Declaration Span) : (ofDeclaration d).nodes.size = d.size := by
  simp [ofDeclaration, nodesOf_length]

theorem ofDeclaration_inherits {motive : Option Nat → Nat → Declaration Span → Prop}
    {d : Declaration Span} (inherited : (ofDeclaration d).Inherited motive) (top : motive none 0 d)
    (i : (ofDeclaration d).Id) :
    ∃ parent m, (ofDeclaration d).Holds parent i m ∧ motive parent i m := by
  have inside : i.val < 0 + d.size := by
    have bound := i.isLt
    have size := ofDeclaration_size d
    omega
  exact holds_below inherited none 0 d (ofDeclaration_holds d) top i (Nat.zero_le _) inside

variable (o) in
def Attached (P : Declaration Span → Prop) (parent : Option Nat) (d : Declaration Span) : Prop :=
  ∃ p outer outerParent, parent = some p ∧ o.Holds outerParent p outer ∧ P outer ∧ d ∈ outer.members

section Members

variable {P : Declaration Span → Prop} (inherited : ∀ d, P d → ∀ m ∈ d.members, P m)
  {d : Declaration Span} (here : P d) (i : (ofDeclaration d).Id)

include inherited here

theorem exists_holds (inner : i.val ≠ 0) : ∃ parent m, (ofDeclaration d).Holds parent i m ∧ P m ∧
    (ofDeclaration d).Attached P parent m := by
  have passed : (ofDeclaration d).Inherited fun parent id m =>
      P m ∧ (id ≠ 0 → (ofDeclaration d).Attached P parent m) := by
    intro parent id e holds all k c m member _
    have mem := List.mem_of_getElem? member
    exact ⟨inherited e all.1 m mem, fun _ => ⟨id, e, parent, rfl, holds, all.1, mem⟩⟩
  obtain ⟨parent, m, holds, all, attached⟩ :=
    ofDeclaration_inherits passed ⟨here, fun inner => absurd rfl inner⟩ i
  exact ⟨parent, m, holds, all, attached inner⟩

theorem exists_holds_at : ∃ parent m, (ofDeclaration d).Holds parent i m ∧ P m :=
  ofDeclaration_inherits (motive := fun _ _ m => P m)
    (fun _ _ e _ all _ _ m member _ => inherited e all m (List.mem_of_getElem? member)) here i

end Members

end EditScope.Outline

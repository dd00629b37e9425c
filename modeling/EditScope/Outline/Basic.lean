import EditScope.QualifiedName

set_option autoImplicit false

namespace EditScope

structure Outline.Node where
  name : String
  kind : Declaration.Kind
  span : Span
  parent : Option Nat
  children : List Nat
  deriving DecidableEq, Repr

structure Outline where
  nodes : Array Outline.Node
  nonempty : 0 < nodes.size
  parent_lt : ∀ i, ∀ inside : i < nodes.size, ∀ p, nodes[i].parent = some p → p < i

namespace Outline

def siblingIds (id : Nat) : List (Declaration Span) → List Nat
  | [] => []
  | d :: ds => id :: siblingIds (id + d.size) ds

mutual

def nodesOf (parent : Option Nat) (id : Nat) : Declaration Span → List Node
  | .mk kind name span members =>
    ⟨name, kind, span, parent, siblingIds (id + 1) members⟩ :: nodesOfAll (some id) (id + 1) members

def nodesOfAll (parent : Option Nat) (id : Nat) : List (Declaration Span) → List Node
  | [] => []
  | d :: ds => nodesOf parent id d ++ nodesOfAll parent (id + d.size) ds

end

mutual

theorem nodesOf_length (parent : Option Nat) (id : Nat) :
    ∀ d : Declaration Span, (nodesOf parent id d).length = d.size
  | .mk kind name span members => by
    simp [nodesOf, Declaration.size, nodesOfAll_length (some id) (id + 1) members]

theorem nodesOfAll_length (parent : Option Nat) (id : Nat) :
    ∀ ds : List (Declaration Span), (nodesOfAll parent id ds).length = Declaration.sizes ds
  | [] => rfl
  | d :: ds => by
    simp [nodesOfAll, Declaration.sizes, nodesOf_length parent id d,
      nodesOfAll_length parent (id + d.size) ds]

end

def ParentsBefore (parent : Option Nat) (id : Nat) (nodes : List Node) : Prop :=
  ∀ i node, nodes[i]? = some node →
    node.parent = parent ∨ ∃ p, node.parent = some p ∧ id ≤ p ∧ p < id + i

mutual

theorem nodesOf_parents (parent : Option Nat) (id : Nat) :
    ∀ d : Declaration Span, ParentsBefore parent id (nodesOf parent id d)
  | .mk kind name span members => by
    intro i node found
    cases i with
    | zero => simp [nodesOf] at found; simp [← found]
    | succ i =>
      simp only [nodesOf, List.getElem?_cons_succ] at found
      rcases nodesOfAll_parents (some id) (id + 1) members i node found with same | ⟨p, eq, low, high⟩
      · exact .inr ⟨id, same, by omega, by omega⟩
      · exact .inr ⟨p, eq, by omega, by omega⟩

theorem nodesOfAll_parents (parent : Option Nat) (id : Nat) :
    ∀ ds : List (Declaration Span), ParentsBefore parent id (nodesOfAll parent id ds)
  | [] => by intro i node found; simp [nodesOfAll] at found
  | d :: ds => by
    intro i node found
    simp only [nodesOfAll] at found
    by_cases first : i < (nodesOf parent id d).length
    · rw [List.getElem?_append_left first] at found
      exact nodesOf_parents parent id d i node found
    · rw [List.getElem?_append_right (by omega), nodesOf_length] at found
      rw [nodesOf_length] at first
      rcases nodesOfAll_parents parent (id + d.size) ds _ node found with same | ⟨p, eq, low, high⟩
      · exact .inl same
      · exact .inr ⟨p, eq, by omega, by omega⟩

end

def ofDeclaration (d : Declaration Span) : Outline where
  nodes := (nodesOf none 0 d).toArray
  nonempty := by cases d; simp [nodesOf]
  parent_lt := by
    intro i inside p parent
    have found : (nodesOf none 0 d)[i]? = some (nodesOf none 0 d).toArray[i] := by
      simp at inside
      simp [inside]
    rcases nodesOf_parents none 0 d i _ found with top | ⟨q, eq, _, high⟩
    · cases parent.symm.trans top
    · have := Option.some.inj (parent.symm.trans eq)
      omega

variable (o : Outline)

abbrev Id := Fin o.nodes.size

def rootId : o.Id := ⟨0, o.nonempty⟩

def node (id : o.Id) : Node := o.nodes[id]

def root : Node := o.node o.rootId

def ids : List o.Id := List.finRange o.nodes.size

def parent? (id : o.Id) : Option o.Id :=
  match found : (o.node id).parent with
  | some p => some ⟨p, Nat.lt_trans (o.parent_lt id id.isLt p found) id.isLt⟩
  | none => none

theorem parent?_lt {id p : o.Id} (found : o.parent? id = some p) : p < id := by
  unfold parent? at found
  split at found
  · rename_i parent
    simp at found
    exact found ▸ o.parent_lt id id.isLt _ parent
  · simp at found

def enclosing (id : o.Id) : List o.Id :=
  match found : o.parent? id with
  | some p =>
    have := o.parent?_lt found
    p :: enclosing p
  | none => []
termination_by id.val

def outwards (id : o.Id) : List o.Id := id :: o.enclosing id

def part (id : o.Id) : NamePart := ⟨(o.node id).kind, (o.node id).name⟩

def nameOf (id : o.Id) : QualifiedName := ⟨o.part id, (o.enclosing id).map o.part⟩

def names : List QualifiedName := o.ids.map o.nameOf

def rows : List (Declaration.Kind × String × Span) :=
  o.nodes.toList.map fun n => (n.kind, n.name, n.span)

def childSpans (id : o.Id) : List Span :=
  (o.node id).children.filterMap fun c => (o.nodes[c]?).map Node.span

def isSound (id : o.Id) : Bool :=
  let span := (o.node id).span
  let inner := o.childSpans id
  (inner.zip inner.tail).all (fun (a, b) => a.start ≤ b.start)
    && (o.node id).children.all (fun c => (o.nodes[c]?).any (·.parent == some id.val))
    && inner.all (fun s => span.start ≤ s.start && s.stop ≤ span.stop)
    && (id.val == 0 || span.start < span.stop)

def firstFault? : Option Node := (o.ids.find? (!o.isSound ·)).map o.node

def isConsistent : Bool := o.firstFault?.isNone

def Node.faultMessage (n : Node) : String :=
  "Malformed declaration tree: `" ++ n.name ++ "` at " ++ toString n.span.start ++ ".."
    ++ toString n.span.stop ++ " is empty, out of order, or has a member outside its span"

def ofDeclaration? (d : Declaration Span) : Except Node Outline :=
  let o := ofDeclaration d
  match o.firstFault? with
  | none => .ok o
  | some fault => .error fault

end Outline

end EditScope

import EditScope.Outline.Basic

set_option autoImplicit false

namespace EditScope.Outline

def withNode (nodes : Array Node) (d : Declaration Span) (parent : Option Nat) : Array Node :=
  let id := nodes.size
  let linked :=
    match parent with
    | some p => nodes.modify p fun n => { n with children := n.children ++ [id] }
    | none => nodes
  linked.push ⟨d.name, d.kind, d.place, parent, []⟩

theorem sizes_append (ds es : List (Declaration Span)) :
    Declaration.sizes (ds ++ es) = Declaration.sizes ds + Declaration.sizes es := by
  induction ds with
  | nil => simp [Declaration.sizes]
  | cons d ds ih => simp only [List.cons_append, Declaration.sizes, ih, Nat.add_assoc]

def flattenFrom (nodes : Array Node) (stack : List (Declaration Span × Option Nat)) : Array Node :=
  match stack with
  | [] => nodes
  | (d, parent) :: stack =>
    flattenFrom (withNode nodes d parent) (d.members.map (·, some nodes.size) ++ stack)
termination_by Declaration.sizes (stack.map Prod.fst)
decreasing_by
  cases d
  simp [sizes_append, Function.comp_def, Declaration.members, Declaration.sizes, Declaration.size]

def flatten (d : Declaration Span) : Array Node := flattenFrom #[] [(d, none)]

end EditScope.Outline

import EditScope.QualifiedName

set_option autoImplicit false

namespace EditScope

inductive Change.Kind where
  | add
  | modify
  | delete
  deriving DecidableEq, Repr, Ord

structure Change where
  declaration : QualifiedName
  kind : Change.Kind
  deriving DecidableEq, Repr

def insertOnce {α : Type} [Ord α] (item : α) : List α → List α
  | [] => [item]
  | next :: rest => if compare item next == .eq then next :: rest else item :: next :: rest

def ascending {α : Type} [Ord α] (items : List α) : List α :=
  (items.mergeSort (fun a b => compare a b != .gt)).foldr insertOnce []

namespace Change

def Kind.all : List Kind := [.add, .modify, .delete]

def Kind.name : Kind → String
  | .add => "add"
  | .modify => "modify"
  | .delete => "delete"

instance : Ord Change where
  compare a b := (compare a.declaration b.declaration).then (compare a.kind b.kind)

def display (c : Change) : String := c.kind.name ++ " " ++ c.declaration.display

def sorted (changes : List Change) : List Change := ascending changes

end Change

end EditScope

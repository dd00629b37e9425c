import EditScope.Declaration.Basic

set_option autoImplicit false

namespace EditScope

structure NamePart where
  kind : Declaration.Kind
  name : String
  deriving DecidableEq, Repr, Ord

/-- What encloses the declaration comes from the inside out. -/
structure QualifiedName where
  self : NamePart
  enclosing : List NamePart
  deriving DecidableEq, Repr

namespace QualifiedName

def parts (n : QualifiedName) : List NamePart := n.self :: n.enclosing

def ofInnermost? : List NamePart → Option QualifiedName
  | [] => none
  | self :: enclosing => some ⟨self, enclosing⟩

theorem ofInnermost?_eq_some {path : List NamePart} {n : QualifiedName} :
    ofInnermost? path = some n ↔ n.parts = path := by
  cases path with
  | nil => simp [ofInnermost?, parts]
  | cons p path =>
    cases n
    simp [ofInnermost?, parts, eq_comm]

def ofOutermost? (path : List NamePart) : Option QualifiedName := ofInnermost? path.reverse

def outermost (n : QualifiedName) : List NamePart := n.parts.reverse

def kind (n : QualifiedName) : Declaration.Kind := n.self.kind

def name (n : QualifiedName) : String := n.self.name

def depth (n : QualifiedName) : Nat := n.parts.length

def dotted (path : List NamePart) : String := ".".intercalate (path.map NamePart.name)

def display (n : QualifiedName) : String := dotted n.outermost

def pathInUnit (n : QualifiedName) : String := dotted (n.outermost.filter (·.kind != .unit))

def kinds (n : QualifiedName) : String := "/".intercalate (n.outermost.map (·.kind.name))

def nearest? (n : QualifiedName) (kind : Declaration.Kind) : Option QualifiedName :=
  if n.kind.isMoreGeneralThan kind then none
  else ofInnermost? (n.parts.dropWhile (·.kind != kind))

instance : Ord QualifiedName where
  compare a b := List.compareLex compare a.outermost b.outermost

end QualifiedName

end EditScope

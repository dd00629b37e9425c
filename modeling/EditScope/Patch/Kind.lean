set_option autoImplicit false

namespace EditScope

inductive PatchKind where
  | added
  | deleted
  | modified
  | renamed
  deriving DecidableEq, Repr

namespace PatchKind

def all : List PatchKind := [.added, .deleted, .modified, .renamed]

def name : PatchKind → String
  | .added => "added"
  | .deleted => "deleted"
  | .modified => "modified"
  | .renamed => "renamed"

def letter : PatchKind → Char
  | .added => 'A'
  | .deleted => 'D'
  | .modified => 'M'
  | .renamed => 'R'

def ofLetter? (c : Char) : Option PatchKind := all.find? (·.letter == c)

end PatchKind

end EditScope

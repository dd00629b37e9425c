import EditScope.Attribution
import EditScope.Settings

set_option autoImplicit false

namespace EditScope

structure Snapshot where
  path : String
  revision : String
  deriving DecidableEq, Repr

inductive PatchSide where
  | old
  | new
  deriving DecidableEq, Repr

def PatchSide.name : PatchSide → String
  | .old => "old"
  | .new => "new"

inductive PatchError where
  | unreadable (version : Snapshot) (reason : String)
  | missingVersion (path : String) (side : PatchSide)
  | attribution (error : AttributionError)
  deriving DecidableEq, Repr

def PatchError.message : PatchError → String
  | .unreadable version reason =>
    "Failed to read " ++ version.path ++ " at " ++ version.revision ++ ": " ++ reason
  | .missingVersion path side => "Patch for " ++ path ++ " has no " ++ side.name ++ " revision"
  | .attribution error => error.message

structure Store where
  contents : List (Snapshot × List UInt8) := []
  failures : List (Snapshot × String) := []

namespace Store

def lookup {α : Type} (entries : List (Snapshot × α)) (version : Snapshot) : Option α :=
  (entries.find? (·.1 == version)).map Prod.snd

def put (s : Store) (version : Snapshot) (content : List UInt8) : Store :=
  { s with contents := (version, content) :: s.contents }

def fail (s : Store) (version : Snapshot) (reason : String) : Store :=
  { s with failures := (version, reason) :: s.failures }

def read (s : Store) (version : Snapshot) : Except PatchError (List UInt8) :=
  match lookup s.failures version, lookup s.contents version with
  | some reason, _ => .error (.unreadable version reason)
  | none, some content => .ok content
  | none, none => .error (.unreadable version "no such file")

end Store

structure Patch where
  status : PatchKind
  old : Option Snapshot
  new : Option Snapshot
  hunks : List Hunk := []
  deriving DecidableEq, Repr

def knownPath (old new : Option String) : String := (new.or old).getD ""

structure UnknownStatus where
  letter : Char
  deriving DecidableEq, Repr

def UnknownStatus.message (e : UnknownStatus) : String :=
  "Unsupported file status '" ++ e.letter.toString ++ "'"

def PatchKind.ofLetter (c : Char) : Except UnknownStatus PatchKind :=
  match ofLetter? c with
  | some status => .ok status
  | none => .error ⟨c⟩

namespace Patch

def added (new : Snapshot) : Patch := ⟨.added, none, some new, []⟩

def deleted (old : Snapshot) : Patch := ⟨.deleted, some old, none, []⟩

def modified (old new : Snapshot) (hunks : List Hunk) : Patch :=
  ⟨.modified, some old, some new, hunks⟩

def renamed (old new : Snapshot) (hunks : List Hunk) : Patch :=
  ⟨.renamed, some old, some new, hunks⟩

def path (p : Patch) : String :=
  knownPath (p.old.map Snapshot.path) (p.new.map Snapshot.path)

def ofLetter (letter : Char) (old new : Option Snapshot) (hunks : List Hunk) :
    Option Patch × List Event :=
  match PatchKind.ofLetter letter with
  | .ok status => (some ⟨status, old, new, hunks⟩, [])
  | .error e =>
    let path := knownPath (old.map Snapshot.path) (new.map Snapshot.path)
    (none, [.statusRefused e.message path])

def version (p : Patch) : PatchSide → Except PatchError Snapshot
  | .old => p.old.elim (.error (.missingVersion p.path .old)) .ok
  | .new => p.new.elim (.error (.missingVersion p.path .new)) .ok

end Patch

structure FileChanges where
  oldPath : Option String
  newPath : Option String
  status : PatchKind
  changes : List Change
  deriving DecidableEq, Repr

namespace FileChanges

def path (p : FileChanges) : String := knownPath p.oldPath p.newPath

def ofKind (p : FileChanges) (kind : Change.Kind) : List Change :=
  p.changes.filter (·.kind == kind)

end FileChanges

end EditScope

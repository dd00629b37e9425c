import EditScope.Change
import EditScope.Hunk
import EditScope.Outline.Cursor
import EditScope.Outline.Source

set_option autoImplicit false

namespace EditScope

inductive AttributionError where
  | reversedHunk (range : EditRange)
  | query (error : QueryError)
  deriving DecidableEq, Repr

def AttributionError.message : AttributionError → String
  | .reversedHunk range =>
    "Invalid hunk range: start=" ++ toString range.start ++ ", end=" ++ toString range.stop
  | .query error => "Hunk ordering error: " ++ error.message

namespace Attribution

/-- The names touched come latest first. -/
structure Side (o : Outline) where
  cursor : Cursor o := .new o
  touched : List QualifiedName := []

def Side.touch {o : Outline} (s : Side o) : Option EditRange → Except AttributionError (Side o)
  | none => .ok s
  | some range =>
    match s.cursor.locateRange range.start range.stop with
    | .error e => .error (.query e)
    | .ok (ids, cursor) => .ok ⟨cursor, (ids.map o.nameOf).reverse ++ s.touched⟩

def touchHunk {old new : Outline} (sides : Side old × Side new) (h : Hunk) :
    Except AttributionError (Side old × Side new) :=
  match h.reversed? with
  | some range => .error (.reversedHunk range)
  | none => do
    let before ← sides.1.touch h.deleted
    let after ← sides.2.touch h.added
    return (before, after)

def touchedNames (old new : Outline) (hunks : List Hunk) :
    Except AttributionError (List QualifiedName × List QualifiedName) := do
  let sides : Side old × Side new ← hunks.foldlM touchHunk ({}, {})
  return (ascending sides.1.touched, ascending sides.2.touched)

def added (o : Outline) : List Change := Change.sorted (o.names.map (⟨·, .add⟩))

def deleted (o : Outline) : List Change := Change.sorted (o.names.map (⟨·, .delete⟩))

def modified (old new : Outline) (hunks : List Hunk) : Except AttributionError (List Change) := do
  let (old, new) ← touchedNames old new hunks
  let before := old.map fun name => ⟨name, if new.contains name then .modify else .delete⟩
  let after := (new.filter (!old.contains ·)).map (⟨·, .add⟩)
  return Change.sorted (before ++ after)

structure FileText where
  content : List UInt8
  unitHint : Option String

inductive Comparison where
  | added (new : FileText)
  | deleted (old : FileText)
  | modified (old new : FileText) (hunks : List Hunk)

def outline (settings : OutlineSettings) (t : FileText) : Outline × List Event :=
  Outline.ofSource settings t.unitHint t.content

def changes (settings : OutlineSettings) :
    Comparison → Except AttributionError (List Change) × List Event
  | .added new =>
    let (o, events) := outline settings new
    (.ok (added o), events)
  | .deleted old =>
    let (o, events) := outline settings old
    (.ok (deleted o), events)
  | .modified old new hunks =>
    let (before, beforeEvents) := outline settings old
    let (after, afterEvents) := outline settings new
    (modified before after hunks, beforeEvents ++ afterEvents)

end Attribution

end EditScope

set_option autoImplicit false

namespace EditScope

/-- As a diff reports it: nothing keeps `stop` from lying before `start`. -/
structure EditRange where
  start : Nat
  stop : Nat
  deriving DecidableEq, Repr

namespace EditRange

def length (r : EditRange) : Nat := r.stop - r.start

def isEmpty (r : EditRange) : Bool := r.stop ≤ r.start

def isReversed (r : EditRange) : Bool := r.stop < r.start

end EditRange

inductive DiffSide where
  | context
  | addition
  | deletion
  deriving DecidableEq, Repr

def DiffSide.ofSign? : Char → Option DiffSide
  | ' ' => some .context
  | '+' => some .addition
  | '-' => some .deletion
  | _ => none

structure HunkLine where
  origin : DiffSide
  offset : Nat
  length : Nat
  deriving DecidableEq, Repr

structure Hunk where
  deleted : Option EditRange := none
  added : Option EditRange := none
  deriving DecidableEq, Repr

namespace Hunk

def deletion (old : EditRange) : Hunk := { deleted := some old }

def addition (new : EditRange) : Hunk := { added := some new }

def replacement (old new : EditRange) : Hunk := ⟨some old, some new⟩

def extend (side : Option EditRange) (line : HunkLine) : Option EditRange :=
  some ⟨(side.map EditRange.start).getD line.offset, line.offset + line.length⟩

def addLine (h : Hunk) (line : HunkLine) : Hunk :=
  match line.origin with
  | .addition => { h with added := extend h.added line }
  | .deletion => { h with deleted := extend h.deleted line }
  | .context => h

def covering (lines : List HunkLine) : Hunk := lines.foldl addLine {}

def isEmpty (h : Hunk) : Bool := h.deleted.isNone && h.added.isNone

def reversed? (h : Hunk) : Option EditRange :=
  (h.deleted.filter EditRange.isReversed).or (h.added.filter EditRange.isReversed)

end Hunk

end EditScope

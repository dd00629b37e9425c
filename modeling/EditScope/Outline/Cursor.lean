import EditScope.Outline.Basic

set_option autoImplicit false

namespace EditScope

inductive QueryError where
  | outOfOrder (previous requested : Nat)
  | reversedRange (start stop : Nat)
  deriving DecidableEq, Repr

def QueryError.message : QueryError → String
  | .outOfOrder previous requested =>
    "position " ++ toString requested ++ " queried after position " ++ toString previous
      ++ "; matcher positions must be non-decreasing"
  | .reversedRange start stop =>
    "invalid range: start=" ++ toString start ++ ", end=" ++ toString stop

-- `covered` is the least position that may be asked for.
structure Cursor (o : Outline) where
  current : o.Id
  next : Nat
  covered : Nat

namespace Cursor

variable {o : Outline}

def new (o : Outline) : Cursor o := ⟨o.rootId, 1, 0⟩

def started (o : Outline) (p : Nat → Bool) (i : Nat) : List o.Id :=
  if inside : i < o.nodes.size then
    if p o.nodes[i].span.start then ⟨i, inside⟩ :: started o p (i + 1) else []
  else []
termination_by o.nodes.size - i

def climb (o : Outline) (pos : Nat) (id : o.Id) : o.Id :=
  if pos < (o.node id).span.stop then id
  else
    match found : o.parent? id with
    | some p =>
      have := o.parent?_lt found
      climb o pos p
    | none => id
termination_by id.val

def moveTo (c : Cursor o) (pos : Nat) : Cursor o :=
  let passed := started o (· ≤ pos) c.next
  ⟨climb o pos (passed.getLast?.getD c.current), c.next + passed.length, pos⟩

def locate (c : Cursor o) (pos : Nat) : Except QueryError (o.Id × Cursor o) :=
  if pos < c.covered then .error (.outOfOrder c.covered pos)
  else
    let c := c.moveTo pos
    .ok (c.current, c)

/-- The last byte of the range is the least position for the next query. -/
def locateRange (c : Cursor o) (start stop : Nat) : Except QueryError (List o.Id × Cursor o) :=
  if stop < start then .error (.reversedRange start stop)
  else if start < c.covered then .error (.outOfOrder c.covered start)
  else
    let c := c.moveTo start
    let inner := started o (· < stop) c.next
    let covered := max start (stop - 1)
    .ok (c.current :: inner, ⟨inner.getLast?.getD c.current, c.next + inner.length, covered⟩)

end Cursor

end EditScope

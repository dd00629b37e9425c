import EditScope.Bracket

set_option autoImplicit false

namespace EditScope

inductive Fault where
  | beyond (index : Nat)
  -- What begins at this index is said to end there, or before it.
  | standstill (index : Nat)
  deriving DecidableEq, Repr

abbrev Checked := Except Fault

def entry {α : Type} (table : Array α) (i : Nat) : Checked α :=
  if inside : i < table.size then .ok table[i] else .error (.beyond i)

def overwrite {α : Type} (table : Array α) (i : Nat) (x : α) : Checked (Array α) :=
  if inside : i < table.size then .ok (table.set i x) else .error (.beyond i)

namespace Bracket

/-- For each round or square bracket, `braces` has the innermost brace that was open before it. -/
structure Forward where
  closes : Array (Option Nat)
  braces : Array (Option (Option Nat))
  opened : Waiting := {}
  strays : List Nat := []

namespace Forward

def start (size : Nat) : Forward where
  closes := .replicate size none
  braces := .replicate size none

def lexeme (l : Lexeme) (i : Nat) (s : Forward) : Checked Forward :=
  match l.opened?, l.closed? with
  | some b, _ => do
    let opened := s.opened.set (i :: s.opened.get b) b
    let braces ← if b = .curly then pure s.braces else overwrite s.braces i (some s.opened.curly.head?)
    return { s with braces, opened }
  | none, some b =>
    match s.opened.get b with
    | first :: opened => do
      let closes ← overwrite s.closes first (some i)
      return { s with closes, opened := s.opened.set opened b }
    | [] => return { s with strays := if b = .curly then s.strays ++ [i] else s.strays }
  | none, none => return s

def lexemes (i : Nat) : List Lexeme → Forward → Checked Forward
  | [], s => .ok s
  | l :: rest, s => do lexemes (i + 1) rest (← s.lexeme l i)

def barrier (s : Forward) (i : Nat) : Option (Option Nat) → Checked (Option Nat)
  | none => .ok none
  | some (some brace) => entry s.closes brace
  | some none => .ok (s.strays.find? (i ≤ ·))

end Forward

structure Tables where
  closes : Array (Option Nat)
  barriers : Array (Option Nat)

def tables (lexemes : List Lexeme) : Checked Tables := do
  let s ← Forward.lexemes 0 lexemes (.start lexemes.length)
  let barriers ← s.braces.toList.zipIdx.mapM fun brace => s.barrier brace.2 brace.1
  return ⟨s.closes, barriers.toArray⟩

def Tables.close (t : Tables) (i : Nat) : Checked (Option Nat) :=
  match t.closes[i]?.join with
  | none => .ok none
  | some close => do
    let barrier ← entry t.barriers i
    return if barrier.any (· < close) then none else some close

end Bracket

end EditScope

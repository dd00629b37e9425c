import EditScope.Bracket.Tables
import EditScope.Declaration.Sketch

set_option autoImplicit false

namespace EditScope.Descent

open Sketch

structure Attempt where
  next : Nat
  found : Option Sketch := none
  notes : List Note := []

structure Body where
  close : Nat
  members : List Sketch
  notes : List Note

variable (b : Bracketed)

def previous (i : Nat) : Checked Lexeme :=
  match i with
  | 0 => .error (.beyond 0)
  | i + 1 => entry b.lexemes i

def follows (p : Lexeme → Bool) (i : Nat) : Checked Bool :=
  if i = 0 then return false else return p (← previous b i)

def pass (i : Nat) : Attempt := { next := i + 1 }

def methodEnd (bare throws : Bool) (i : Nat) : Checked (Option Nat) :=
  if inside : i < b.lexemes.size then
    let l := b.lexemes[i]
    if l.opens .curly then do
      if (← previous b i).isOperator "->" then return none
      match b.close? i with
      | none => return none
      | some close => do
        let _ ← entry b.lexemes close
        return some close
    else if l.isSeparator ";" then return if bare then none else some i
    else if l.closes .curly || l.isTypeKeyword then return none
    else if l.isSeparator "," && !throws then return none
    else if l.isOperator "->" && !b.has (·.opens .curly) (i + 1) then return none
    else
      let throws := throws || l.isKeyword "throws"
      if l.opens .round || l.opens .square then
        match found : b.close? i with
        | some close =>
          have := Bracketed.close?_bounds found
          methodEnd bare throws (close + 1)
        | none => return none
      else methodEnd bare throws (i + 1)
  else return none
termination_by b.lexemes.size - i

def isBare (i : Nat) : Checked Bool :=
  if i < 2 then return true
  else follows b (fun l =>
    l.opens .curly || l.closes .curly || l.isSeparator ";" || l.isSeparator ",") (i - 1)

def methodAttempt (i : Nat) : Checked Attempt := do
  if !(← follows b Lexeme.isIdentifier i) then return pass i
  let name ← previous b i
  let bare ← isBare b i
  if ← follows b (·.isSeparator ",") (i - 1) then return pass i
  match b.close? i with
  | none => return pass i
  | some close =>
    match ← methodEnd b bare false (close + 1) with
    | none => return pass i
    | some last => return { next := last + 1, found := some (.mk .method name.text ⟨i - 1, some last⟩ []) }

variable (rules : Rules)

mutual

def typeAttempt (depth i : Nat) : Checked Attempt :=
  match b.lexemes[i + 1]? with
  | none => return pass i
  | some name => do
    if !name.isIdentifier then return pass i
    if ← follows b (·.isSeparator ".") i then return pass i
    match found : bodyBrace? b (i + 2) with
    | none => return pass i
    | some brace =>
      let _ ← entry b.lexemes i
      if rules.limit.any (· ≤ depth) then
        let notes := [.nestedTooDeep i name.text]
        match b.close? brace with
        | none =>
          return { next := b.lexemes.size, found := some (.mk .type name.text ⟨i, none⟩ []), notes }
        | some close =>
          let _ ← entry b.lexemes close
          return { next := close + 1, found := some (.mk .type name.text ⟨i, some close⟩ []), notes }
      else
        have := le_bodyBrace? found
        let body ← members (depth + 1) (brace + 1) (brace + 1)
        let last := if body.close < b.lexemes.size then some body.close else none
        return {
          next := body.close + 1
          found := some (.mk .type name.text ⟨i, last⟩ (rules.overloads.apply body.members))
          notes := body.notes }
termination_by (b.lexemes.size - i, 0)

def memberAttempt (depth i : Nat) (l : Lexeme) : Checked Attempt :=
  if l.isTypeKeyword then typeAttempt depth i
  else if l.isOperator "=" then return { next := initializerEnd b (i + 1) }
  else if l.isSeparator "@" then return { next := annotationEnd b i }
  else if l.opens .round then methodAttempt b i
  else if l.opens .curly then return { next := (b.close? i).getD i + 1 }
  else return pass i
termination_by (b.lexemes.size - i, 1)

def members (depth start i : Nat) : Checked Body :=
  if inside : i < b.lexemes.size then
    let l := b.lexemes[i]
    if l.closes .curly then return ⟨i, [], []⟩
    else do
      let attempt ← memberAttempt depth i l
      if later : i < attempt.next then
        let rest ← members depth start attempt.next
        return ⟨rest.close, attempt.found.toList ++ rest.members, attempt.notes ++ rest.notes⟩
      else throw (.standstill i)
  else return ⟨b.lexemes.size, [], [.unclosed start]⟩
termination_by (b.lexemes.size - i, 2)

end

def isStray (i : Nat) (l : Lexeme) : Checked Bool :=
  if l.opens .round then follows b Lexeme.isIdentifier i else return false

def fileFrom (package : Option String) (i : Nat) : Checked SketchedFile :=
  if inside : i < b.lexemes.size then do
    let l := b.lexemes[i]
    if l.isKeyword "package" && package.isNone then
      match nameAt? b (i + 1) with
      | none => fileFrom none (i + 1)
      | some (name, next) =>
        if later : i < next then fileFrom (some name) next else throw (.standstill i)
    else if l.isTypeKeyword then
      let attempt ← typeAttempt b rules 0 i
      if later : i < attempt.next then
        let rest ← fileFrom package attempt.next
        return { rest with
          types := attempt.found.toList ++ rest.types
          notes := attempt.notes ++ rest.notes }
      else throw (.standstill i)
    else
      let stray ← isStray b i l
      let rest ← fileFrom package (i + 1)
      return if stray then { rest with notes := .strayMethod (i - 1) :: rest.notes } else rest
  else return ⟨package, [], []⟩
termination_by b.lexemes.size - i

end EditScope.Descent

import EditScope.Proofs.Bracket.Tables

set_option autoImplicit false

namespace EditScope

namespace Lexeme

variable {l : Lexeme} {b c : Bracket}

theorem opens_eq (opens : l.opens c) (b : Bracket) : l.opens b = decide (b = c) := by
  by_cases same : b = c
  · simp [same, opens]
  · have other : l.opens b ≠ true := fun opens' => same (opens_unique opens' opens)
    simp [same, other]

theorem closes_eq (closes : l.closes c) (b : Bracket) : l.closes b = decide (b = c) := by
  by_cases same : b = c
  · simp [same, closes]
  · have other : l.closes b ≠ true := fun closes' => same (closes_unique closes' closes)
    simp [same, other]

end Lexeme

namespace Bracket

/-- A brace that closes none of those opened since ends the group, if it is not looked for. -/
def scan (b : Bracket) (depth braces i : Nat) : List Lexeme → Option Nat
  | [] => none
  | l :: rest =>
    if l.opens b then scan b (depth + 1) braces (i + 1) rest
    else if l.closes b then
      if depth = 0 then some i else scan b (depth - 1) braces (i + 1) rest
    else if l.opens .curly then scan b depth (braces + 1) (i + 1) rest
    else if l.closes .curly then
      if braces = 0 then none else scan b depth (braces - 1) (i + 1) rest
    else scan b depth braces (i + 1) rest

def scanClose? (lexemes : List Lexeme) (i : Nat) : Option Nat :=
  (lexemes[i]?.bind Lexeme.opened?).bind fun b => scan b 0 0 (i + 1) (lexemes.drop (i + 1))

def Waiting.nth? (w : Waiting) (b : Bracket) (depth braces : Nat) : Option Nat :=
  (w.get b)[depth]?.filter fun close => w.curly[braces]?.all (close ≤ ·)

theorem Waiting.close?_eq_nth? (w : Waiting) (b : Bracket) : w.close? b = w.nth? b 0 0 := by
  unfold Waiting.close? Waiting.nth?
  rw [List.head?_eq_getElem?, List.head?_eq_getElem?]
  cases (w.get b)[0]? with
  | none => rfl
  | some close =>
    cases w.curly[0]? with
    | none => rfl
    | some brace => by_cases less : brace < close <;> simp [Option.filter_some, less]

/-- Where braces are looked for, the two counts are one. -/
def innerBraces (b : Bracket) (depth braces : Nat) : Nat := if b = .curly then depth else braces

section Steps

variable {w : Waiting} {b c : Bracket} {depth braces i : Nat}

theorem Waiting.nth?_opens (w : Waiting) (b c : Bracket) (depth braces : Nat) :
    (w.set (w.get c).tail c).nth? b depth (innerBraces b depth braces) =
      if b = c then w.nth? b (depth + 1) (innerBraces b (depth + 1) braces)
      else if c = .curly then w.nth? b depth (innerBraces b depth (braces + 1))
      else w.nth? b depth (innerBraces b depth braces) := by
  unfold Waiting.nth? innerBraces
  cases b <;> cases c <;> simp [Waiting.get, Waiting.set]

theorem Waiting.nth?_closes (within : ∀ b, ∀ j ∈ w.get b, i < j) :
    (w.set (i :: w.get c) c).nth? b depth (innerBraces b depth braces) =
      if b = c then
        if depth = 0 then some i else w.nth? b (depth - 1) (innerBraces b (depth - 1) braces)
      else if c = .curly then
        if braces = 0 then none else w.nth? b depth (innerBraces b depth (braces - 1))
      else w.nth? b depth (innerBraces b depth braces) := by
  -- The new close stands before all that wait, so it is the nearest close, and the nearest brace.
  have nearest : (w.curly[braces]?).all (i ≤ ·) = true := by
    rw [Option.all_eq_true]
    intro brace there
    exact decide_eq_true (Nat.le_of_lt (within .curly brace (List.mem_of_getElem? there)))
  have hidden : (w.get b)[depth]?.filter (· ≤ i) = none := by
    rw [Option.filter_eq_none_iff]
    intro close there
    simpa using within b close (List.mem_of_getElem? there)
  unfold Waiting.nth? innerBraces
  rcases depth with _ | depth <;> rcases braces with _ | braces <;> cases b <;> cases c <;>
    simp_all [Waiting.get, Waiting.set, Option.filter_some]

end Steps

theorem scan_eq_nth? (b : Bracket) (depth braces first : Nat) (lexemes : List Lexeme) :
    scan b depth braces first lexemes =
      (passFrom first lexemes).waiting.nth? b depth (innerBraces b depth braces) := by
  induction lexemes generalizing depth braces first with
  | nil => cases b <;> simp [scan, passFrom, Waiting.nth?, Waiting.get]
  | cons l lexemes ih =>
    rw [passFrom_cons, scan]
    obtain ⟨c, opens⟩ | ⟨c, closes⟩ | ⟨opened, closed⟩ := Lexeme.bracket_cases l
    · rw [Pass.lexeme_opens opens, Waiting.nth?_opens]
      simp only [← ih]
      simp [Lexeme.opens_eq opens, Lexeme.not_closes_of_opens opens, eq_comm]
    · have within : ∀ b, ∀ j ∈ (passFrom (first + 1) lexemes).waiting.get b, first < j :=
        fun b j mem => (passFrom_within (first + 1) lexemes b j mem).1
      rw [Pass.lexeme_closes closes, Waiting.nth?_closes within]
      simp only [← ih]
      simp [Lexeme.closes_eq closes, Lexeme.not_opens_of_closes closes, eq_comm]
    · rw [Pass.lexeme_plain opened closed, ← ih]
      simp [Lexeme.opened?_eq_none.1 opened, Lexeme.closed?_eq_none.1 closed]

end Bracket

namespace Bracketed

open EditScope.Bracket

theorem scanClose?_eq (lexemes : List Lexeme) (i : Nat) :
    scanClose? lexemes i = (ofLexemes lexemes).close? i := by
  rw [close?_eq_join, scanClose?]
  cases here : lexemes[i]? with
  | none =>
    have outside : (passFrom 0 lexemes).found[i]? = none := by
      simpa [passFrom_length] using here
    simp [outside]
  | some l =>
    rw [found_at here]
    obtain ⟨b, opens⟩ | ⟨b, closes⟩ | ⟨opened, closed⟩ := Lexeme.bracket_cases l
    · have found := scan_eq_nth? b 0 0 (i + 1) (lexemes.drop (i + 1))
      rw [Pass.lexeme_opens opens, Option.bind_some, Lexeme.opened?_eq_some.2 opens]
      simp [found, Waiting.close?_eq_nth?, innerBraces]
    · simp [Pass.lexeme_closes closes, Lexeme.opened?_of_closes closes]
    · simp [Pass.lexeme_plain opened closed, opened]

theorem close?_eq_scan (lexemes : List Lexeme) :
    (∀ i, (ofLexemes lexemes).close? i = scanClose? lexemes i) ∧
      ∃ t, tables lexemes = .ok t ∧ ∀ i, t.close i = .ok (scanClose? lexemes i) := by
  obtain ⟨t, run, close⟩ := tables_close lexemes
  refine ⟨fun i => (scanClose?_eq lexemes i).symm, t, run, fun i => ?_⟩
  rw [close, scanClose?_eq]

-- The round bracket has a close of its own family, but past the brace that ends the body around it.
example :
    let lexemes := ["\x7b", "(", "\x7d", ")"].map (⟨.separator, ·⟩)
    scanClose? lexemes 0 = some 2 ∧ scanClose? lexemes 1 = none := by
  decide

end Bracketed

end EditScope

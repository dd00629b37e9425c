import EditScope.Proofs.Bracket.Pairs

set_option autoImplicit false

namespace EditScope

structure Splice where
  start : Nat
  removed : Nat
  inserted : Nat

namespace Splice

abbrev replacing {α : Type} (before old new : List α) : Splice :=
  ⟨before.length, old.length, new.length⟩

def Outside (s : Splice) (i : Nat) : Prop := i < s.start ∨ s.start + s.removed ≤ i

def move (s : Splice) (i : Nat) : Nat :=
  if i < s.start then i else i + s.inserted - s.removed

variable {s : Splice} {i j : Nat}

theorem move_lt_move (outside : s.Outside i) (outside' : s.Outside j) :
    s.move i < s.move j ↔ i < j := by
  unfold Outside at outside outside'
  unfold move
  split <;> split <;> omega

theorem move_of_lt (before : i < s.start) : s.move i = i := if_pos before

theorem move_of_le (after : s.start + s.removed ≤ i) : s.move i = i + s.inserted - s.removed :=
  if_neg (by omega)

theorem move_add (after : s.start + s.removed ≤ i) (n : Nat) : s.move (i + n) = s.move i + n := by
  rw [move_of_le after, move_of_le (by omega)]
  omega

theorem getElem?_move {α : Type} (before old new after : List α)
    (outside : (replacing before old new).Outside i) :
    (before ++ new ++ after)[(replacing before old new).move i]? =
      (before ++ old ++ after)[i]? := by
  rcases outside with earlier | later
  · rw [move_of_lt earlier]
    simp only at earlier
    simp [List.append_assoc, List.getElem?_append_left earlier]
  · rw [move_of_le later]
    simp only at later ⊢
    rw [List.getElem?_append_right (by simp; omega), List.getElem?_append_right (by simp; omega)]
    congr 1
    simp
    omega

end Splice

namespace Bracket

inductive Nested : List Lexeme → Prop where
  | nil : Nested []
  | plain {l : Lexeme} {rest : List Lexeme} (opened : l.opened? = none) (closed : l.closed? = none) :
      Nested rest → Nested (l :: rest)
  | group {b : Bracket} {l l' : Lexeme} {inner rest : List Lexeme} (opens : l.opens b)
      (closes : l'.closes b) : Nested inner → Nested rest → Nested (l :: (inner ++ l' :: rest))

def passOnto (first : Nat) (lexemes : List Lexeme) (after : Pass) : Pass :=
  (lexemes.zipIdx first).foldr (fun (l, i) pass => pass.lexeme l i) after

theorem passOnto_cons (first : Nat) (l : Lexeme) (lexemes : List Lexeme) (after : Pass) :
    passOnto first (l :: lexemes) after = (passOnto (first + 1) lexemes after).lexeme l first := by
  simp [passOnto, List.zipIdx_cons]

theorem passOnto_append (first : Nat) (lexemes more : List Lexeme) (after : Pass) :
    passOnto first (lexemes ++ more) after =
      passOnto first lexemes (passOnto (first + lexemes.length) more after) := by
  simp [passOnto, List.zipIdx_append]

theorem Pass.found_lexeme (l : Lexeme) (i : Nat) (pass : Pass) :
    ∃ close, (pass.lexeme l i).found = close :: pass.found := by
  unfold Pass.lexeme
  split <;> exact ⟨_, rfl⟩

theorem getElem?_passOnto (first : Nat) (lexemes : List Lexeme) (after : Pass) (i : Nat) :
    (passOnto first lexemes after).found[lexemes.length + i]? = after.found[i]? := by
  induction lexemes generalizing first with
  | nil => simp [passOnto]
  | cons l lexemes ih =>
    obtain ⟨close, found⟩ := (passOnto (first + 1) lexemes after).found_lexeme l first
    rw [passOnto_cons, found, List.length_cons, Nat.add_right_comm, List.getElem?_cons_succ]
    exact ih (first + 1)

theorem Waiting.set_set (w : Waiting) (indices indices' : List Nat) (b : Bracket) :
    (w.set indices b).set indices' b = w.set indices' b := by
  cases b <;> rfl

theorem Waiting.set_get (w : Waiting) (b : Bracket) : w.set (w.get b) b = w := by
  cases b <;> rfl

theorem waiting_nested {lexemes : List Lexeme} (nested : Nested lexemes) (first : Nat)
    (after : Pass) : (passOnto first lexemes after).waiting = after.waiting := by
  induction nested generalizing first after with
  | nil => rfl
  | plain opened closed _ ih =>
    rw [passOnto_cons, Pass.lexeme_plain opened closed]
    exact ih (first + 1) after
  | @group b l l' inner rest opens closes _ _ ihInner ihRest =>
    -- From the right: the close is put on the waiting ones, stays there, and is taken off again.
    rw [passOnto_cons, Pass.lexeme_opens opens, passOnto_append, ihInner, passOnto_cons,
      Pass.lexeme_closes closes, ihRest]
    simp only [Waiting.get_set, if_true, List.tail_cons]
    rw [Waiting.set_set, Waiting.set_get]

section Moved

variable (s : Splice)

structure Moved (w w' : Waiting) : Prop where
  outside (b : Bracket) : ∀ i ∈ w.get b, s.Outside i
  moved (b : Bracket) : w'.get b = (w.get b).map s.move

variable {s} {w w' : Waiting} {pass pass' : Pass} {i : Nat}

theorem Moved.set (moved : Moved s w w') {indices : List Nat}
    (outside : ∀ i ∈ indices, s.Outside i) (b : Bracket) :
    Moved s (w.set indices b) (w'.set (indices.map s.move) b) where
  outside c := by
    rw [Waiting.get_set]
    split
    · exact outside
    · exact moved.outside c
  moved c := by
    rw [Waiting.get_set, Waiting.get_set]
    split
    · rfl
    · exact moved.moved c

theorem Moved.close? (moved : Moved s w w') (b : Bracket) :
    w'.close? b = (w.close? b).map s.move := by
  have family := moved.moved b
  have braces : w'.curly = w.curly.map s.move := moved.moved .curly
  unfold Waiting.close?
  rw [family, braces, List.head?_map, List.head?_map]
  cases first : (w.get b).head? with
  | none => rfl
  | some close =>
    cases brace : w.curly.head? with
    | none => rfl
    | some brace' =>
      have outside := moved.outside b close (List.mem_of_head? first)
      have outside' := moved.outside .curly brace' (List.mem_of_head? brace)
      simp only [Option.map_some, Splice.move_lt_move outside' outside]
      split <;> rfl

theorem moved_lexeme (moved : Moved s pass.waiting pass'.waiting) (outside : s.Outside i)
    (l : Lexeme) :
    Moved s (pass.lexeme l i).waiting (pass'.lexeme l (s.move i)).waiting ∧
      ∃ close : Option Nat, (pass.lexeme l i).found = close :: pass.found ∧
        (pass'.lexeme l (s.move i)).found = close.map s.move :: pass'.found ∧
        ∀ q ∈ close, s.Outside q := by
  obtain ⟨b, opens⟩ | ⟨b, closes⟩ | ⟨opened, closed⟩ := Lexeme.bracket_cases l
  · rw [Pass.lexeme_opens opens, Pass.lexeme_opens opens]
    refine ⟨?_, pass.waiting.close? b, rfl, ?_, ?_⟩
    · rw [moved.moved b, ← List.map_tail]
      exact moved.set (fun j mem => moved.outside b j (List.mem_of_mem_tail mem)) b
    · rw [moved.close?]
    · exact fun q found => moved.outside b q (Waiting.close?_mem found)
  · rw [Pass.lexeme_closes closes, Pass.lexeme_closes closes]
    refine ⟨?_, none, rfl, rfl, by simp⟩
    rw [moved.moved b, ← List.map_cons]
    exact moved.set (List.forall_mem_cons.2 ⟨outside, moved.outside b⟩) b
  · rw [Pass.lexeme_plain opened closed, Pass.lexeme_plain opened closed]
    exact ⟨moved, none, rfl, rfl, by simp⟩

theorem moved_passOnto (moved : Moved s pass.waiting pass'.waiting) (first first' : Nat)
    (lexemes : List Lexeme) (outside : ∀ j < lexemes.length, s.Outside (first + j))
    (there : ∀ j < lexemes.length, s.move (first + j) = first' + j) :
    Moved s (passOnto first lexemes pass).waiting (passOnto first' lexemes pass').waiting ∧
      ∀ j < lexemes.length, ∃ close : Option Nat,
        (passOnto first lexemes pass).found[j]? = some close ∧
        (passOnto first' lexemes pass').found[j]? = some (close.map s.move) ∧
        ∀ q ∈ close, s.Outside q := by
  induction lexemes generalizing first first' with
  | nil => exact ⟨moved, by simp⟩
  | cons l lexemes ih =>
    have rest := ih (first + 1) (first' + 1)
      (fun j less => by
        rw [Nat.add_right_comm]
        exact outside (j + 1) (Nat.succ_lt_succ less))
      (fun j less => by
        rw [Nat.add_right_comm, Nat.add_right_comm first']
        exact there (j + 1) (Nat.succ_lt_succ less))
    have here : s.move first = first' := there 0 (by simp)
    obtain ⟨waiting, close, found, found', outside'⟩ :=
      moved_lexeme rest.1 (outside 0 (by simp)) l
    simp only [Nat.add_zero, here] at waiting found found'
    rw [passOnto_cons, passOnto_cons]
    refine ⟨waiting, fun j less => ?_⟩
    cases j with
    | zero => exact ⟨close, by simp [found], by simp [found'], outside'⟩
    | succ j =>
      simp only [found, found', List.getElem?_cons_succ]
      exact rest.2 j (by simpa using less)

end Moved

theorem passFrom_eq_passOnto (first : Nat) (lexemes : List Lexeme) :
    passFrom first lexemes = passOnto first lexemes {} := rfl

end Bracket

namespace Bracketed

open EditScope.Bracket

variable {before old new after : List Lexeme}

theorem lexemes_splice {i : Nat} (outside : (Splice.replacing before old new).Outside i) :
    (ofLexemes (before ++ new ++ after)).lexemes[(Splice.replacing before old new).move i]? =
      (ofLexemes (before ++ old ++ after)).lexemes[i]? := by
  simpa [ofLexemes] using Splice.getElem?_move before old new after outside

theorem close?_eq_join (lexemes : List Lexeme) (i : Nat) :
    (ofLexemes lexemes).close? i = ((passFrom 0 lexemes).found[i]?).join := by
  simp [close?, ofLexemes, Bracket.closes]

theorem close?_splice (nestedOld : Nested old) (nestedNew : Nested new) {i : Nat}
    (outside : (Splice.replacing before old new).Outside i) :
    (ofLexemes (before ++ new ++ after)).close?
        ((Splice.replacing before old new).move i) =
      ((ofLexemes (before ++ old ++ after)).close? i).map
        ((Splice.replacing before old new).move) ∧
    ∀ q, (ofLexemes (before ++ old ++ after)).close? i = some q →
      (Splice.replacing before old new).Outside q := by
  generalize splice : Splice.replacing before old new = s at outside ⊢
  have pass (middle : List Lexeme) : passFrom 0 (before ++ middle ++ after) =
      passOnto 0 before (passOnto before.length middle
        (passOnto (before.length + middle.length) after {})) := by
    rw [passFrom_eq_passOnto, passOnto_append, passOnto_append, List.length_append]
    simp
  have start : Moved s ({} : Pass).waiting ({} : Pass).waiting :=
    ⟨fun b => by cases b <;> simp [Waiting.get], fun b => by cases b <;> rfl⟩
  obtain ⟨waiting, behind⟩ := moved_passOnto start (before.length + old.length)
    (before.length + new.length) after (fun j _ => .inr (by simp [← splice]))
    (fun j _ => by rw [Splice.move_of_le (by simp [← splice])]; simp [← splice]; omega)
  -- A nested stretch takes off what it puts on: the same closes wait before it as after it.
  have waiting' : Moved s
      (passOnto before.length old (passOnto (before.length + old.length) after {})).waiting
      (passOnto before.length new (passOnto (before.length + new.length) after {})).waiting := by
    rw [waiting_nested nestedOld, waiting_nested nestedNew]
    exact waiting
  obtain ⟨_, ahead⟩ := moved_passOnto waiting' 0 0 before
    (fun j less => .inl (by simpa [← splice] using less))
    (fun j less => Splice.move_of_lt (by simpa [← splice] using less))
  rw [close?_eq_join, close?_eq_join, pass, pass]
  rcases outside with earlier | later
  · obtain ⟨close, found, found', outside'⟩ := ahead i (by simpa [← splice] using earlier)
    rw [Splice.move_of_lt earlier, found, found']
    exact ⟨rfl, outside'⟩
  · obtain ⟨j, rfl⟩ := Nat.exists_eq_add_of_le later
    rw [Splice.move_of_le later, ← splice]
    simp only [Nat.add_assoc, getElem?_passOnto]
    have there : before.length + (old.length + (j + new.length)) - old.length =
        before.length + (new.length + j) := by omega
    rw [there, getElem?_passOnto, getElem?_passOnto]
    by_cases inside : j < after.length
    · obtain ⟨close, found, found', outside'⟩ := behind j inside
      rw [found, found', splice]
      exact ⟨rfl, outside'⟩
    · obtain ⟨n, rfl⟩ := Nat.exists_eq_add_of_le (Nat.not_lt.1 inside)
      rw [getElem?_passOnto, getElem?_passOnto]
      simp

end Bracketed

end EditScope

import EditScope.Proofs.Bracket.Splice
import EditScope.Proofs.Sketch.Lockstep
import EditScope.Proofs.Sketch.Origin

set_option autoImplicit false

namespace EditScope

namespace Sketch

variable {before old new after : List Lexeme}

structure InBody (before old after : List Lexeme) (i brace close : Nat) : Prop where
  header : i < brace
  opens : brace < before.length
  closes : before.length + old.length ≤ close
  pair : (Bracketed.ofLexemes (before ++ old ++ after)).close? brace = some close
  -- No group that opens before the body closes in the part of it before the stretch.
  uncrossed {p q : Nat} : p < brace →
    (Bracketed.ofLexemes (before ++ old ++ after)).close? p = some q → q < brace ∨ before.length ≤ q

namespace InBody

variable {i brace close j n : Nat} (body : InBody before old after i brace close)

include body

theorem outside (safe : j ≤ brace ∨ before.length + old.length ≤ j) :
    (Splice.replacing before old new).Outside j := by
  have opens := body.opens
  simp only [Splice.Outside]
  omega

theorem move_succ (safe : j < brace ∨ before.length + old.length ≤ j) :
    (Splice.replacing before old new).move (j + 1) = (Splice.replacing before old new).move j + 1 := by
  have opens := body.opens
  rcases safe with early | late
  · rw [Splice.move_of_lt (by simp only; omega), Splice.move_of_lt (by simp only; omega)]
  · exact Splice.move_add late 1

theorem jump (nested : Bracket.Nested old)
    (safe : j ≤ brace ∨ before.length + old.length ≤ j) {q : Nat}
    (found : (Bracketed.ofLexemes (before ++ old ++ after)).close? j = some q) :
    q < brace ∨ before.length + old.length ≤ q := by
  have order := (Bracketed.close?_bounds found).1
  rcases safe with early | late
  · rcases Nat.eq_or_lt_of_le early with rfl | less
    · cases Option.some.inj (body.pair.symm.trans found)
      exact .inr body.closes
    · -- No close of an outer bracket lies in the stretch itself, since that is nested.
      have away := (Bracketed.close?_splice nested nested (body.outside (.inl early))).2 q found
      rcases body.uncrossed less found with earlier | later
      · exact .inl earlier
      · exact .inr (away.resolve_left (Nat.not_lt.2 later))
  · exact .inr (by omega)

theorem aligned (nested : Bracket.Nested old) (nested' : Bracket.Nested new) :
    Aligned (.ofLexemes (before ++ old ++ after)) (.ofLexemes (before ++ new ++ after))
      (Splice.replacing before old new).move
      (fun j => j ≤ brace ∨ before.length + old.length ≤ j) := by
  constructor
  case sound => exact Bracketed.ofLexemes_sound _
  case size =>
    rw [Splice.move_of_le (by simp [Bracketed.ofLexemes])]
    simp [Bracketed.ofLexemes]
    omega
  case lexeme =>
    intro j safe
    exact Bracketed.lexemes_splice (body.outside safe)
  case close =>
    intro j safe
    exact (Bracketed.close?_splice nested nested' (body.outside safe)).1
  case next =>
    -- The opening brace of the body has a close, so a scan never steps into the body.
    intro j safe open'
    have apart : j ≠ brace := by
      rintro rfl
      cases body.pair.symm.trans open'
    exact ⟨by omega, body.move_succ (by omega)⟩
  case jump =>
    intro j q safe found
    have target := body.jump nested safe found
    exact ⟨by omega, body.move_succ target⟩

variable (new) in
theorem le_move_iff (behind : j ≤ i ∨ close + n ≤ j) :
    n ≤ (Splice.replacing before old new).move j ↔ n ≤ j := by
  obtain ⟨header, opens, closes, _, _⟩ := body
  unfold Splice.move
  split
  · rfl
  · simp only at *
    omega

variable (new) in
theorem lexemes_back (behind : j ≤ i ∨ close + n ≤ j) :
    (Bracketed.ofLexemes (before ++ new ++ after)).lexemes[
        (Splice.replacing before old new).move j - n]? =
      (Bracketed.ofLexemes (before ++ old ++ after)).lexemes[j - n]? := by
  obtain ⟨header, opens, closes, _, _⟩ := body
  have outside : j - n < before.length ∨ before.length + old.length ≤ j - n := by omega
  have there : (Splice.replacing before old new).move j - n =
      (Splice.replacing before old new).move (j - n) := by
    unfold Splice.move
    split <;> split <;> simp only at * <;> omega
  rw [there]
  exact Bracketed.lexemes_splice outside

-- The close of the body is no name, so a look back by two lexemes does not reach into the body.
theorem away_of_name {l : Lexeme} (place : j ≤ i ∨ close + 1 ≤ j)
    (name : nameBefore? (.ofLexemes (before ++ old ++ after)) j = some l) :
    j ≤ i ∨ close + 2 ≤ j := by
  have apart : j ≠ close + 1 := by
    rintro rfl
    obtain ⟨_, _, closes⟩ := (Bracketed.ofLexemes_sound _).pair body.pair
    have some := isSome_nameBefore? (.ofLexemes (before ++ old ++ after)) (close + 1)
    rw [Nat.add_sub_cancel, Bracketed.not_identifier closes, Bool.and_false, name] at some
    cases some
  omega

theorem stands (place : j ≤ i ∨ close + 1 ≤ j) :
    Stands (.ofLexemes (before ++ old ++ after)) (.ofLexemes (before ++ new ++ after))
      (Splice.replacing before old new).move
      (fun j => j ≤ brace ∨ before.length + old.length ≤ j) j := by
  have header := body.header
  have closes := body.closes
  have positive := body.le_move_iff new place
  have same := body.lexemes_back new place
  constructor
  case here => omega
  case follows =>
    rintro m safe rfl
    exact body.move_succ (by omega)
  case point =>
    simp only [Bracketed.has, same, Nat.succ_le_iff] at positive ⊢
    simp only [positive]
  case name =>
    simp only [nameBefore?, same, Nat.succ_le_iff] at positive ⊢
    simp only [positive]
  case before =>
    intro l name
    have away := body.away_of_name place name
    omega
  case comma =>
    intro l name
    have away := body.away_of_name place name
    have positive' := body.le_move_iff new away
    simp only [Bracketed.has, body.lexemes_back new away, Nat.succ_le_iff] at positive' ⊢
    simp only [positive']
  case bare =>
    intro l name
    have away := body.away_of_name place name
    have positive' := body.le_move_iff new away
    have one : (Splice.replacing before old new).move j = 1 ↔ j = 1 := by omega
    simp only [separates, Bracketed.has, body.lexemes_back new away, Bool.beq_eq_decide_eq, one]

end InBody

end Sketch

open Sketch in
theorem SketchedFile.splice {before old new after : List Lexeme} {rules : Rules}
    (nested : Bracket.Nested old) (nested' : Bracket.Nested new) {i brace : Nat} {v : Walk}
    {header : MethodHeader}
    (method : FoundMethod (.ofLexemes (before ++ old ++ after)) rules i v header)
    (body : InBody before old after i brace header.last) :
    (SketchedFile.ofLexemes rules (before ++ new ++ after)).package =
        (SketchedFile.ofLexemes rules (before ++ old ++ after)).package ∧
      (SketchedFile.ofLexemes rules (before ++ new ++ after)).types =
        Declaration.mapPlaces (Extent.reindex (Splice.replacing before old new).move)
          (SketchedFile.ofLexemes rules (before ++ old ++ after)).types := by
  have walked := (body.aligned nested nested').walk rules {}
    (fun leads => body.stands (method.gap leads))
  have zero : (Splice.replacing before old new).move 0 = 0 :=
    Splice.move_of_lt (Nat.zero_lt_of_lt body.opens)
  have start (image : Nat → Nat) : Walk.reindex image {} = {} := rfl
  rw [zero, start] at walked
  simp only [SketchedFile.ofLexemes, walked, Declaration.mapPlaces_eq_map, List.map_reverse]
  exact ⟨rfl, rfl⟩

end EditScope

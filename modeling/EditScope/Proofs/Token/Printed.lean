import EditScope.Proofs.Lexeme.Formed
import EditScope.Proofs.Token.Splice

set_option autoImplicit false

namespace EditScope

namespace Lexeme

def print (lexemes : List Lexeme) : List UInt8 :=
  [Piece.byte ' '].intercalate (lexemes.map (Utf8.encode ·.text))

def width (l : Lexeme) : Nat := (Utf8.encode l.text).length

def reach : List Lexeme → Nat
  | [] => 0
  | l :: lexemes => l.width + 1 + reach lexemes

theorem reach_append (lexemes more : List Lexeme) : reach (lexemes ++ more) = reach lexemes + reach more := by
  induction lexemes with
  | nil => simp [reach]
  | cons l lexemes ih => rw [List.cons_append, reach, reach, ih, ← Nat.add_assoc]

def behind (lexemes : List Lexeme) : List UInt8 :=
  if lexemes.isEmpty then [] else Piece.byte ' ' :: print lexemes

theorem print_cons (l : Lexeme) (lexemes : List Lexeme) :
    print (l :: lexemes) = Utf8.encode l.text ++ behind lexemes := by
  cases lexemes <;> simp [print, behind]

theorem length_print (lexemes : List Lexeme) : (print lexemes).length = reach lexemes - 1 := by
  induction lexemes with
  | nil => rfl
  | cons l lexemes ih =>
    rw [print_cons, List.length_append, reach]
    cases lexemes with
    | nil => simp [behind, reach, width]
    | cons m lexemes =>
      rw [behind, if_neg (by simp), List.length_cons, ih, width, reach]
      omega

theorem gap_behind (lexemes : List Lexeme) : Piece.Gap (behind lexemes) := by
  cases lexemes <;> simp [Piece.Gap, behind]

end Lexeme

namespace Piece

theorem pieces_reads {bytes rest : List UInt8} {l : Lexeme} {kind : Class}
    (reads : Reads bytes l kind) (gap : Gap rest) :
    pieces (bytes ++ rest) = ⟨kind, bytes⟩ :: pieces rest := by
  obtain ⟨b, tail, rfl, _, front⟩ := reads.front
  rw [List.cons_append, pieces_cons, front rest gap, List.take_left, List.drop_left]

theorem pieces_blank {bytes rest : List UInt8} {l : Lexeme} {kind : Class}
    (reads : Reads bytes l kind) :
    pieces (byte ' ' :: (bytes ++ rest)) = ⟨.blank, [byte ' ']⟩ :: pieces (bytes ++ rest) := by
  obtain ⟨b, tail, rfl, other, _⟩ := reads.front
  have front : front (byte ' ') (b :: tail ++ rest) = (.blank, 0) := by
    have blank : isBlank (byte ' ') = true := by decide
    rw [front, if_neg (by decide), if_pos blank]
    simp [other]
  rw [pieces_cons, front]
  simp

end Piece

namespace Token

open Lexeme

def spaced (offset : Nat) : List Lexeme → List Token
  | [] => []
  | l :: lexemes => ⟨l, offset, l.width⟩ :: spaced (offset + l.width + 1) lexemes

theorem placed_print {lexemes : List Lexeme} (spelled : ∀ l ∈ lexemes, l.isSpelled) (offset : Nat) :
    placed offset (Piece.pieces (print lexemes)) = spaced offset lexemes := by
  induction lexemes generalizing offset with
  | nil => simp [print, Piece.pieces_nil, placed, spaced]
  | cons l lexemes ih =>
    obtain ⟨here, later⟩ := List.forall_mem_cons.1 spelled
    obtain ⟨kind, reads⟩ := exists_reads here
    have next : placed (offset + l.width) (Piece.pieces (behind lexemes)) =
        spaced (offset + l.width + 1) lexemes := by
      cases lexemes with
      | nil => simp [behind, Piece.pieces_nil, placed, spaced]
      | cons m lexemes =>
        obtain ⟨kind', reads'⟩ := exists_reads (later m (List.mem_cons_self ..))
        rw [← ih later, behind, if_neg (by simp), print_cons, Piece.pieces_blank reads', placed]
        rfl
    rw [print_cons, Piece.pieces_reads reads (gap_behind lexemes), placed, reads.lexeme]
    exact congrArg (List.cons _) next

theorem ofSource_print {lexemes : List Lexeme} (spelled : ∀ l ∈ lexemes, l.isSpelled) :
    (ofSource (print lexemes)).toList = spaced 0 lexemes := by
  rw [toList_ofSource, placed_print spelled]

theorem getElem?_spaced (offset : Nat) (before after : List Lexeme) (l : Lexeme) :
    (spaced offset (before ++ l :: after))[before.length]? =
      some ⟨l, offset + reach before, l.width⟩ := by
  induction before generalizing offset with
  | nil => simp [spaced, reach]
  | cons m before ih =>
    rw [List.cons_append, spaced, List.length_cons, List.getElem?_cons_succ, ih]
    simp [reach, Nat.add_assoc]

theorem lexeme_spaced (offset : Nat) (lexemes : List Lexeme) :
    (spaced offset lexemes).map lexeme = lexemes := by
  induction lexemes generalizing offset with
  | nil => rfl
  | cons l lexemes ih => rw [spaced, List.map_cons, ih]

theorem lexemes_print {lexemes : List Lexeme} (spelled : ∀ l ∈ lexemes, l.isSpelled) :
    Token.lexemes (print lexemes) = lexemes := by
  rw [Token.lexemes, ofSource_print spelled, lexeme_spaced]

theorem lexeme_placed (offset : Nat) (pieces : List Piece) :
    (placed offset pieces).map lexeme = pieces.filterMap Piece.lexeme? := by
  induction pieces generalizing offset with
  | nil => rfl
  | cons p pieces ih =>
    rw [placed, List.map_append, ih, List.filterMap_cons]
    cases p.lexeme? <;> rfl

theorem exists_lexemes_iff {lexemes : List Lexeme} :
    (∃ source, Token.lexemes source = lexemes) ↔ ∀ l ∈ lexemes, l.isSpelled := by
  refine ⟨?_, fun spelled => ⟨print lexemes, lexemes_print spelled⟩⟩
  rintro ⟨source, rfl⟩ l mem
  rw [Token.lexemes, toList_ofSource, lexeme_placed] at mem
  obtain ⟨p, piece, found⟩ := List.mem_filterMap.1 mem
  exact isSpelled_of_formed (Piece.formed_of_mem piece) found

end Token

end EditScope

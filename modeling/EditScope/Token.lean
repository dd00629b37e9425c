import EditScope.Lexeme.Basic
import EditScope.Lexeme.Piece
import EditScope.Text.Utf8

set_option autoImplicit false

namespace EditScope

def Piece.lexeme? (p : Piece) : Option Lexeme :=
  match p.kind with
  | .word => some (.ofWord (Utf8.decode p.bytes))
  | .number => some ⟨.literal, Utf8.decode p.bytes⟩
  | .separator => some ⟨.separator, Utf8.decode p.bytes⟩
  | .operator => some ⟨.operator, Utf8.decode p.bytes⟩
  | .lineComment | .blockComment | .blank | .charLiteral | .textBlock | .stringLiteral
  | .skipped => none

-- `length` counts source bytes, so that replaced bytes of the text do not move the end.
structure Token where
  lexeme : Lexeme
  offset : Nat
  length : Nat
  deriving DecidableEq, Repr

namespace Token

def verbatim (lexeme : Lexeme) (offset : Nat) : Token :=
  ⟨lexeme, offset, lexeme.text.utf8ByteSize⟩

def stop (t : Token) : Nat := t.offset + t.length

structure Placed where
  offset : Nat
  tokens : Array Token

def Placed.add : Placed → Piece → Placed
  | ⟨offset, tokens⟩, p =>
    match p.lexeme? with
    | some lexeme => ⟨offset + p.bytes.length, tokens.push ⟨lexeme, offset, p.bytes.length⟩⟩
    | none => ⟨offset + p.bytes.length, tokens⟩

def ofSource (source : List UInt8) : Array Token :=
  ((Piece.pieces source).foldl Placed.add ⟨0, #[]⟩).tokens

def next? (offset : Nat) (source : List UInt8) : Option (Token × List UInt8) :=
  match source with
  | [] => none
  | b :: rest =>
    let piece := Piece.front b rest
    let bytes := b :: rest.take piece.2
    match (⟨piece.1, bytes⟩ : Piece).lexeme? with
    | some lexeme => some (⟨lexeme, offset, bytes.length⟩, rest.drop piece.2)
    | none => next? (offset + bytes.length) (rest.drop piece.2)
termination_by source.length
decreasing_by simp only [List.length_drop, List.length_cons]; omega

theorem next?_shorter {offset : Nat} {source rest : List UInt8} {t : Token}
    (found : next? offset source = some (t, rest)) : rest.length < source.length := by
  fun_induction next? offset source with
  | case1 => simp at found
  | case2 offset b tail piece bytes lexeme _ =>
    obtain ⟨_, rfl⟩ := Prod.mk.inj (Option.some.inj found)
    simp only [List.length_drop, List.length_cons]
    omega
  | case3 offset b tail piece bytes _ ih =>
    have := ih found
    simp only [List.length_drop, List.length_cons] at this ⊢
    omega

def stepwise (offset : Nat) (source : List UInt8) (done : Array Token) : Array Token :=
  match found : next? offset source with
  | none => done
  | some (t, rest) =>
    have := next?_shorter found
    stepwise t.stop rest (done.push t)
termination_by source.length

end Token

end EditScope

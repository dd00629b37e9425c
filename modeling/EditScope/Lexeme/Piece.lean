set_option autoImplicit false

namespace EditScope

inductive Piece.Class where
  | lineComment
  | blockComment
  | blank
  | charLiteral
  | textBlock
  | stringLiteral
  | word
  | number
  | separator
  | operator
  | skipped
  deriving DecidableEq, Repr

structure Piece where
  kind : Piece.Class
  bytes : List UInt8
  deriving DecidableEq, Repr

namespace Piece

def byte (c : Char) : UInt8 := c.toNat.toUInt8

def newline : UInt8 := 0x0A
def quote : UInt8 := 0x22
def apostrophe : UInt8 := 0x27
def backslash : UInt8 := 0x5C

def isBlank (b : UInt8) : Bool := b == 0x20 || (0x09 ≤ b && b ≤ 0x0D)

def isDigit (b : UInt8) : Bool := byte '0' ≤ b && b ≤ byte '9'

def isLetter (b : UInt8) : Bool :=
  (byte 'a' ≤ b && b ≤ byte 'z') || (byte 'A' ≤ b && b ≤ byte 'Z')

/-- Bytes of characters outside ASCII count as letters. -/
def startsWord (b : UInt8) : Bool :=
  isLetter b || b == byte '_' || b == byte '$' || 0x80 ≤ b

def continuesWord (b : UInt8) : Bool := startsWord b || isDigit b

def isOperatorByte (b : UInt8) : Bool :=
  [byte '=', byte '>', byte '<', byte '!', byte '~', byte '?', byte ':'].contains b

def isSeparatorByte (b : UInt8) : Bool :=
  [byte '(', byte ')', byte '\x7b', byte '\x7d', byte '[', byte ']', byte ';', byte ',', byte '.',
   byte '@'].contains b

def lengthThrough (stop : List UInt8) : List UInt8 → Nat → Nat
  | [], seen => seen
  | b :: rest, seen =>
    if stop.isPrefixOf (b :: rest) then seen + stop.length
    else lengthThrough stop rest (seen + 1)

/-- A backslash takes the byte after it along; a newline leaves the literal unclosed. -/
def quotedLength? (mark : UInt8) : List UInt8 → Nat → Option Nat
  | [], _ => none
  | [b], seen => if b = mark then some (seen + 1) else none
  | b :: c :: rest, seen =>
    if b = mark then some (seen + 1)
    else if b = newline then none
    else if b = backslash then
      if c = newline then none else quotedLength? mark rest (seen + 2)
    else quotedLength? mark (c :: rest) (seen + 1)

def numberLength : List UInt8 → Nat → Nat
  | [], seen => seen
  | [b], seen => if isDigit b || isLetter b || b == byte '_' then seen + 1 else seen
  | b :: c :: rest, seen =>
    if isDigit b || isLetter b || b == byte '_' then numberLength (c :: rest) (seen + 1)
    else if b == byte '.' && isDigit c then numberLength rest (seen + 2)
    else seen

def quoted (kind : Class) (mark : UInt8) (rest : List UInt8) : Class × Nat :=
  match quotedLength? mark rest 0 with
  | some n => (kind, n)
  | none => (.skipped, 0)

def front (b : UInt8) (rest : List UInt8) : Class × Nat :=
  if b = byte '/' then
    if rest.head? = some (byte '/') then
      (.lineComment, (rest.takeWhile (· != newline)).length)
    else if rest.head? = some (byte '*') then
      (.blockComment, lengthThrough [byte '*', byte '/'] rest.tail 1)
    else (.skipped, 0)
  else if isBlank b then (.blank, (rest.takeWhile isBlank).length)
  else if b = apostrophe then quoted .charLiteral apostrophe rest
  else if b = quote then
    if [quote, quote].isPrefixOf rest then
      (.textBlock, lengthThrough [quote, quote, quote] (rest.drop 2) 2)
    else quoted .stringLiteral quote rest
  else if startsWord b then (.word, (rest.takeWhile continuesWord).length)
  else if isDigit b then (.number, numberLength rest 0)
  else if b = byte '.' ∧ [byte '.', byte '.'].isPrefixOf rest then (.separator, 2)
  else if b = byte ':' ∧ rest.head? = some (byte ':') then (.separator, 1)
  else if b = byte '-' ∧ rest.head? = some (byte '>') then (.operator, 1)
  else if isOperatorByte b then (.operator, 0)
  else if isSeparatorByte b then (.separator, 0)
  else (.skipped, 0)

def piecesOnto (done : List Piece) : List UInt8 → List Piece
  | [] => done.reverse
  | b :: rest =>
    let piece := front b rest
    piecesOnto (⟨piece.1, b :: rest.take piece.2⟩ :: done) (rest.drop piece.2)
termination_by source => source.length
decreasing_by simp only [List.length_drop, List.length_cons]; omega

def pieces (source : List UInt8) : List Piece := piecesOnto [] source

theorem piecesOnto_eq_append (done : List Piece) (source : List UInt8) :
    piecesOnto done source = done.reverse ++ pieces source := by
  induction len : source.length using Nat.strongRecOn generalizing done source with
  | ind _ shorter =>
    cases source with
    | nil => simp [pieces, piecesOnto]
    | cons b rest =>
      have less : (rest.drop (front b rest).2).length < (b :: rest).length := by
        simp only [List.length_drop, List.length_cons]
        omega
      rw [pieces, piecesOnto, piecesOnto, shorter _ (len ▸ less) _ _ rfl,
        shorter _ (len ▸ less) [_] _ rfl]
      simp

theorem pieces_nil : pieces [] = [] := by simp [pieces, piecesOnto]

theorem pieces_cons (b : UInt8) (rest : List UInt8) :
    pieces (b :: rest) =
      ⟨(front b rest).1, b :: rest.take (front b rest).2⟩ :: pieces (rest.drop (front b rest).2) := by
  rw [pieces, piecesOnto, piecesOnto_eq_append]
  simp

theorem pieces_flatten (source : List UInt8) :
    ((pieces source).map Piece.bytes).flatten = source := by
  induction len : source.length using Nat.strongRecOn generalizing source with
  | ind _ shorter =>
    cases source with
    | nil => simp [pieces_nil]
    | cons b rest =>
      have tail := shorter _ (by simp at len ⊢; omega) (rest.drop (front b rest).2) rfl
      simp [pieces_cons, tail]

end Piece

end EditScope

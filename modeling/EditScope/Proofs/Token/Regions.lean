import EditScope.Declaration.Basic
import EditScope.Proofs.Lexeme.Whole
import EditScope.Proofs.Token.Cut

set_option autoImplicit false

namespace EditScope

def Piece.Class.isDropped : Piece.Class → Bool
  | .lineComment | .blockComment | .blank | .charLiteral | .textBlock | .stringLiteral => true
  | .word | .number | .separator | .operator | .skipped => false

structure Lexeme.SpelledBy (bytes : List UInt8) (l : Lexeme) : Prop where
  text : l.text = Utf8.decode bytes
  keyword : isWord bytes → (l.kind = .keyword ↔ l.text ∈ keywords)
  literal : isWord bytes → (l.kind = .literal ↔ l.text ∈ literalWords)
  identifier : isWord bytes → (l.kind = .identifier ↔ l.text ∉ keywords ∧ l.text ∉ literalWords)
  separator : l.kind = .separator → l.text ∈ separators
  operator : l.kind = .operator → l.text ∈ operators
  number : ¬ isWord bytes → l.kind ≠ .separator → l.kind ≠ .operator →
    isNumber bytes ∧ l.kind = .literal

namespace Token

structure Region where
  kind : Piece.Class
  span : Span

def regionsFrom (offset : Nat) : List Piece → List Region
  | [] => []
  | p :: ps =>
    ⟨p.kind, ⟨offset, offset + p.bytes.length⟩⟩ :: regionsFrom (offset + p.bytes.length) ps

def regions (source : List UInt8) : List Region := regionsFrom 0 (Piece.pieces source)

def dropped (source : List UInt8) : List Region := (regions source).filter (·.kind.isDropped)

def skipped (source : List UInt8) : List Nat :=
  ((regions source).filter (·.kind == .skipped)).map (·.span.start)

def span (t : Token) : Span := ⟨t.offset, t.stop⟩

def bytes (source : List UInt8) (t : Token) : List UInt8 := (source.drop t.offset).take t.length

def Region.Stands (source : List UInt8) (r : Region) : Prop :=
  ∃ before inside after, source = before ++ inside ++ after ∧
    r.span = ⟨before.length, before.length + inside.length⟩ ∧ Piece.Whole after ⟨r.kind, inside⟩

section Regions

variable {source : List UInt8} {offset i : Nat} {pieces : List Piece}

theorem exists_piece_of_region {r : Region} (mem : r ∈ regionsFrom offset pieces) :
    ∃ ps p qs, pieces = ps ++ p :: qs ∧ r = ⟨p.kind, offset + Piece.total ps,
      offset + Piece.total ps + p.bytes.length⟩ := by
  induction pieces generalizing offset with
  | nil => cases mem
  | cons p pieces ih =>
    rcases List.mem_cons.1 mem with rfl | later
    · exact ⟨[], p, pieces, rfl, rfl⟩
    · obtain ⟨ps, q, qs, rfl, rfl⟩ := ih later
      have total : offset + p.bytes.length + Piece.total ps = offset + Piece.total (p :: ps) := by
        simp [Piece.total, Nat.add_assoc]
      exact ⟨p :: ps, q, qs, rfl, by rw [total]⟩

theorem stands_of_mem {r : Region} (mem : r ∈ regions source) : r.Stands source := by
  obtain ⟨ps, p, qs, split, rfl⟩ := exists_piece_of_region mem
  refine ⟨Piece.text ps, p.bytes, Piece.text qs, ?_, ?_, Piece.whole_of_split split⟩
  · rw [← Piece.text_pieces source, split]
    simp [Piece.text]
  · simp [Piece.total, Piece.text]

theorem loose_of_skipped (mem : i ∈ skipped source) :
    ∃ b, source[i]? = some b ∧ Piece.isLoose b := by
  obtain ⟨r, found, rfl⟩ := List.mem_map.1 mem
  obtain ⟨region, kind⟩ := List.mem_filter.1 found
  obtain ⟨before, inside, after, rfl, span, whole⟩ := stands_of_mem region
  rw [eq_of_beq kind] at whole
  cases whole with
  | @skipped b loose => exact ⟨b, by simp [span], loose⟩

theorem class_cases (p : Piece) :
    (∃ l, p.lexeme? = some l) ∧ p.kind.isDropped = false ∧ (p.kind == .skipped) = false ∨
      p.lexeme? = none ∧ p.kind.isDropped = true ∧ (p.kind == .skipped) = false ∨
      p.lexeme? = none ∧ p.kind.isDropped = false ∧ (p.kind == .skipped) = true := by
  obtain ⟨kind, bytes⟩ := p
  cases kind <;> simp [Piece.lexeme?, Piece.Class.isDropped]

theorem count_regionsFrom (single : ∀ p ∈ pieces, p.kind = .skipped → p.bytes.length = 1) :
    (placed offset pieces).countP (·.span.contains i) +
        ((regionsFrom offset pieces).filter (·.kind.isDropped)).countP (·.span.contains i) +
        (((regionsFrom offset pieces).filter (·.kind == .skipped)).map (·.span.start)).count i =
      if offset ≤ i ∧ i < offset + Piece.total pieces then 1 else 0 := by
  induction pieces generalizing offset with
  | nil => simp [placed, regionsFrom, Piece.total]
  | cons p pieces ih =>
    obtain ⟨here, later⟩ := List.forall_mem_cons.1 single
    have rest := @ih (offset + p.bytes.length) later
    -- The byte is in the first piece or in a later one, never in both.
    have split : (if offset ≤ i ∧ i < offset + Piece.total (p :: pieces) then 1 else 0) =
        (if (⟨offset, offset + p.bytes.length⟩ : Span).contains i then 1 else 0) +
          if offset + p.bytes.length ≤ i ∧
            i < offset + p.bytes.length + Piece.total pieces then 1 else 0 := by
      have total : Piece.total (p :: pieces) = p.bytes.length + Piece.total pieces := by
        simp [Piece.total]
      simp only [total, Span.contains, Bool.and_eq_true, decide_eq_true_eq]
      repeat' split
      all_goals omega
    rw [split, ← rest, placed, regionsFrom]
    rcases class_cases p with ⟨⟨l, lexeme⟩, drop, skip⟩ | ⟨lexeme, drop, skip⟩ | ⟨lexeme, drop, skip⟩
    · simp [lexeme, drop, skip, List.countP_cons, span, stop]
      omega
    · simp [lexeme, drop, skip, List.countP_cons]
      omega
    · have one : (⟨offset, offset + p.bytes.length⟩ : Span).contains i = (offset == i) := by
        rw [here (eq_of_beq skip), Bool.eq_iff_iff]
        simp only [Span.contains, Bool.and_eq_true, decide_eq_true_eq, beq_iff_eq]
        omega
      simp [lexeme, drop, skip, List.count_cons, one]
      omega

end Regions

open Lexeme

theorem bytes_of_piece {source : List UInt8} {ps qs : List Piece} {p : Piece} {t : Token}
    (split : Piece.pieces source = ps ++ p :: qs) (start : t.offset = Piece.total ps)
    (length : t.length = p.bytes.length) : t.bytes source = p.bytes := by
  have whole : source = Piece.text ps ++ (p.bytes ++ Piece.text qs) := by
    rw [← Piece.text_pieces source, split]
    simp [Piece.text]
  have size : Piece.total ps = (Piece.text ps).length := rfl
  rw [bytes, start, length, size, whole, List.drop_left, List.take_left]

theorem spelledBy_word {bytes : List UInt8} (word : isWord bytes) :
    (ofWord (Utf8.decode bytes)).SpelledBy bytes := by
  have apart : ∀ word ∈ literalWords, word ∉ keywords := by decide
  by_cases keyword : Utf8.decode bytes ∈ keywords
  · have other : Utf8.decode bytes ∉ literalWords := fun literal => apart _ literal keyword
    rw [ofWord_of_keyword keyword]
    constructor <;> simp [keyword, other, word]
  by_cases literal : Utf8.decode bytes ∈ literalWords
  · rw [ofWord_of_literal literal]
    constructor <;> simp [keyword, literal, word]
  · rw [ofWord_of_neither keyword literal]
    constructor <;> simp [keyword, literal, word]

theorem not_isWord_of_isNumber {bytes : List UInt8} (number : isNumber bytes) : ¬ isWord bytes := by
  cases bytes with
  | nil => simp [isWord]
  | cons b rest =>
    have digit := (Bool.and_eq_true_iff.1 number).1
    simp [isWord, Piece.startsWord_of_isDigit digit]

theorem spelledBy_of_whole {p : Piece} {after : List UInt8} {l : Lexeme} (whole : Piece.Whole after p)
    (found : p.lexeme? = some l) : l.SpelledBy p.bytes := by
  have separatorBytes : ∀ text ∈ separators, ¬ isWord (Utf8.encode text) := by decide
  have operatorBytes : ∀ text ∈ operators, ¬ isWord (Utf8.encode text) := by decide
  cases whole with
  | word spelled ends =>
    cases found
    exact spelledBy_word spelled
  | number spelled =>
    cases found
    have other := not_isWord_of_isNumber spelled
    constructor <;> simp [other, spelled]
  | @separator text known =>
    cases found
    have other := separatorBytes text known
    constructor <;> simp [other, known, Utf8.decode_encode]
  | @operator text known =>
    cases found
    have other := operatorBytes text known
    constructor <;> simp [other, known, Utf8.decode_encode]
  | _ => cases found

theorem spelledBy_of_mem {source : List UInt8} {t : Token} (mem : t ∈ (ofSource source).toList) :
    t.lexeme.SpelledBy (t.bytes source) := by
  obtain ⟨k, here⟩ := List.mem_iff_getElem?.1 mem
  rw [toList_ofSource] at here
  obtain ⟨ps, p, qs, split, _, lexeme, start, length⟩ := exists_piece here
  rw [bytes_of_piece split (by rw [start, Nat.zero_add]) length]
  exact spelledBy_of_whole (Piece.whole_of_split split) lexeme

theorem ofSource_regions (source : List UInt8) :
    Ordered (ofSource source).toList 0 source.length ∧
      (ofSource source).toList.Pairwise (fun s t => s.offset < t.offset) ∧
      (∀ t ∈ (ofSource source).toList, t.lexeme.SpelledBy (t.bytes source)) ∧
      (∀ r ∈ dropped source, r.kind.isDropped ∧ r.Stands source) ∧
      (∀ i ∈ skipped source, ∃ b, source[i]? = some b ∧ Piece.isLoose b) ∧
      ∀ i < source.length, (ofSource source).toList.countP (·.span.contains i) +
        (dropped source).countP (·.span.contains i) + (skipped source).count i = 1 := by
  have ordered := ofSource_ordered source
  refine ⟨ordered, ?_, fun t mem => spelledBy_of_mem mem, fun r mem => ?_,
    fun i mem => loose_of_skipped mem, fun i inside => ?_⟩
  · refine ordered.apart.imp_of_mem fun first _ apart => ?_
    exact Nat.lt_of_lt_of_le (ordered.nonempty _ first) apart
  · obtain ⟨region, kind⟩ := List.mem_filter.1 mem
    exact ⟨kind, stands_of_mem region⟩
  · have single : ∀ p ∈ Piece.pieces source, p.kind = .skipped → p.bytes.length = 1 := by
      intro p mem kind
      obtain ⟨ps, qs, split⟩ := List.append_of_mem mem
      have whole := Piece.whole_of_split split
      obtain ⟨made, bytes⟩ := p
      cases kind
      cases whole
      rfl
    have count := @count_regionsFrom 0 i _ single
    rw [Piece.total_pieces, if_pos ⟨Nat.zero_le i, by omega⟩, ← toList_ofSource] at count
    exact count

end Token

end EditScope

import EditScope.Proofs.Text.Utf8
import EditScope.Token

set_option autoImplicit false

namespace EditScope

namespace Lexeme

open Piece

def isWord : List UInt8 → Bool
  | [] => false
  | b :: rest => startsWord b && rest.all continuesWord

def isNumber : List UInt8 → Bool
  | [] => false
  | b :: rest => isDigit b && numberLength rest 0 == rest.length

def isSpelled (l : Lexeme) : Bool :=
  match l.kind with
  | .identifier =>
    isWord (Utf8.encode l.text) && !keywords.contains l.text && !literalWords.contains l.text
  | .keyword => keywords.contains l.text
  | .literal => literalWords.contains l.text || isNumber (Utf8.encode l.text)
  | .separator => separators.contains l.text
  | .operator => operators.contains l.text

theorem ofWord_of_keyword {text : String} (keyword : text ∈ keywords) :
    ofWord text = ⟨.keyword, text⟩ := if_pos keyword

theorem ofWord_of_literal {text : String} (literal : text ∈ literalWords) :
    ofWord text = ⟨.literal, text⟩ := by
  have other : ∀ word ∈ literalWords, word ∉ keywords := by decide
  rw [ofWord, if_neg (other text literal), if_pos literal]

theorem ofWord_of_neither {text : String} (other : text ∉ keywords) (other' : text ∉ literalWords) :
    ofWord text = ⟨.identifier, text⟩ := by
  rw [ofWord, if_neg other, if_neg other']

end Lexeme

namespace Piece

def Gap (rest : List UInt8) : Prop := ∀ b ∈ rest.head?, b = byte ' '

theorem gap_cases {rest : List UInt8} (gap : Gap rest) :
    rest = [] ∨ ∃ more, rest = byte ' ' :: more := by
  cases rest with
  | nil => exact .inl rfl
  | cons b more => exact .inr ⟨more, by rw [gap b rfl]⟩

structure Reads (bytes : List UInt8) (l : Lexeme) (kind : Class) : Prop where
  lexeme : (⟨kind, bytes⟩ : Piece).lexeme? = some l
  front : ∃ b tail, bytes = b :: tail ∧ isBlank b = false ∧
    ∀ rest, Gap rest → front b (tail ++ rest) = (kind, tail.length)

theorem isBlank_of_startsWord {b : UInt8} (starts : startsWord b) : isBlank b = false := by
  simp [startsWord, isLetter, byte, UInt8.le_iff_toNat_le, ← UInt8.toNat_inj] at starts
  simp [isBlank, UInt8.le_iff_toNat_le, ← UInt8.toNat_inj]
  omega

theorem isBlank_of_isDigit {b : UInt8} (digit : isDigit b) : isBlank b = false := by
  simp [isDigit, byte, UInt8.le_iff_toNat_le] at digit
  simp [isBlank, UInt8.le_iff_toNat_le, ← UInt8.toNat_inj]
  omega

theorem startsWord_of_isDigit {b : UInt8} (digit : isDigit b) : startsWord b = false := by
  simp [isDigit, byte, UInt8.le_iff_toNat_le] at digit
  simp [startsWord, isLetter, byte, UInt8.le_iff_toNat_le, ← UInt8.toNat_inj]
  omega

theorem ne_of_class {p : UInt8 → Bool} {b : UInt8} (here : p b) (c : UInt8) (other : p c = false) :
    b ≠ c := by
  rintro rfl
  rw [here] at other
  cases other

theorem front_word {b : UInt8} (starts : startsWord b) (rest : List UInt8) :
    front b rest = (.word, (rest.takeWhile continuesWord).length) := by
  have apart := ne_of_class starts
  rw [front, if_neg (apart _ (by decide)), if_neg (by simp [isBlank_of_startsWord starts]),
    if_neg (apart _ (by decide)), if_neg (apart _ (by decide)), if_pos starts]

theorem front_number {b : UInt8} (digit : isDigit b) (rest : List UInt8) :
    front b rest = (.number, numberLength rest 0) := by
  have apart := ne_of_class digit
  rw [front, if_neg (apart _ (by decide)), if_neg (by simp [isBlank_of_isDigit digit]),
    if_neg (apart _ (by decide)), if_neg (apart _ (by decide)),
    if_neg (by simp [startsWord_of_isDigit digit]), if_pos digit]

theorem takeWhile_stop {p : UInt8 → Bool} {rest : List UInt8} (ends : ∀ b ∈ rest.head?, p b = false)
    (tail : List UInt8) : (tail ++ rest).takeWhile p = tail.takeWhile p := by
  have none : rest.takeWhile p = [] := by
    cases rest with
    | nil => rfl
    | cons b more => simp [ends b rfl]
  rw [List.takeWhile_append, none, List.append_nil]
  split
  · rename_i whole
    exact (List.IsPrefix.eq_of_length (List.takeWhile_prefix p) whole).symm
  · rfl

theorem continuesWord_of_part {b : UInt8} (part : isDigit b || isLetter b || b == byte '_') :
    continuesWord b := by
  simp only [Bool.or_eq_true] at part
  rcases part with (digit | letter) | underscore
  · simp [continuesWord, digit]
  · simp [continuesWord, startsWord, letter]
  · simp [continuesWord, startsWord, underscore]

theorem numberLength_stop {rest : List UInt8} (ends : ∀ b ∈ rest.head?, continuesWord b = false)
    (point : rest.head? ≠ some (byte '.')) (tail : List UInt8) (seen : Nat) :
    numberLength (tail ++ rest) seen = numberLength tail seen := by
  have part (b : UInt8) (head : b ∈ rest.head?) : (isDigit b || isLetter b || b == byte '_') = false := by
    refine Bool.eq_false_iff.2 fun part => ?_
    have other := ends b head
    rw [continuesWord_of_part part] at other
    cases other
  -- Neither a part of a number nor a point stands first in `rest`, so none of it is read.
  have stop (seen : Nat) : numberLength rest seen = seen := by
    match rest, part, point with
    | [], _, _ => rfl
    | [b], part, _ => simp [numberLength, part b rfl]
    | b :: c :: more, part, point =>
      have dot : b ≠ byte '.' := fun same => point (congrArg some same)
      simp [numberLength, part b rfl, dot]
  fun_induction numberLength tail seen with
  | case1 seen => exact stop seen
  | case2 b seen here =>
    rw [List.singleton_append]
    cases rest with
    | nil => simp [numberLength, here]
    | cons c more => rw [numberLength, if_pos here, stop]
  | case3 b seen here =>
    cases rest with
    | nil => simp [numberLength, here]
    | cons c more =>
      have other : isDigit c = false := by
        have := part c rfl
        simp only [Bool.or_eq_false_iff] at this
        exact this.1.1
      simp [numberLength, here, other]
  | case4 b c tail seen here ih =>
    rw [List.cons_append, List.cons_append, numberLength, if_pos here]
    exact ih
  | case5 b c tail seen here point ih =>
    rw [List.cons_append, List.cons_append, numberLength, if_neg here, if_pos point]
    exact ih
  | case6 b c tail seen here point =>
    rw [List.cons_append, List.cons_append, numberLength, if_neg here, if_neg point]

theorem Gap.ends {rest : List UInt8} (gap : Gap rest) : ∀ b ∈ rest.head?, continuesWord b = false := by
  intro b head
  rw [gap b head]
  decide

theorem Gap.point {rest : List UInt8} (gap : Gap rest) : rest.head? ≠ some (byte '.') :=
  fun head => absurd (gap _ head) (by decide)

end Piece

namespace Lexeme

open Piece

theorem reads_word {l : Lexeme} (word : isWord (Utf8.encode l.text)) (same : ofWord l.text = l) :
    Reads (Utf8.encode l.text) l .word where
  lexeme := by rw [lexeme?, Utf8.decode_encode, same]
  front := by
    cases bytes : Utf8.encode l.text with
    | nil => rw [bytes] at word; cases word
    | cons b tail =>
      rw [bytes] at word
      obtain ⟨starts, all⟩ := Bool.and_eq_true_iff.1 word
      refine ⟨b, tail, rfl, isBlank_of_startsWord starts, fun rest gap => ?_⟩
      have whole : (tail ++ []).takeWhile continuesWord = tail := by
        rw [List.takeWhile_append_of_pos (List.all_eq_true.1 all), List.takeWhile_nil, List.append_nil]
      rw [List.append_nil] at whole
      rw [front_word starts, takeWhile_stop gap.ends, whole]

theorem reads_number {text : String} (number : isNumber (Utf8.encode text)) :
    Reads (Utf8.encode text) ⟨.literal, text⟩ .number where
  lexeme := by rw [lexeme?, Utf8.decode_encode]
  front := by
    cases bytes : Utf8.encode text with
    | nil => rw [bytes] at number; cases number
    | cons b tail =>
      rw [bytes] at number
      obtain ⟨digit, all⟩ := Bool.and_eq_true_iff.1 number
      refine ⟨b, tail, rfl, isBlank_of_isDigit digit, fun rest gap => ?_⟩
      rw [front_number digit, numberLength_stop gap.ends gap.point, eq_of_beq all]

theorem reads_separator {text : String} (separator : text ∈ separators) :
    Reads (Utf8.encode text) ⟨.separator, text⟩ .separator where
  lexeme := by rw [lexeme?, Utf8.decode_encode]
  front := by
    simp only [separators, List.mem_cons, List.not_mem_nil, or_false] at separator
    rcases separator with rfl | rfl | rfl | rfl | rfl | rfl | rfl | rfl | rfl | rfl | rfl | rfl
    all_goals
      refine ⟨_, _, rfl, rfl, fun rest gap => ?_⟩
      rcases gap_cases gap with rfl | ⟨more, rfl⟩ <;> rfl

theorem reads_operator {text : String} (operator : text ∈ operators) :
    Reads (Utf8.encode text) ⟨.operator, text⟩ .operator where
  lexeme := by rw [lexeme?, Utf8.decode_encode]
  front := by
    simp only [operators, List.mem_cons, List.not_mem_nil, or_false] at operator
    rcases operator with rfl | rfl | rfl | rfl | rfl | rfl | rfl | rfl
    all_goals
      refine ⟨_, _, rfl, rfl, fun rest gap => ?_⟩
      rcases gap_cases gap with rfl | ⟨more, rfl⟩ <;> rfl

theorem exists_reads {l : Lexeme} (spelled : l.isSpelled) :
    ∃ kind, Reads (Utf8.encode l.text) l kind := by
  have keywordBytes : ∀ word ∈ keywords, isWord (Utf8.encode word) := by decide
  have literalBytes : ∀ word ∈ literalWords, isWord (Utf8.encode word) := by decide
  obtain ⟨kind, text⟩ := l
  cases kind with
  | identifier =>
    simp only [isSpelled, Bool.and_eq_true, Bool.not_eq_true', List.contains_eq_mem,
      decide_eq_false_iff_not] at spelled
    exact ⟨.word, reads_word spelled.1.1 (ofWord_of_neither spelled.1.2 spelled.2)⟩
  | keyword =>
    have keyword : text ∈ keywords := List.contains_iff_mem.1 spelled
    exact ⟨.word, reads_word (keywordBytes text keyword) (ofWord_of_keyword keyword)⟩
  | literal =>
    rcases Bool.or_eq_true_iff.1 spelled with literal | number
    · have literal : text ∈ literalWords := List.contains_iff_mem.1 literal
      exact ⟨.word, reads_word (literalBytes text literal) (ofWord_of_literal literal)⟩
    · exact ⟨.number, reads_number number⟩
  | separator => exact ⟨.separator, reads_separator (List.contains_iff_mem.1 spelled)⟩
  | operator => exact ⟨.operator, reads_operator (List.contains_iff_mem.1 spelled)⟩

end Lexeme

end EditScope

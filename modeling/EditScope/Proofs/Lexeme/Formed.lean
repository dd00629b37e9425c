import EditScope.Proofs.Lexeme.Spelled

set_option autoImplicit false

namespace EditScope

namespace Piece

theorem le_numberLength (bytes : List UInt8) (seen : Nat) : seen ≤ numberLength bytes seen := by
  fun_induction numberLength bytes seen <;> omega

theorem numberLength_le (bytes : List UInt8) (seen : Nat) :
    numberLength bytes seen ≤ seen + bytes.length := by
  fun_induction numberLength bytes seen <;> simp only [List.length_cons, List.length_nil] at * <;> omega

theorem numberLength_part {b : UInt8} (part : isDigit b || isLetter b || b == byte '_')
    (bytes : List UInt8) (seen : Nat) :
    numberLength (b :: bytes) seen = numberLength bytes (seen + 1) := by
  cases bytes with
  | nil => simp [numberLength, part]
  | cons c bytes => rw [numberLength, if_pos part]

theorem numberLength_take (bytes : List UInt8) (seen : Nat) :
    numberLength (bytes.take (numberLength bytes seen - seen)) seen = numberLength bytes seen := by
  fun_induction numberLength bytes seen with
  | case1 seen => simp [numberLength]
  | case2 b seen part => simp [numberLength, part]
  | case3 b seen part => simp [numberLength]
  | case4 b c rest seen part ih =>
    have more := le_numberLength (c :: rest) (seen + 1)
    obtain ⟨n, ends⟩ := Nat.exists_eq_add_of_le more
    rw [ends, show seen + 1 + n - seen = n + 1 by omega, List.take_succ_cons, numberLength_part part]
    rw [ends, Nat.add_sub_cancel_left] at ih
    exact ih
  | case5 b c rest seen part point ih =>
    have more := le_numberLength rest (seen + 2)
    obtain ⟨n, ends⟩ := Nat.exists_eq_add_of_le more
    rw [ends, show seen + 2 + n - seen = n + 1 + 1 by omega, List.take_succ_cons, List.take_succ_cons,
      numberLength, if_neg part, if_pos point]
    rw [ends, Nat.add_sub_cancel_left] at ih
    exact ih
  | case6 b c rest seen part point => simp [numberLength]

theorem part_of_numberLength {bytes : List UInt8} {seen : Nat}
    (all : numberLength bytes seen = seen + bytes.length) :
    ∀ b ∈ bytes, isDigit b || isLetter b || b == byte '_' || b == byte '.' := by
  fun_induction numberLength bytes seen with
  | case1 seen => simp
  | case2 b seen part => exact List.forall_mem_singleton.2 (Bool.or_eq_true_iff.2 (.inl part))
  | case3 b seen part => simp at all
  | case4 b c rest seen part ih =>
    rw [List.forall_mem_cons]
    refine ⟨Bool.or_eq_true_iff.2 (.inl part), ih ?_⟩
    simp only [List.length_cons] at all ⊢
    omega
  | case5 b c rest seen part point ih =>
    obtain ⟨dot, digit⟩ := Bool.and_eq_true_iff.1 point
    rw [List.forall_mem_cons, List.forall_mem_cons]
    refine ⟨Bool.or_eq_true_iff.2 (.inr dot), by simp [digit], ih ?_⟩
    simp only [List.length_cons] at all
    omega
  | case6 b c rest seen part point => simp at all

open Lexeme

def Formed (p : Piece) : Prop :=
  match p.kind with
  | .word => isWord p.bytes
  | .number => isNumber p.bytes
  | .separator => p.bytes ∈ separators.map Utf8.encode
  | .operator => p.bytes ∈ operators.map Utf8.encode
  | _ => True

theorem formed_quoted {kind : Class} (literal : kind = .charLiteral ∨ kind = .stringLiteral)
    (mark b : UInt8) (rest : List UInt8) :
    Formed ⟨(quoted kind mark rest).1, b :: rest.take (quoted kind mark rest).2⟩ := by
  unfold quoted
  split
  · rcases literal with rfl | rfl <;> trivial
  · trivial

theorem formed_word {b : UInt8} (starts : startsWord b) (rest : List UInt8) :
    Formed ⟨.word, b :: rest.take (rest.takeWhile continuesWord).length⟩ := by
  rw [← List.prefix_iff_eq_take.1 (List.takeWhile_prefix continuesWord)]
  exact Bool.and_eq_true_iff.2 ⟨starts, List.all_takeWhile⟩

theorem formed_number {b : UInt8} (digit : isDigit b) (rest : List UInt8) :
    Formed ⟨.number, b :: rest.take (numberLength rest 0)⟩ := by
  have again : numberLength (rest.take (numberLength rest 0)) 0 = numberLength rest 0 :=
    numberLength_take rest 0
  have short : numberLength rest 0 ≤ rest.length := by simpa using numberLength_le rest 0
  refine Bool.and_eq_true_iff.2 ⟨digit, beq_iff_eq.2 ?_⟩
  rw [again, List.length_take_of_le short]

-- `split` goes over all the branches at every branch; here each one is opened once.
theorem formed_front (b : UInt8) (rest : List UInt8) :
    Formed ⟨(front b rest).1, b :: rest.take (front b rest).2⟩ := by
  let form (piece : Class × Nat) : Prop := Formed ⟨piece.1, b :: rest.take piece.2⟩
  suffices form (front b rest) from this
  unfold front
  refine iteInduction (fun _ => ?slash) fun _ => iteInduction (fun _ => trivial) fun _ =>
    iteInduction (fun _ => formed_quoted (.inl rfl) _ _ _) fun _ => iteInduction (fun _ => ?double) fun _ =>
    iteInduction (fun starts => formed_word starts rest) fun _ =>
    iteInduction (fun digit => formed_number digit rest) fun _ =>
    iteInduction (fun long => ?long) fun _ => iteInduction (fun scope => ?scope) fun _ =>
    iteInduction (fun arrow => ?arrow) fun _ => iteInduction (fun operator => ?operator) fun _ =>
    iteInduction (fun separator => ?separator) fun _ => trivial
  case slash =>
    exact iteInduction (fun _ => trivial) fun _ => iteInduction (fun _ => trivial) fun _ => trivial
  case double => exact iteInduction (fun _ => trivial) fun _ => formed_quoted (.inr rfl) _ _ _
  case long =>
    obtain ⟨rfl, dots⟩ := long
    obtain ⟨more, rfl⟩ := List.isPrefixOf_iff_prefix.1 dots
    exact List.contains_iff_mem.1 rfl
  case scope =>
    obtain ⟨rfl, colon⟩ := scope
    obtain ⟨more, rfl⟩ := List.head?_eq_some_iff.1 colon
    exact List.contains_iff_mem.1 rfl
  case arrow =>
    obtain ⟨rfl, head⟩ := arrow
    obtain ⟨more, rfl⟩ := List.head?_eq_some_iff.1 head
    exact List.contains_iff_mem.1 rfl
  case operator =>
    simp only [isOperatorByte, List.contains_iff_mem, List.mem_cons, List.not_mem_nil,
      or_false] at operator
    rcases operator with rfl | rfl | rfl | rfl | rfl | rfl | rfl <;>
      exact List.contains_iff_mem.1 rfl
  case separator =>
    simp only [isSeparatorByte, List.contains_iff_mem, List.mem_cons, List.not_mem_nil,
      or_false] at separator
    rcases separator with rfl | rfl | rfl | rfl | rfl | rfl | rfl | rfl | rfl | rfl <;>
      exact List.contains_iff_mem.1 rfl

theorem formed_of_mem {source : List UInt8} {p : Piece} (mem : p ∈ pieces source) : p.Formed := by
  induction len : source.length using Nat.strongRecOn generalizing source with
  | ind _ shorter =>
    cases source with
    | nil => simp [pieces_nil] at mem
    | cons b rest =>
      rw [pieces_cons] at mem
      rcases List.mem_cons.1 mem with rfl | later
      · exact formed_front b rest
      · refine shorter _ ?_ later rfl
        simp only [List.length_cons, List.length_drop] at len ⊢
        omega

end Piece

namespace Lexeme

open Piece

theorem isWord_decode {bytes : List UInt8} (word : isWord bytes) :
    isWord (Utf8.encode (Utf8.decode bytes)) := by
  have wide {c : UInt8} (outside : 0x80 ≤ c.toNat) : startsWord c := by
    simp [startsWord, UInt8.le_iff_toNat_le, outside]
  cases bytes with
  | nil => cases word
  | cons b rest =>
    obtain ⟨starts, continues⟩ := Bool.and_eq_true_iff.1 word
    have all : ∀ c ∈ Utf8.encode (Utf8.decode (b :: rest)), continuesWord c := by
      intro c mem
      rcases Utf8.mem_encode_decode mem with outside | here
      · simp [continuesWord, wide outside]
      · rcases List.mem_cons.1 here with rfl | later
        · simp [continuesWord, starts]
        · exact List.all_eq_true.1 continues c later
    have first : ∃ c more, Utf8.encode (Utf8.decode (b :: rest)) = c :: more ∧ startsWord c := by
      rcases Nat.lt_or_ge b.toNat 0x80 with ascii | outside
      · exact ⟨b, _, Utf8.encode_decode_ascii ascii rest, starts⟩
      · obtain ⟨c, more, written, outside⟩ := Utf8.encode_decode_wide outside rest
        exact ⟨c, more, written, wide outside⟩
    obtain ⟨c, more, written, starts⟩ := first
    rw [written] at all ⊢
    exact Bool.and_eq_true_iff.2 ⟨starts, List.all_eq_true.2 (List.forall_mem_cons.1 all).2⟩

theorem part_of_isNumber {bytes : List UInt8} (number : isNumber bytes) :
    ∀ b ∈ bytes, isDigit b || isLetter b || b == byte '_' || b == byte '.' := by
  cases bytes with
  | nil => cases number
  | cons b rest =>
    obtain ⟨digit, all⟩ := Bool.and_eq_true_iff.1 number
    refine List.forall_mem_cons.2 ⟨by simp [digit], ?_⟩
    exact part_of_numberLength (by rw [eq_of_beq all, Nat.zero_add])

theorem ascii_of_isNumber {bytes : List UInt8} (number : isNumber bytes) :
    ∀ b ∈ bytes, b.toNat < 0x80 := by
  intro b mem
  have part := part_of_isNumber number b mem
  simp [isDigit, isLetter, byte, UInt8.le_iff_toNat_le, ← UInt8.toNat_inj] at part
  omega

theorem isNumber_decode {bytes : List UInt8} (number : isNumber bytes) :
    isNumber (Utf8.encode (Utf8.decode bytes)) := by
  rwa [Utf8.encode_decode_of_ascii (ascii_of_isNumber number)]

theorem isSpelled_ofWord {text : String} (word : isWord (Utf8.encode text)) :
    (ofWord text).isSpelled := by
  by_cases keyword : text ∈ keywords
  · rw [ofWord_of_keyword keyword]
    exact List.contains_iff_mem.2 keyword
  by_cases literal : text ∈ literalWords
  · rw [ofWord_of_literal literal]
    exact Bool.or_eq_true_iff.2 (.inl (List.contains_iff_mem.2 literal))
  · rw [ofWord_of_neither keyword literal]
    simp [isSpelled, word, keyword, literal]

theorem isSpelled_of_formed {p : Piece} {l : Lexeme} (formed : p.Formed) (found : p.lexeme? = some l) :
    l.isSpelled := by
  obtain ⟨kind, bytes⟩ := p
  have mark {texts : List String} (mem : bytes ∈ texts.map Utf8.encode) :
      texts.contains (Utf8.decode bytes) := by
    obtain ⟨text, known, rfl⟩ := List.mem_map.1 mem
    rw [Utf8.decode_encode]
    exact List.contains_iff_mem.2 known
  cases kind <;> cases found
  case word => exact isSpelled_ofWord (isWord_decode formed)
  case number => exact Bool.or_eq_true_iff.2 (.inr (isNumber_decode formed))
  case separator => exact mark formed
  case operator => exact mark formed

end Lexeme

end EditScope

import EditScope.Proofs.Lexeme.Cut
import EditScope.Proofs.Lexeme.Formed

set_option autoImplicit false

namespace EditScope.Piece

open Lexeme

/-- A backslash takes the byte after it along; neither a mark nor a newline stands by itself. -/
inductive Quotable (mark : UInt8) : List UInt8 → Prop where
  | nil : Quotable mark []
  | plain {b : UInt8} {rest : List UInt8} (other : b ≠ mark) (line : b ≠ newline)
      (unescaped : b ≠ backslash) (more : Quotable mark rest) : Quotable mark (b :: rest)
  | escaped {c : UInt8} {rest : List UInt8} (line : c ≠ newline) (more : Quotable mark rest) :
      Quotable mark (backslash :: c :: rest)

structure Through (stop bytes after : List UInt8) : Prop where
  first : ∀ before rest, bytes = before ++ stop ++ rest → rest = []
  ends : stop <:+ bytes ∨ after = []

def isLoose (b : UInt8) : Bool :=
  !isBlank b && !continuesWord b && !isOperatorByte b && !isSeparatorByte b

inductive Whole (after : List UInt8) : Piece → Prop where
  | lineComment {body : List UInt8} (line : newline ∉ body) (ends : ∀ b ∈ after.head?, b = newline) :
      Whole after ⟨.lineComment, byte '/' :: byte '/' :: body⟩
  | blockComment {body : List UInt8} (through : Through [byte '*', byte '/'] body after) :
      Whole after ⟨.blockComment, byte '/' :: byte '*' :: body⟩
  | blank {b : UInt8} {rest : List UInt8} (all : ∀ c ∈ b :: rest, isBlank c)
      (ends : ∀ c ∈ after.head?, isBlank c = false) : Whole after ⟨.blank, b :: rest⟩
  | charLiteral {body : List UInt8} (inside : Quotable apostrophe body) :
      Whole after ⟨.charLiteral, apostrophe :: (body ++ [apostrophe])⟩
  | textBlock {body : List UInt8} (through : Through [quote, quote, quote] body after) :
      Whole after ⟨.textBlock, quote :: quote :: quote :: body⟩
  | stringLiteral {body : List UInt8} (inside : Quotable quote body) :
      Whole after ⟨.stringLiteral, quote :: (body ++ [quote])⟩
  | word {bytes : List UInt8} (spelled : isWord bytes)
      (ends : ∀ b ∈ after.head?, continuesWord b = false) : Whole after ⟨.word, bytes⟩
  | number {bytes : List UInt8} (spelled : isNumber bytes) : Whole after ⟨.number, bytes⟩
  | separator {text : String} (known : text ∈ separators) :
      Whole after ⟨.separator, Utf8.encode text⟩
  | operator {text : String} (known : text ∈ operators) : Whole after ⟨.operator, Utf8.encode text⟩
  | skipped {b : UInt8} (loose : isLoose b) : Whole after ⟨.skipped, [b]⟩

section Parts

variable {mark b : UInt8} {rest : List UInt8} {seen n : Nat}

theorem exists_quotable (found : quotedLength? mark rest seen = some n) :
    ∃ body tail, rest = body ++ mark :: tail ∧ Quotable mark body ∧ n = seen + body.length + 1 := by
  fun_induction quotedLength? mark rest seen with
  | case1 => cases found
  | case2 seen =>
    cases found
    exact ⟨[], [], rfl, .nil, rfl⟩
  | case3 => cases found
  | case4 c rest seen =>
    cases found
    exact ⟨[], c :: rest, rfl, .nil, rfl⟩
  | case5 => cases found
  | case6 => cases found
  | case7 c rest seen line other line' ih =>
    obtain ⟨body, tail, rfl, inside, rfl⟩ := ih found
    refine ⟨backslash :: c :: body, tail, rfl, .escaped line inside, ?_⟩
    simp only [List.length_cons]
    omega
  | case8 b c rest seen other line unescaped ih =>
    obtain ⟨body, tail, split, inside, rfl⟩ := ih found
    refine ⟨b :: body, tail, by rw [split, List.cons_append], .plain other line unescaped inside, ?_⟩
    simp only [List.length_cons]
    omega

theorem through_lengthThrough (stop rest : List UInt8) (seen : Nat) :
    ∃ n, lengthThrough stop rest seen = seen + n ∧ n ≤ rest.length ∧
      Through stop (rest.take n) (rest.drop n) := by
  induction rest generalizing seen with
  | nil =>
    refine ⟨0, rfl, Nat.le_refl _, fun before rest split => ?_, .inr rfl⟩
    simp only [List.take_nil, List.nil_eq, List.append_eq_nil_iff] at split
    exact split.2
  | cons b rest ih =>
    rw [lengthThrough]
    by_cases here : stop.isPrefixOf (b :: rest)
    · obtain ⟨tail, split⟩ := List.isPrefixOf_iff_prefix.1 here
      refine ⟨stop.length, if_pos here, (List.isPrefixOf_iff_prefix.1 here).length_le, ?_⟩
      rw [← split, List.take_left, List.drop_left]
      refine ⟨fun before rest whole => ?_, .inl (List.suffix_refl _)⟩
      have lengths := congrArg List.length whole
      simp only [List.length_append] at lengths
      exact List.length_eq_zero_iff.1 (by omega)
    · obtain ⟨n, length, short, first, ends⟩ := ih (seen + 1)
      refine ⟨n + 1, by rw [if_neg here, length]; omega, Nat.succ_le_succ short, ?_, ?_⟩
      · rintro (_ | ⟨c, before⟩) after split
        · -- The mark would stand at the head, where it was not found.
          refine absurd (List.isPrefixOf_iff_prefix.2 ?_) here
          have start : stop <+: (b :: rest).take (n + 1) := ⟨after, by simpa using split.symm⟩
          exact start.trans (List.take_prefix _ _)
        · rw [List.take_succ_cons, List.cons_append, List.cons_append] at split
          exact first before after (List.cons.inj split).2
      · rw [List.take_succ_cons, List.drop_succ_cons]
        exact ends.imp_left fun suffix => suffix.trans (List.suffix_cons _ _)

theorem head?_dropWhile (p : UInt8 → Bool) (rest : List UInt8) :
    ∀ b ∈ (rest.dropWhile p).head?, p b = false := by
  intro b head
  have first := List.head?_dropWhile_not p rest
  rw [head] at first
  exact first

end Parts

def Fits (b : UInt8) (rest : List UInt8) (piece : Class × Nat) : Prop :=
  Whole (rest.drop piece.2) ⟨piece.1, b :: rest.take piece.2⟩

section Fits

variable {kind : Class} {b : UInt8} {rest : List UInt8}

theorem fits_of_append {bytes tail : List UInt8} {n : Nat} (split : rest = bytes ++ tail)
    (size : n = bytes.length) (whole : Whole tail ⟨kind, b :: bytes⟩) : Fits b rest (kind, n) := by
  subst split size
  simpa only [Fits, List.take_left, List.drop_left] using whole

theorem fits_takeWhile {p : UInt8 → Bool}
    (whole : Whole (rest.dropWhile p) ⟨kind, b :: rest.takeWhile p⟩) :
    Fits b rest (kind, (rest.takeWhile p).length) :=
  fits_of_append List.takeWhile_append_dropWhile.symm rfl whole

theorem fits_lengthThrough (opening : List UInt8) {stop : List UInt8} (starts : opening <+: rest)
    (form : ∀ {body after}, Through stop body after → Whole after ⟨kind, b :: (opening ++ body)⟩) :
    Fits b rest (kind, lengthThrough stop (rest.drop opening.length) opening.length) := by
  obtain ⟨tail, rfl⟩ := starts
  obtain ⟨n, length, short, through⟩ := through_lengthThrough stop tail opening.length
  rw [List.drop_left, length]
  refine fits_of_append ?_ ?_ (form through)
  · rw [List.append_assoc, List.take_append_drop]
  · rw [List.length_append, List.length_take_of_le short]

theorem fits_quoted (loose : isLoose b)
    (form : ∀ {body after}, Quotable b body → Whole after ⟨kind, b :: (body ++ [b])⟩)
    (rest : List UInt8) : Fits b rest (quoted kind b rest) := by
  unfold quoted
  cases found : quotedLength? b rest 0 with
  | none => exact .skipped loose
  | some n =>
    obtain ⟨body, tail, rfl, inside, rfl⟩ := exists_quotable found
    exact fits_of_append (List.append_cons _ _ _) (by simp) (form inside)

theorem fits_lineComment (head : rest.head? = some (byte '/')) :
    Fits (byte '/') rest (.lineComment, (rest.takeWhile (· != newline)).length) := by
  obtain ⟨tail, rfl⟩ := List.head?_eq_some_iff.1 head
  have whole : Whole (tail.dropWhile (· != newline))
      ⟨.lineComment, byte '/' :: byte '/' :: tail.takeWhile (· != newline)⟩ := by
    refine .lineComment (fun inside => ?_) fun b here => ?_
    · simpa using List.all_eq_true.1 List.all_takeWhile _ inside
    · simpa using head?_dropWhile (· != newline) tail b here
  exact fits_takeWhile whole

theorem fits_blank (blank : isBlank b) : Fits b rest (.blank, (rest.takeWhile isBlank).length) := by
  refine fits_takeWhile (.blank (List.forall_mem_cons.2 ⟨blank, ?_⟩) (head?_dropWhile isBlank rest))
  exact List.all_eq_true.1 List.all_takeWhile

theorem fits_word (starts : startsWord b) :
    Fits b rest (.word, (rest.takeWhile continuesWord).length) := by
  refine fits_takeWhile (.word ?_ (head?_dropWhile continuesWord rest))
  exact Bool.and_eq_true_iff.2 ⟨starts, List.all_takeWhile⟩

end Fits

theorem isLoose_of_classes {b : UInt8} (blank : ¬ isBlank b) (word : ¬ startsWord b)
    (digit : ¬ isDigit b) (operator : ¬ isOperatorByte b) (separator : ¬ isSeparatorByte b) :
    isLoose b := by
  simp only [Bool.not_eq_true] at blank word digit operator separator
  simp [isLoose, continuesWord, blank, word, digit, operator, separator]

def Class.isMark : Class → Bool
  | .number | .separator | .operator => true
  | _ => false

theorem whole_of_formed {p : Piece} (mark : p.kind.isMark) (formed : p.Formed) (after : List UInt8) :
    Whole after p := by
  obtain ⟨kind, bytes⟩ := p
  cases kind with
  | number => exact .number formed
  | separator =>
    obtain ⟨text, known, rfl⟩ := List.mem_map.1 formed
    exact .separator known
  | operator =>
    obtain ⟨text, known, rfl⟩ := List.mem_map.1 formed
    exact .operator known
  | _ => cases mark

theorem fits_front (b : UInt8) (rest : List UInt8) : Fits b rest (front b rest) := by
  have split : (front b rest).1.isMark ∨ Fits b rest (front b rest) := by
    let motive (piece : Class × Nat) : Prop := piece.1.isMark ∨ Fits b rest piece
    suffices motive (front b rest) from this
    unfold front
    refine iteInduction (fun slash => ?slash) fun _ => iteInduction (fun blank => ?blank) fun plain =>
      iteInduction (fun single => ?single) fun _ => iteInduction (fun double => ?double) fun _ =>
      iteInduction (fun starts => ?word) fun word => iteInduction (fun _ => .inl rfl) fun digit =>
      iteInduction (fun _ => .inl rfl) fun _ => iteInduction (fun _ => .inl rfl) fun _ =>
      iteInduction (fun _ => .inl rfl) fun _ => iteInduction (fun _ => .inl rfl) fun operator =>
      iteInduction (fun _ => .inl rfl) fun separator =>
      .inr (.skipped (isLoose_of_classes plain word digit operator separator))
    case slash =>
      subst slash
      refine iteInduction (fun line => .inr (fits_lineComment line)) fun _ =>
        iteInduction (fun block => ?_) fun _ => .inr (.skipped (by decide))
      obtain ⟨tail, rfl⟩ := List.head?_eq_some_iff.1 block
      exact .inr (fits_lengthThrough [byte '*'] ⟨tail, rfl⟩ .blockComment)
    case blank => exact .inr (fits_blank blank)
    case single => exact .inr (single ▸ fits_quoted (by decide) .charLiteral rest)
    case double =>
      subst double
      refine iteInduction (fun block => .inr ?_) fun _ =>
        .inr (fits_quoted (by decide) .stringLiteral rest)
      exact fits_lengthThrough [quote, quote] (List.isPrefixOf_iff_prefix.1 block) .textBlock
    case word => exact .inr (fits_word starts)
  exact split.elim (fun mark => whole_of_formed mark (formed_front b rest) _) id

theorem whole_of_split {source : List UInt8} {ps qs : List Piece} {p : Piece}
    (split : pieces source = ps ++ p :: qs) : Whole (text qs) p := by
  induction ps generalizing source with
  | nil =>
    cases source with
    | nil => simp [pieces_nil] at split
    | cons b rest =>
      rw [pieces_cons] at split
      obtain ⟨rfl, rfl⟩ := List.cons.inj split
      rw [text_pieces]
      exact fits_front b rest
  | cons q ps ih =>
    cases source with
    | nil => simp [pieces_nil] at split
    | cons b rest =>
      rw [pieces_cons] at split
      exact ih (List.cons.inj split).2

end EditScope.Piece

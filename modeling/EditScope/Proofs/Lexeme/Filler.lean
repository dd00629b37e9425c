import EditScope.Proofs.Lexeme.Whole
import EditScope.Proofs.Token.Order

set_option autoImplicit false

namespace EditScope.Piece

inductive Filler : List UInt8 → Prop where
  | blank {b : UInt8} {rest : List UInt8} (all : ∀ c ∈ b :: rest, isBlank c) : Filler (b :: rest)
  | lineComment {body : List UInt8} (line : newline ∉ body) :
      Filler (byte '/' :: byte '/' :: (body ++ [newline]))
  | blockComment {body : List UInt8} (unclosed : ¬ [byte '*', byte '/'] <:+: body) :
      Filler (byte '/' :: byte '*' :: (body ++ [byte '*', byte '/']))
  | charLiteral {body : List UInt8} (inside : Quotable apostrophe body) :
      Filler (apostrophe :: (body ++ [apostrophe]))
  | stringLiteral {body : List UInt8} (inside : Quotable quote body) (nonempty : body ≠ []) :
      Filler (quote :: (body ++ [quote]))
  | textBlock {body : List UInt8} (first : ∀ before rest,
        body ++ [quote, quote, quote] = before ++ [quote, quote, quote] ++ rest → rest = []) :
      Filler (quote :: quote :: quote :: (body ++ [quote, quote, quote]))

def startsFiller (b : UInt8) : Bool :=
  isBlank b || b == byte '/' || b == apostrophe || b == quote

/-- What may follow a lexeme and not make it longer. -/
def Edge (rest : List UInt8) : Prop := ∀ b ∈ rest.head?, startsFiller b

theorem Filler.edge {w : List UInt8} (filler : Filler w) (rest : List UInt8) : Edge (w ++ rest) := by
  intro b head
  cases filler with
  | blank all =>
    cases Option.some.inj head
    simp [startsFiller, all b (List.mem_cons_self ..)]
  | _ =>
    cases Option.some.inj head
    decide

section Edge

variable {rest : List UInt8} (edge : Edge rest)

include edge

theorem Edge.head?_ne {c : UInt8} (other : startsFiller c = false) : rest.head? ≠ some c := by
  intro head
  have starts := edge c head
  rw [other] at starts
  cases starts

theorem Edge.ends : ∀ b ∈ rest.head?, continuesWord b = false := by
  intro b head
  refine Bool.eq_false_iff.2 fun part => ?_
  have starts := edge b head
  have blank : isBlank b = false := by
    rcases Bool.or_eq_true_iff.1 part with word | digit
    · exact isBlank_of_startsWord word
    · exact isBlank_of_isDigit digit
  have apart := ne_of_class part
  rw [startsFiller, blank, beq_eq_false_iff_ne.2 (apart _ (by decide)),
    beq_eq_false_iff_ne.2 (apart _ (by decide)), beq_eq_false_iff_ne.2 (apart _ (by decide))] at starts
  cases starts

end Edge

section Extend

variable {xs rest : List UInt8} {b mark : UInt8} {seen n : Nat}

theorem takeWhile_extend {p : UInt8 → Bool} (short : (xs.takeWhile p).length < xs.length) :
    (xs ++ rest).takeWhile p = xs.takeWhile p := by
  rw [List.takeWhile_append, if_neg (Nat.ne_of_lt short)]

theorem lengthThrough_of_few {stop : List UInt8} (few : xs.length < stop.length) :
    lengthThrough stop xs seen = seen + xs.length := by
  induction xs generalizing seen with
  | nil => rfl
  | cons b xs ih =>
    have long : ¬ stop.isPrefixOf (b :: xs) := fun start =>
      absurd (List.isPrefixOf_iff_prefix.1 start).length_le (Nat.not_le_of_lt few)
    rw [List.length_cons] at few ⊢
    rw [lengthThrough, if_neg long, ih (by omega)]
    omega

theorem lengthThrough_extend {stop : List UInt8} (short : lengthThrough stop xs seen < seen + xs.length) :
    lengthThrough stop (xs ++ rest) seen = lengthThrough stop xs seen := by
  induction xs generalizing seen with
  | nil => exact absurd short (Nat.lt_irrefl _)
  | cons b xs ih =>
    rw [List.cons_append, lengthThrough, lengthThrough]
    by_cases found : stop.isPrefixOf (b :: xs)
    · have start : stop <+: b :: (xs ++ rest) :=
        (List.isPrefixOf_iff_prefix.1 found).trans (List.prefix_append (b :: xs) rest)
      rw [if_pos found, if_pos (List.isPrefixOf_iff_prefix.2 start)]
    -- Where a mark would reach into `rest`, the bytes from there on are too few to hold it.
    have room : stop.length ≤ (b :: xs).length := by
      refine Nat.le_of_not_lt fun few => ?_
      rw [lengthThrough_of_few few] at short
      exact Nat.lt_irrefl _ short
    have outside : ¬ stop.isPrefixOf (b :: (xs ++ rest)) := by
      rw [← List.cons_append, isPrefixOf_append_iff fun _ => room]
      exact found
    rw [lengthThrough, if_neg found, List.length_cons] at short
    rw [if_neg found, if_neg outside, ih (by omega)]

theorem quoted_extend {kind : Class}
    (unpaired : quotedLength? mark xs 0 = none → quotedLength? mark (xs ++ rest) 0 = none) :
    quoted kind mark (xs ++ rest) = quoted kind mark xs := by
  unfold quoted
  cases found : quotedLength? mark xs 0 with
  | none => rw [unpaired found]
  | some n => rw [quotedLength?_append_of_some rest found]

def Class.isLexeme : Class → Bool
  | .word | .number | .separator | .operator => true
  | _ => false

theorem front_extend (settled : (front b xs).2 < xs.length ∨ (front b xs).1.isLexeme) (edge : Edge rest)
    (unpaired : b = apostrophe ∨ b = quote → quotedLength? b xs 0 = none →
      quotedLength? b (xs ++ rest) 0 = none) : front b (xs ++ rest) = front b xs := by
  have short {kind : Class} {n : Nat} (plain : kind.isLexeme = false)
      (settled : n < xs.length ∨ kind.isLexeme) : n < xs.length := by
    simpa [plain] using settled
  unfold front at settled ⊢
  by_cases slash : b = byte '/'
  · simp only [if_pos slash] at settled ⊢
    have more : xs ≠ [] := by
      rintro rfl
      exact absurd settled (by decide)
    have head : (xs ++ rest).head? = xs.head? := by
      rw [List.head?_append, Option.or_of_isSome (by simpa using more)]
    rw [head]
    by_cases line : xs.head? = some (byte '/')
    · simp only [if_pos line] at settled ⊢
      rw [takeWhile_extend (short rfl settled)]
    by_cases block : xs.head? = some (byte '*')
    · obtain ⟨tail, rfl⟩ := List.head?_eq_some_iff.1 block
      simp only [if_neg line, if_pos block] at settled ⊢
      have inside := short rfl settled
      simp only [List.cons_append, List.tail_cons, List.length_cons] at inside ⊢
      rw [lengthThrough_extend (by omega)]
    · simp only [if_neg line, if_neg block]
  by_cases blank : isBlank b
  · simp only [if_neg slash, if_pos blank] at settled ⊢
    rw [takeWhile_extend (short rfl settled)]
  by_cases single : b = apostrophe
  · simp only [if_neg slash, if_neg blank, if_pos single] at settled ⊢
    exact quoted_extend (single ▸ unpaired (.inl single))
  by_cases double : b = quote
  · simp only [if_neg slash, if_neg blank, if_neg single, if_pos double] at settled ⊢
    have block : [quote, quote].isPrefixOf (xs ++ rest) ↔ [quote, quote].isPrefixOf xs := by
      refine isPrefixOf_append_iff fun start => ?_
      match xs, start, settled with
      | [], _, settled => exact absurd settled (by decide)
      -- One quote alone would have the other for its partner, and the cut behind it.
      | [c], start, settled =>
        have same : quote = c := eq_of_beq (Bool.and_eq_true_iff.1 start).1
        rw [← same] at settled
        exact absurd settled (by decide)
      | _ :: _ :: _, _, _ => simp
    by_cases start : [quote, quote].isPrefixOf xs
    · have two : 2 ≤ xs.length := (List.isPrefixOf_iff_prefix.1 start).length_le
      simp only [if_pos start, if_pos (block.2 start), List.drop_append_of_le_length two] at settled ⊢
      have inside := short rfl settled
      rw [lengthThrough_extend (by rw [List.length_drop]; omega)]
    · simp only [if_neg start, if_neg (mt block.1 start)]
      exact quoted_extend (double ▸ unpaired (.inr double))
  simp only [if_neg slash, if_neg blank, if_neg single, if_neg double] at settled ⊢
  by_cases word : startsWord b
  · simp only [if_pos word]
    rw [takeWhile_stop edge.ends]
  by_cases digit : isDigit b
  · simp only [if_neg word, if_pos digit]
    rw [numberLength_stop edge.ends (edge.head?_ne (by decide))]
  simp only [if_neg word, if_neg digit]
  have point := edge.head?_ne (c := byte '.') (by decide)
  have dots : [byte '.', byte '.'].isPrefixOf (xs ++ rest) ↔ [byte '.', byte '.'].isPrefixOf xs := by
    refine isPrefixOf_append_iff fun start => ?_
    obtain ⟨more, split⟩ := List.isPrefixOf_iff_prefix.1 start
    match xs, split with
    | [], split =>
      cases split
      exact absurd rfl point
    | [c], split =>
      cases (List.cons.inj split).2
      exact absurd rfl point
    | _ :: _ :: _, _ => simp
  have head {c : UInt8} (other : startsFiller c = false) :
      (xs ++ rest).head? = some c ↔ xs.head? = some c := by
    cases xs with
    | nil => simpa using edge.head?_ne other
    | cons => rfl
  have colon := head (c := byte ':') (by decide)
  have angle := head (c := byte '>') (by decide)
  simp only [dots, colon, angle]

end Extend

section Quoted

variable {mark b c : UInt8} {body rest : List UInt8}

theorem quotedLength?_plain (other : b ≠ mark) (line : b ≠ newline) (unescaped : b ≠ backslash)
    (seen : Nat) : quotedLength? mark (b :: rest) seen = quotedLength? mark rest (seen + 1) := by
  cases rest <;> simp [quotedLength?, other, line, unescaped]

theorem quotedLength?_escaped (other : mark ≠ backslash) (line : c ≠ newline) (seen : Nat) :
    quotedLength? mark (backslash :: c :: rest) seen = quotedLength? mark rest (seen + 2) := by
  rw [quotedLength?, if_neg other.symm, if_neg (by decide), if_pos rfl, if_neg line]

theorem quotedLength?_quotable (other : mark ≠ backslash) (inside : Quotable mark body) (seen : Nat) :
    quotedLength? mark (body ++ mark :: rest) seen = some (seen + body.length + 1) := by
  induction inside generalizing seen with
  | nil => cases rest <;> simp [quotedLength?]
  | plain apart line unescaped more ih =>
    rw [List.cons_append, quotedLength?_plain apart line unescaped, ih, List.length_cons]
    congr 1
    omega
  | escaped line more ih =>
    rw [List.cons_append, List.cons_append, quotedLength?_escaped other line, ih, List.length_cons,
      List.length_cons]
    congr 1
    omega

-- A quote that finds its partner across blanks finds it without them.
theorem exists_quotable_without {xs w after : List UInt8} (blank : ∀ b ∈ w, isBlank b)
    (plain : isBlank mark = false) (edge : xs.getLast? ≠ some backslash) (inside : Quotable mark body)
    (split : xs ++ (w ++ after) = body ++ mark :: rest) :
    ∃ body' rest', xs ++ after = body' ++ mark :: rest' ∧ Quotable mark body' := by
  have edge_tail {c : UInt8} {xs : List UInt8} (edge : (c :: xs).getLast? ≠ some backslash) :
      xs.getLast? ≠ some backslash := fun last => edge (by rw [List.getLast?_cons, last]; rfl)
  induction inside generalizing xs w with
  | nil =>
    match xs, w with
    | [], [] => exact ⟨[], rest, split, .nil⟩
    | [], c :: w =>
      have same : c = mark := (List.cons.inj split).1
      rw [← same, blank c (List.mem_cons_self ..)] at plain
      cases plain
    | c :: xs, w =>
      cases (List.cons.inj split).1
      exact ⟨[], xs ++ after, rfl, .nil⟩
  | @plain b body apart line unescaped more ih =>
    match xs, w with
    | [], [] => exact ⟨b :: body, rest, split, .plain apart line unescaped more⟩
    | [], c :: w =>
      have later : [] ++ (w ++ after) = body ++ mark :: rest := (List.cons.inj split).2
      exact ih (List.forall_mem_cons.1 blank).2 nofun later
    | c :: xs, w =>
      obtain ⟨rfl, later⟩ := List.cons.inj split
      obtain ⟨body', rest', split', inside⟩ := ih blank (edge_tail edge) later
      exact ⟨c :: body', rest', congrArg _ split', .plain apart line unescaped inside⟩
  | @escaped c body line more ih =>
    match xs, w with
    | [], [] => exact ⟨backslash :: c :: body, rest, split, .escaped line more⟩
    | [], d :: w =>
      have escape : isBlank d := blank d (List.mem_cons_self ..)
      rw [(List.cons.inj split).1] at escape
      exact absurd escape (by decide)
    | [d], w => exact absurd (congrArg some (List.cons.inj split).1) edge
    | d :: e :: xs, w =>
      obtain ⟨rfl, more⟩ := List.cons.inj split
      obtain ⟨rfl, later⟩ := List.cons.inj more
      obtain ⟨body', rest', split', inside⟩ := ih blank (edge_tail (edge_tail edge)) later
      exact ⟨backslash :: e :: body', rest', congrArg (backslash :: e :: ·) split', .escaped line inside⟩

theorem quotedLength?_blank {xs w after : List UInt8} (blank : ∀ b ∈ w, isBlank b)
    (plain : isBlank mark = false) (other : mark ≠ backslash) (edge : xs.getLast? ≠ some backslash)
    (unpaired : quotedLength? mark (xs ++ after) 0 = none) :
    quotedLength? mark (xs ++ (w ++ after)) 0 = none := by
  cases found : quotedLength? mark (xs ++ (w ++ after)) 0 with
  | none => rfl
  | some n =>
    obtain ⟨body, rest, split, inside, _⟩ := exists_quotable found
    obtain ⟨body', rest', split', inside'⟩ := exists_quotable_without blank plain edge inside split
    rw [split', quotedLength?_quotable other inside'] at unpaired
    cases unpaired

end Quoted

theorem front_quote_iff {b : UInt8} (quotes : b = apostrophe ∨ b = quote) (xs : List UInt8) :
    (front b xs).1 = .skipped ↔ quotedLength? b xs 0 = none := by
  have literal {kind : Class} (other : kind ≠ .skipped) (mark : UInt8) :
      (quoted kind mark xs).1 = .skipped ↔ quotedLength? mark xs 0 = none := by
    unfold quoted
    cases quotedLength? mark xs 0 <;> simp [other]
  rcases quotes with rfl | rfl
  · have front : front apostrophe xs = quoted .charLiteral apostrophe xs := rfl
    rw [front]
    exact literal (by decide) apostrophe
  · have front : front quote xs = if [quote, quote].isPrefixOf xs then
        (.textBlock, lengthThrough [quote, quote, quote] (xs.drop 2) 2)
      else quoted .stringLiteral quote xs := rfl
    rw [front]
    split
    · rename_i start
      obtain ⟨tail, rfl⟩ := List.isPrefixOf_iff_prefix.1 start
      exact ⟨nofun, nofun⟩
    · exact literal (by decide) quote

theorem isLexeme_of_lexeme? {p : Piece} {l : Lexeme} (found : p.lexeme? = some l) : p.kind.isLexeme := by
  obtain ⟨kind, bytes⟩ := p
  cases kind <;> first | rfl | cases found

theorem backslash_not_mem {p : Piece} (formed : p.Formed) (lexeme : p.kind.isLexeme) :
    backslash ∉ p.bytes := by
  have separatorBytes : ∀ text ∈ Lexeme.separators, backslash ∉ Utf8.encode text := by decide
  have operatorBytes : ∀ text ∈ Lexeme.operators, backslash ∉ Utf8.encode text := by decide
  obtain ⟨kind, bytes⟩ := p
  cases kind with
  | word =>
    cases bytes with
    | nil => exact List.not_mem_nil
    | cons b rest =>
      obtain ⟨starts, continues⟩ := Bool.and_eq_true_iff.1 formed
      rintro (_ | ⟨_, later⟩)
      · cases starts
      · cases List.all_eq_true.1 continues _ later
  | number =>
    intro mem
    cases Lexeme.part_of_isNumber formed _ mem
  | separator =>
    obtain ⟨text, known, rfl⟩ := List.mem_map.1 formed
    exact separatorBytes text known
  | operator =>
    obtain ⟨text, known, rfl⟩ := List.mem_map.1 formed
    exact operatorBytes text known
  | _ => cases lexeme

theorem pieces_extend {ps : List Piece} {after rest : List UInt8}
    (whole : pieces (text ps ++ after) = ps ++ pieces after)
    (ends : ∃ p ∈ ps.getLast?, p.kind.isLexeme) (edge : Edge rest)
    (unpaired : ∀ before b later, ps = before ++ ⟨.skipped, [b]⟩ :: later →
      b = apostrophe ∨ b = quote → quotedLength? b (text later ++ after) 0 = none →
      quotedLength? b (text later ++ rest) 0 = none) :
    pieces (text ps ++ rest) = ps ++ pieces rest := by
  induction ps with
  | nil =>
    obtain ⟨p, last, _⟩ := ends
    cases last
  | cons p ps ih =>
    obtain ⟨kind, bytes⟩ := p
    rw [List.cons_append] at whole
    obtain ⟨b, head, rfl, size, later⟩ := exists_front whole
    rw [text_append, text_pieces] at size later
    rw [← List.append_assoc] at size
    have next : pieces (text ps ++ rest) = ps ++ pieces rest := by
      cases ps with
      | nil => rfl
      | cons q qs =>
        refine ih later ?_ fun before b later' split => unpaired (_ :: before) b later' (congrArg _ split)
        simpa only [List.getLast?_cons_cons] using ends
    have alone : front b (head ++ text ps) = (kind, head.length) := by
      rw [← size]
      exact (front_append (by rw [size, List.length_append]; exact Nat.le_add_right _ _)).symm
    -- Another piece stands behind the first one, or it is the last one and makes a lexeme.
    have settled : (front b (head ++ text ps)).2 < (head ++ text ps).length ∨
        (front b (head ++ text ps)).1.isLexeme := by
      rw [alone]
      cases ps with
      | nil =>
        obtain ⟨p, last, lexeme⟩ := ends
        cases last
        exact .inr lexeme
      | cons q qs =>
        obtain ⟨kind', bytes'⟩ := q
        rw [List.cons_append] at later
        obtain ⟨_, _, rfl, _⟩ := exists_front later
        exact .inl (by simp [text])
    -- A quote without a partner is all that `rest` could make into another piece.
    have same : front b (head ++ text ps ++ rest) = (kind, head.length) := by
      refine (front_extend settled edge fun quotes none => ?_).trans alone
      have skipped : kind = .skipped := by
        rw [← front_quote_iff quotes, alone] at none
        exact none
      subst skipped
      have single : head = [] := by
        have whole := fits_front b (head ++ text ps)
        rw [alone, Fits, List.take_left, List.drop_left] at whole
        cases whole
        rfl
      subst single
      refine unpaired [] b ps rfl quotes ?_
      rw [← front_quote_iff quotes]
      exact congrArg Prod.fst size
    have split : text (⟨kind, b :: head⟩ :: ps) ++ rest = b :: (head ++ (text ps ++ rest)) := by
      simp [text]
    rw [List.append_assoc] at same
    rw [split, pieces_front same, next, List.cons_append]

section Fronts

variable {body : List UInt8} (rest : List UInt8)

theorem lengthThrough_first {stop : List UInt8} (nonempty : stop ≠ [])
    (first : ∀ before tail, body ++ stop = before ++ stop ++ tail → tail = []) (seen : Nat) :
    lengthThrough stop (body ++ stop ++ rest) seen = seen + body.length + stop.length := by
  induction body generalizing seen with
  | nil =>
    obtain ⟨b, more, rfl⟩ := List.exists_cons_of_ne_nil nonempty
    rw [List.nil_append, List.cons_append, lengthThrough, if_pos]
    · rfl
    · exact List.isPrefixOf_iff_prefix.2 ⟨rest, rfl⟩
  | cons b body ih =>
    have early : ¬ stop.isPrefixOf (b :: (body ++ stop ++ rest)) := by
      intro found
      have start : stop <+: b :: body ++ stop := by
        refine List.prefix_of_prefix_length_le (List.isPrefixOf_iff_prefix.1 found)
          (List.prefix_append (b :: body ++ stop) rest) ?_
        rw [List.length_append]
        exact Nat.le_add_left _ _
      obtain ⟨tail, split⟩ := start
      have none := first [] tail split.symm
      have lengths := congrArg List.length split
      simp only [none, List.length_append, List.length_cons, List.length_nil] at lengths
      omega
    rw [List.cons_append, List.cons_append, lengthThrough, if_neg early, ih]
    · rw [List.length_cons]
      omega
    · intro before tail split
      exact first (b :: before) tail (congrArg (b :: ·) split)

theorem first_of_unclosed (unclosed : ¬ [byte '*', byte '/'] <:+: body) (before tail : List UInt8)
    (split : body ++ [byte '*', byte '/'] = before ++ [byte '*', byte '/'] ++ tail) : tail = [] := by
  rcases List.eq_nil_or_concat tail with none | ⟨tail, last, rfl⟩
  · exact none
  have split' : body ++ [byte '*'] ++ [byte '/'] =
      before ++ [byte '*', byte '/'] ++ tail ++ [last] := by simpa using split
  obtain ⟨shorter, _⟩ := List.append_inj' split' rfl
  rcases List.eq_nil_or_concat tail with rfl | ⟨tail, last, rfl⟩
  · have split'' : body ++ [byte '*'] = before ++ [byte '*'] ++ [byte '/'] := by simpa using shorter
    exact absurd (List.append_inj' split'' rfl).2 (by decide)
  · have split'' : body ++ [byte '*'] = before ++ [byte '*', byte '/'] ++ tail ++ [last] := by
      simpa using shorter
    exact absurd ⟨before, tail, (List.append_inj' split'' rfl).1.symm⟩ unclosed

theorem front_blank {b : UInt8} (blank : isBlank b) (rest : List UInt8) :
    front b rest = (.blank, (rest.takeWhile isBlank).length) := by
  have slash : b ≠ byte '/' := ne_of_class blank _ (by decide)
  rw [front, if_neg slash, if_pos blank]

theorem front_lineComment (line : newline ∉ body) :
    front (byte '/') (byte '/' :: body ++ newline :: rest) =
      (.lineComment, (byte '/' :: body).length) := by
  have inside : ∀ b ∈ byte '/' :: body, (b != newline) = true := by
    simp only [List.forall_mem_cons]
    refine ⟨by decide, fun b mem => bne_iff_ne.2 ?_⟩
    rintro rfl
    exact line mem
  have stop : (byte '/' :: body ++ newline :: rest).takeWhile (· != newline) = byte '/' :: body := by
    rw [List.takeWhile_append_of_pos inside, List.takeWhile_cons_of_neg (by simp), List.append_nil]
  have front : front (byte '/') (byte '/' :: body ++ newline :: rest) =
      (.lineComment, ((byte '/' :: body ++ newline :: rest).takeWhile (· != newline)).length) := rfl
  rw [front, stop]

theorem front_blockComment (unclosed : ¬ [byte '*', byte '/'] <:+: body) :
    front (byte '/') (byte '*' :: (body ++ [byte '*', byte '/']) ++ rest) =
      (.blockComment, (byte '*' :: (body ++ [byte '*', byte '/'])).length) := by
  have length := lengthThrough_first rest (List.cons_ne_nil _ _) (first_of_unclosed unclosed) 1
  have front : front (byte '/') (byte '*' :: (body ++ [byte '*', byte '/']) ++ rest) =
      (.blockComment, lengthThrough [byte '*', byte '/'] (body ++ [byte '*', byte '/'] ++ rest) 1) := rfl
  rw [front, length]
  simp only [List.length_cons, List.length_append, List.length_nil]
  congr 1
  omega

theorem front_charLiteral (inside : Quotable apostrophe body) :
    front apostrophe (body ++ [apostrophe] ++ rest) = (.charLiteral, (body ++ [apostrophe]).length) := by
  have front : front apostrophe (body ++ [apostrophe] ++ rest) =
      quoted .charLiteral apostrophe (body ++ [apostrophe] ++ rest) := rfl
  rw [front, quoted, List.append_assoc, List.singleton_append,
    quotedLength?_quotable (by decide) inside]
  simp

theorem front_stringLiteral (inside : Quotable quote body) (nonempty : body ≠ []) :
    front quote (body ++ [quote] ++ rest) = (.stringLiteral, (body ++ [quote]).length) := by
  have single : ¬ [quote, quote].isPrefixOf (body ++ [quote] ++ rest) := by
    cases inside with
    | nil => exact absurd rfl nonempty
    | plain other => simp [List.isPrefixOf, other.symm]
    | escaped => exact nofun
  have front : front quote (body ++ [quote] ++ rest) =
      if [quote, quote].isPrefixOf (body ++ [quote] ++ rest) then
        (.textBlock, lengthThrough [quote, quote, quote] ((body ++ [quote] ++ rest).drop 2) 2)
      else quoted .stringLiteral quote (body ++ [quote] ++ rest) := rfl
  rw [front, if_neg single, quoted, List.append_assoc, List.singleton_append,
    quotedLength?_quotable (by decide) inside]
  simp

theorem front_textBlock (first : ∀ before rest,
      body ++ [quote, quote, quote] = before ++ [quote, quote, quote] ++ rest → rest = []) :
    front quote (quote :: quote :: (body ++ [quote, quote, quote]) ++ rest) =
      (.textBlock, (quote :: quote :: (body ++ [quote, quote, quote])).length) := by
  have length := lengthThrough_first rest (List.cons_ne_nil _ _) first 2
  have front : front quote (quote :: quote :: (body ++ [quote, quote, quote]) ++ rest) =
      (.textBlock, lengthThrough [quote, quote, quote] (body ++ [quote, quote, quote] ++ rest) 2) := rfl
  rw [front, length]
  simp only [List.length_cons, List.length_append, List.length_nil]
  congr 1
  omega

end Fronts

section Insert

variable {source w : List UInt8} {ps qs : List Piece} (split : pieces source = ps ++ qs)
  (ends : ∃ p ∈ ps.getLast?, p.kind.isLexeme)

include split ends

theorem getLast?_ne_backslash {before later : List Piece} {b : UInt8}
    (skipped : ps = before ++ ⟨.skipped, [b]⟩ :: later) : (text later).getLast? ≠ some backslash := by
  obtain ⟨p, last, lexeme⟩ := ends
  rw [skipped, List.getLast?_append, List.getLast?_cons, Option.some_or] at last
  cases Option.some.inj last
  rcases List.eq_nil_or_concat later with rfl | ⟨front, p, rfl⟩
  · cases lexeme
  have mem : p ∈ pieces source := by simp [split, skipped]
  rw [List.concat_eq_append, List.getLast?_concat, Option.getD_some] at lexeme
  have inside : p.bytes ≠ [] := bytes_ne_nil source p mem
  rw [List.concat_eq_append, text_append, List.getLast?_append]
  have own : text [p] = p.bytes := List.flatMap_singleton ..
  rw [own, List.getLast?_eq_some_getLast inside, Option.some_or]
  intro last
  refine backslash_not_mem (formed_of_mem mem) lexeme ?_
  rw [← Option.some.inj last]
  exact List.getLast_mem inside

theorem pieces_insert (filler : Filler w)
    (paired : (∀ b ∈ w, isBlank b) ∨ ∀ before b later, ps = before ++ ⟨.skipped, [b]⟩ :: later →
      b ≠ apostrophe ∧ b ≠ quote) :
    pieces (text ps ++ (w ++ text qs)) = ps ++ pieces (w ++ text qs) := by
  have whole : pieces (text ps ++ text qs) = ps ++ pieces (text qs) := by
    rw [(pieces_cut split).2, ← split, ← text_append, ← split, text_pieces]
  refine pieces_extend whole ends (filler.edge _) fun before b later skipped quotes unpaired => ?_
  rcases paired with blank | paired
  · have plain : isBlank b = false ∧ b ≠ backslash := by
      rcases quotes with rfl | rfl <;> decide
    exact quotedLength?_blank blank plain.1 plain.2 (getLast?_ne_backslash split ends skipped) unpaired
  · obtain ⟨single, double⟩ := paired before b later skipped
    exact (quotes.elim single double).elim

end Insert

theorem pieces_filler {w : List UInt8} (filler : Filler w) (rest : List UInt8) :
    ∃ bytes blanks, w = bytes ++ blanks ∧ (∀ b ∈ blanks, isBlank b) ∧
      (bytes = [] ∨ ∃ kind, kind.isLexeme = false ∧
        pieces (w ++ rest) = ⟨kind, bytes⟩ :: pieces (blanks ++ rest)) := by
  cases filler with
  | @blank b w all => exact ⟨[], b :: w, rfl, all, .inl rfl⟩
  | @lineComment body line =>
    refine ⟨byte '/' :: byte '/' :: body, [newline], by simp, List.forall_mem_singleton.2 rfl,
      .inr ⟨.lineComment, rfl, ?_⟩⟩
    simpa using pieces_front (front_lineComment rest line)
  | @blockComment body unclosed =>
    refine ⟨_, [], (List.append_nil _).symm, nofun, .inr ⟨.blockComment, rfl, ?_⟩⟩
    exact pieces_front (front_blockComment rest unclosed)
  | @charLiteral body inside =>
    refine ⟨_, [], (List.append_nil _).symm, nofun, .inr ⟨.charLiteral, rfl, ?_⟩⟩
    exact pieces_front (front_charLiteral rest inside)
  | @stringLiteral body inside nonempty =>
    refine ⟨_, [], (List.append_nil _).symm, nofun, .inr ⟨.stringLiteral, rfl, ?_⟩⟩
    exact pieces_front (front_stringLiteral rest inside nonempty)
  | @textBlock body first =>
    refine ⟨_, [], (List.append_nil _).symm, nofun, .inr ⟨.textBlock, rfl, ?_⟩⟩
    exact pieces_front (front_textBlock rest first)

end EditScope.Piece

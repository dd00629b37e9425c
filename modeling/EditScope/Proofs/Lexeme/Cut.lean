import EditScope.Proofs.Lexeme.Formed

set_option autoImplicit false

namespace EditScope.Piece

variable {xs after : List UInt8} {seen n : Nat}

theorem takeWhile_append_of_short {p : UInt8 → Bool}
    (short : ((xs ++ after).takeWhile p).length ≤ xs.length) :
    (xs ++ after).takeWhile p = xs.takeWhile p := by
  rw [List.takeWhile_append] at short ⊢
  split
  · rename_i whole
    rw [if_pos whole, List.length_append] at short
    have none : after.takeWhile p = [] := List.length_eq_zero_iff.1 (by omega)
    rw [none, List.append_nil, List.IsPrefix.eq_of_length (List.takeWhile_prefix p) whole]
  · rfl

theorem le_lengthThrough (stop xs : List UInt8) (seen : Nat) : seen ≤ lengthThrough stop xs seen := by
  induction xs generalizing seen with
  | nil => exact Nat.le_refl _
  | cons b rest ih =>
    rw [lengthThrough]
    split
    · exact Nat.le_add_right _ _
    · exact Nat.le_of_succ_le (ih (seen + 1))

theorem lengthThrough_le (stop xs : List UInt8) (seen : Nat) :
    lengthThrough stop xs seen ≤ seen + xs.length := by
  induction xs generalizing seen with
  | nil => exact Nat.le_refl _
  | cons b rest ih =>
    rw [lengthThrough]
    split
    · rename_i found
      exact Nat.add_le_add_left (List.isPrefixOf_iff_prefix.1 found).length_le seen
    · have := ih (seen + 1)
      rw [List.length_cons]
      omega

theorem lengthThrough_append {stop : List UInt8}
    (short : lengthThrough stop (xs ++ after) seen ≤ seen + xs.length) :
    lengthThrough stop (xs ++ after) seen = lengthThrough stop xs seen := by
  induction xs generalizing seen with
  | nil => exact Nat.le_antisymm short (le_lengthThrough stop after seen)
  | cons b rest ih =>
    rw [List.cons_append, lengthThrough] at short ⊢
    rw [lengthThrough]
    by_cases found : stop.isPrefixOf (b :: (rest ++ after))
    · rw [if_pos found] at short ⊢
      have start : stop <+: b :: rest ++ after := List.isPrefixOf_iff_prefix.1 found
      have inside : stop <+: b :: rest :=
        List.prefix_of_prefix_length_le start (List.prefix_append _ _) (by omega)
      rw [if_pos (List.isPrefixOf_iff_prefix.2 inside)]
    · rw [if_neg found] at short ⊢
      have outside : ¬ stop.isPrefixOf (b :: rest) := fun inside =>
        found (List.isPrefixOf_iff_prefix.2
          ((List.isPrefixOf_iff_prefix.1 inside).trans (List.prefix_append (b :: rest) after)))
      rw [if_neg outside]
      exact ih (by rw [List.length_cons] at short; omega)

theorem lt_quotedLength? {mark : UInt8} (found : quotedLength? mark xs seen = some n) : seen < n := by
  fun_induction quotedLength? mark xs seen <;> simp_all <;> omega

theorem quotedLength?_le {mark : UInt8} (found : quotedLength? mark xs seen = some n) :
    n ≤ seen + xs.length := by
  fun_induction quotedLength? mark xs seen <;> simp_all <;> omega

variable (after) in
theorem quotedLength?_append_of_some {mark : UInt8} (found : quotedLength? mark xs seen = some n) :
    quotedLength? mark (xs ++ after) seen = some n := by
  fun_induction quotedLength? mark xs seen with
  | case1 => simp at found
  | case2 seen =>
    cases after <;> simpa [quotedLength?] using found
  | case3 => simp at found
  | _ => simp_all [quotedLength?]

theorem quotedLength?_of_append {mark : UInt8}
    (found : quotedLength? mark (xs ++ after) seen = some n) (short : n ≤ seen + xs.length) :
    quotedLength? mark xs seen = some n := by
  fun_induction quotedLength? mark xs seen with
  | case1 seen =>
    have := lt_quotedLength? found
    simp at short
    omega
  | case2 seen => cases after <;> simpa [quotedLength?] using found
  | case3 b seen other =>
    -- A literal that goes on behind the cut is longer than what stands before it.
    cases after with
    | nil => simp [quotedLength?, other] at found
    | cons c rest =>
      simp only [List.cons_append, List.nil_append, quotedLength?, if_neg other] at found
      simp only [List.length_singleton] at short
      split at found
      · simp at found
      split at found
      · split at found
        · simp at found
        · have := lt_quotedLength? found
          omega
      · have := lt_quotedLength? found
        omega
  | case7 c rest seen newline other other' ih =>
    refine ih (by simpa [quotedLength?, other, other', newline] using found) ?_
    simp only [List.length_cons] at short
    omega
  | case8 b c rest seen other other' other'' ih =>
    refine ih (by simpa [quotedLength?, other, other', other''] using found) ?_
    simp only [List.length_cons] at short ⊢
    omega
  | _ => simp_all [quotedLength?]

theorem quoted_append {kind : Class} {mark : UInt8}
    (short : (quoted kind mark (xs ++ after)).2 ≤ xs.length) :
    quoted kind mark (xs ++ after) = quoted kind mark xs := by
  unfold quoted at short ⊢
  cases found : quotedLength? mark (xs ++ after) 0 with
  | some n =>
    rw [quotedLength?_of_append found (by simpa [found] using short)]
  | none =>
    cases found' : quotedLength? mark xs 0 with
    | none => rfl
    | some n =>
      have := quotedLength?_append_of_some after found'
      simp [found] at this

theorem numberLength_append (short : numberLength (xs ++ after) seen ≤ seen + xs.length) :
    numberLength (xs ++ after) seen = numberLength xs seen := by
  fun_induction numberLength xs seen with
  | case1 seen => exact Nat.le_antisymm short (le_numberLength after seen)
  | case2 b seen part =>
    rw [List.singleton_append, numberLength_part part] at short ⊢
    exact Nat.le_antisymm short (le_numberLength after (seen + 1))
  | case3 b seen part =>
    cases after with
    | nil => simp [numberLength, part]
    | cons c rest =>
      rw [List.singleton_append, numberLength, if_neg part] at short ⊢
      split
      · -- The point and the digit behind the cut would make the number longer.
        rename_i point
        rw [if_pos point] at short
        have := le_numberLength rest (seen + 2)
        simp only [List.length_singleton] at short
        omega
      · rfl
  | case4 b c rest seen part ih =>
    rw [List.cons_append, List.cons_append, numberLength, if_pos part] at short ⊢
    exact ih (by simp only [List.length_cons] at short ⊢; rw [List.cons_append]; omega)
  | case5 b c rest seen part point ih =>
    rw [List.cons_append, List.cons_append, numberLength, if_neg part, if_pos point] at short ⊢
    exact ih (by simp only [List.length_cons] at short; omega)
  | case6 b c rest seen part point =>
    rw [List.cons_append, List.cons_append, numberLength, if_neg part, if_neg point]

theorem quoted_le (kind : Class) (mark : UInt8) (xs : List UInt8) :
    (quoted kind mark xs).2 ≤ xs.length := by
  unfold quoted
  split
  · rename_i found
    simpa using quotedLength?_le found
  · exact Nat.zero_le _

theorem front_le (b : UInt8) (rest : List UInt8) : (front b rest).2 ≤ rest.length := by
  let motive (piece : Class × Nat) : Prop := piece.2 ≤ rest.length
  suffices motive (front b rest) from this
  have whole (p : UInt8 → Bool) : (rest.takeWhile p).length ≤ rest.length :=
    (List.takeWhile_prefix p).length_le
  have head {c : UInt8} (head : rest.head? = some c) : 1 ≤ rest.length := by
    obtain ⟨tail, rfl⟩ := List.head?_eq_some_iff.1 head
    exact Nat.le_add_left 1 tail.length
  have pair {c : UInt8} (start : [c, c].isPrefixOf rest) : 2 ≤ rest.length :=
    (List.isPrefixOf_iff_prefix.1 start).length_le
  unfold front
  refine iteInduction (fun _ => ?slash) fun _ => iteInduction (fun _ => whole _) fun _ =>
    iteInduction (fun _ => quoted_le ..) fun _ => iteInduction (fun _ => ?double) fun _ =>
    iteInduction (fun _ => whole _) fun _ => iteInduction (fun _ => ?number) fun _ =>
    iteInduction (fun long => pair long.2) fun _ => iteInduction (fun scope => head scope.2) fun _ =>
    iteInduction (fun arrow => head arrow.2) fun _ => iteInduction (fun _ => Nat.zero_le _) fun _ =>
    iteInduction (fun _ => Nat.zero_le _) fun _ => Nat.zero_le _
  case slash =>
    refine iteInduction (fun _ => whole _) fun _ => iteInduction (fun block => ?_) fun _ => Nat.zero_le _
    have := lengthThrough_le [byte '*', byte '/'] rest.tail 1
    have := head block
    simp only [List.length_tail] at *
    show _ ≤ _
    omega
  case double =>
    refine iteInduction (fun block => ?_) fun _ => quoted_le ..
    have := lengthThrough_le [quote, quote, quote] (rest.drop 2) 2
    have := pair block
    simp only [List.length_drop] at *
    show _ ≤ _
    omega
  case number => simpa using numberLength_le rest 0

theorem head?_append_iff {c : UInt8} (room : (xs ++ after).head? = some c → 0 < xs.length) :
    (xs ++ after).head? = some c ↔ xs.head? = some c := by
  cases xs with
  | nil => exact ⟨fun head => absurd (room head) (Nat.lt_irrefl 0), nofun⟩
  | cons b rest => rfl

theorem isPrefixOf_append_iff {stop : List UInt8}
    (room : stop.isPrefixOf (xs ++ after) → stop.length ≤ xs.length) :
    stop.isPrefixOf (xs ++ after) ↔ stop.isPrefixOf xs := by
  rw [List.isPrefixOf_iff_prefix, List.isPrefixOf_iff_prefix] at *
  refine ⟨fun start => ?_, fun start => start.trans (List.prefix_append xs after)⟩
  exact List.prefix_of_prefix_length_le start (List.prefix_append xs after) (room start)

theorem front_append {b : UInt8} (short : (front b (xs ++ after)).2 ≤ xs.length) :
    front b (xs ++ after) = front b xs := by
  unfold front at short ⊢
  by_cases slash : b = byte '/'
  · simp only [if_pos slash] at short ⊢
    -- If a second mark came from behind the cut, the piece would reach over it.
    have line : (xs ++ after).head? = some (byte '/') ↔ xs.head? = some (byte '/') := by
      refine head?_append_iff fun head => ?_
      obtain ⟨tail, whole⟩ := List.head?_eq_some_iff.1 head
      rw [if_pos head, whole, List.takeWhile_cons_of_pos (by decide), List.length_cons] at short
      omega
    by_cases head : xs.head? = some (byte '/')
    · simp only [if_pos head, if_pos (line.2 head)] at short ⊢
      rw [takeWhile_append_of_short short]
    simp only [if_neg head, if_neg (mt line.1 head)] at short ⊢
    have block : (xs ++ after).head? = some (byte '*') ↔ xs.head? = some (byte '*') := by
      refine head?_append_iff fun head => ?_
      rw [if_pos head] at short
      exact Nat.lt_of_lt_of_le Nat.one_pos (Nat.le_trans (le_lengthThrough ..) short)
    by_cases head' : xs.head? = some (byte '*')
    · obtain ⟨tail, rfl⟩ := List.head?_eq_some_iff.1 head'
      simp only [if_pos head', if_pos (block.2 head')] at short ⊢
      simp only [List.cons_append, List.tail_cons, List.length_cons] at short ⊢
      rw [lengthThrough_append (by omega)]
    · simp only [if_neg head', if_neg (mt block.1 head')]
  by_cases blank : isBlank b
  · simp only [if_neg slash, if_pos blank] at short ⊢
    rw [takeWhile_append_of_short short]
  by_cases single : b = apostrophe
  · simp only [if_neg slash, if_neg blank, if_pos single] at short ⊢
    exact quoted_append short
  by_cases double : b = quote
  · simp only [if_neg slash, if_neg blank, if_neg single, if_pos double] at short ⊢
    have block : [quote, quote].isPrefixOf (xs ++ after) ↔ [quote, quote].isPrefixOf xs := by
      refine isPrefixOf_append_iff fun start => ?_
      rw [if_pos start] at short
      exact Nat.le_trans (le_lengthThrough ..) short
    by_cases start : [quote, quote].isPrefixOf xs
    · have two : 2 ≤ xs.length := (List.isPrefixOf_iff_prefix.1 start).length_le
      simp only [if_pos start, if_pos (block.2 start), List.drop_append_of_le_length two] at short ⊢
      rw [lengthThrough_append (by rw [List.length_drop]; omega)]
    · simp only [if_neg start, if_neg (mt block.1 start)] at short ⊢
      exact quoted_append short
  simp only [if_neg slash, if_neg blank, if_neg single, if_neg double] at short ⊢
  by_cases word : startsWord b
  · simp only [if_pos word] at short ⊢
    rw [takeWhile_append_of_short short]
  by_cases digit : isDigit b
  · simp only [if_neg word, if_pos digit] at short ⊢
    rw [numberLength_append (by omega)]
  simp only [if_neg word, if_neg digit] at short ⊢
  have dots : b = byte '.' ∧ [byte '.', byte '.'].isPrefixOf (xs ++ after) ↔
      b = byte '.' ∧ [byte '.', byte '.'].isPrefixOf xs := by
    refine and_congr_right fun point => isPrefixOf_append_iff fun start => ?_
    rw [if_pos ⟨point, start⟩] at short
    exact short
  by_cases long : b = byte '.' ∧ [byte '.', byte '.'].isPrefixOf xs
  · rw [if_pos long, if_pos (dots.2 long)]
  simp only [if_neg long, if_neg (mt dots.1 long)] at short ⊢
  have colons : b = byte ':' ∧ (xs ++ after).head? = some (byte ':') ↔
      b = byte ':' ∧ xs.head? = some (byte ':') := by
    refine and_congr_right fun colon => head?_append_iff fun head => ?_
    rw [if_pos ⟨colon, head⟩] at short
    exact short
  by_cases scope : b = byte ':' ∧ xs.head? = some (byte ':')
  · rw [if_pos scope, if_pos (colons.2 scope)]
  simp only [if_neg scope, if_neg (mt colons.1 scope)] at short ⊢
  have arrows : b = byte '-' ∧ (xs ++ after).head? = some (byte '>') ↔
      b = byte '-' ∧ xs.head? = some (byte '>') := by
    refine and_congr_right fun minus => head?_append_iff fun head => ?_
    rw [if_pos ⟨minus, head⟩] at short
    exact short
  by_cases arrow : b = byte '-' ∧ xs.head? = some (byte '>')
  · rw [if_pos arrow, if_pos (arrows.2 arrow)]
  · rw [if_neg arrow, if_neg (mt arrows.1 arrow)]

def text (ps : List Piece) : List UInt8 := ps.flatMap bytes

theorem text_append (ps qs : List Piece) : text (ps ++ qs) = text ps ++ text qs :=
  List.flatMap_append

theorem text_pieces (source : List UInt8) : text (pieces source) = source := by
  rw [text, List.flatMap, pieces_flatten]

theorem pieces_front {b : UInt8} {head rest : List UInt8} {kind : Class}
    (size : front b (head ++ rest) = (kind, head.length)) :
    pieces (b :: (head ++ rest)) = ⟨kind, b :: head⟩ :: pieces rest := by
  rw [pieces_cons, size, List.take_left, List.drop_left]

theorem exists_front {source : List UInt8} {kind : Class} {bytes : List UInt8} {ps : List Piece}
    (cut : pieces source = ⟨kind, bytes⟩ :: ps) :
    ∃ b head, bytes = b :: head ∧ front b (head ++ text ps) = (kind, head.length) ∧
      pieces (text ps) = ps := by
  cases source with
  | nil => simp [pieces_nil] at cut
  | cons b rest =>
    rw [pieces_cons] at cut
    obtain ⟨first, rfl⟩ := List.cons.inj cut
    obtain ⟨rfl, rfl⟩ := Piece.mk.inj first
    refine ⟨b, _, rfl, ?_, by rw [text_pieces]⟩
    rw [text_pieces, List.take_append_drop, List.length_take_of_le (front_le b rest)]

theorem pieces_cut {source : List UInt8} {ps qs : List Piece} (cut : pieces source = ps ++ qs) :
    pieces (text ps) = ps ∧ pieces (text qs) = qs := by
  induction ps generalizing source with
  | nil =>
    refine ⟨pieces_nil, ?_⟩
    rw [← show pieces source = qs from cut, text_pieces]
  | cons p ps ih =>
    obtain ⟨kind, bytes⟩ := p
    rw [List.cons_append] at cut
    obtain ⟨b, head, rfl, size, later⟩ := exists_front cut
    obtain ⟨before, after⟩ := ih later
    refine ⟨?_, after⟩
    -- The first piece ends by the cut, so it does not see what stands behind the cut.
    rw [text_append, ← List.append_assoc] at size
    have alone : front b (head ++ text ps) = (kind, head.length) := by
      rw [← size]
      exact (front_append (by rw [size, List.length_append]; exact Nat.le_add_right _ _)).symm
    have whole : text (⟨kind, b :: head⟩ :: ps) = b :: (head ++ text ps) := rfl
    rw [whole, pieces_front alone, before]

end EditScope.Piece

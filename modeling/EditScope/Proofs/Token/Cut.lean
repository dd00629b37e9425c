import EditScope.Proofs.Lexeme.Cut
import EditScope.Proofs.Token.Splice

set_option autoImplicit false

namespace EditScope

namespace Token

theorem placed_append (offset : Nat) (ps qs : List Piece) :
    placed offset (ps ++ qs) = placed offset ps ++ placed (offset + Piece.total ps) qs := by
  induction ps generalizing offset with
  | nil => simp [placed, Piece.total]
  | cons p ps ih =>
    have total : Piece.total (p :: ps) = p.bytes.length + Piece.total ps := by simp [Piece.total]
    rw [List.cons_append, placed, placed, ih, List.append_assoc, total, Nat.add_assoc]

theorem placed_shift (offset n : Nat) (ps : List Piece) :
    placed (offset + n) ps = (placed offset ps).map (shift n) := by
  induction ps generalizing offset with
  | nil => rfl
  | cons p ps ih =>
    rw [placed, placed, List.map_append, ← ih, Nat.add_right_comm]
    cases p.lexeme? <;> rfl

theorem exists_piece {offset k : Nat} {pieces : List Piece} {t : Token}
    (here : (placed offset pieces)[k]? = some t) :
    ∃ ps p qs, pieces = ps ++ p :: qs ∧ (placed offset ps).length = k ∧ p.lexeme? = some t.lexeme ∧
      t.offset = offset + Piece.total ps ∧ t.length = p.bytes.length := by
  induction pieces generalizing offset k with
  | nil => simp [placed] at here
  | cons p pieces ih =>
    -- A token of the pieces behind `p` is one of all the pieces, `p` before it.
    have later {j : Nat} (rest : (placed (offset + p.bytes.length) pieces)[j]? = some t) :
        ∃ ps q qs, p :: pieces = p :: ps ++ q :: qs ∧
          (placed (offset + p.bytes.length) ps).length = j ∧ q.lexeme? = some t.lexeme ∧
          t.offset = offset + Piece.total (p :: ps) ∧ t.length = q.bytes.length := by
      obtain ⟨ps, q, qs, rfl, length, lexeme, start, bytes⟩ := ih rest
      refine ⟨ps, q, qs, rfl, length, lexeme, ?_, bytes⟩
      rw [start]
      simp [Piece.total, Nat.add_assoc]
    rw [placed] at here
    cases lexeme : p.lexeme? with
    | none =>
      rw [lexeme] at here
      obtain ⟨ps, q, qs, split, length, rest⟩ := later here
      exact ⟨p :: ps, q, qs, split, by simpa [placed, lexeme] using length, rest⟩
    | some l =>
      rw [lexeme] at here
      cases k with
      | zero =>
        cases Option.some.inj here
        exact ⟨[], p, pieces, rfl, rfl, lexeme, rfl, rfl⟩
      | succ k =>
        obtain ⟨ps, q, qs, split, length, rest⟩ := later here
        exact ⟨p :: ps, q, qs, split, by simpa [placed, lexeme] using length, rest⟩

theorem exists_piece_of_token {source : List UInt8} {k : Nat} {t : Token}
    (here : (ofSource source)[k]? = some t) :
    ∃ ps qs, Piece.pieces source = ps ++ qs ∧ (placed 0 ps).length = k + 1 ∧
      t.stop = (Piece.text ps).length ∧ ∃ p ∈ ps.getLast?, p.lexeme? = some t.lexeme := by
  rw [← Array.getElem?_toList, toList_ofSource] at here
  obtain ⟨ps, p, qs, split, length, lexeme, start, bytes⟩ := exists_piece here
  refine ⟨ps ++ [p], qs, by rw [split, List.append_cons], ?_, ?_, p, by simp, lexeme⟩
  · rw [placed_append]
    simp [placed, lexeme, length]
  · rw [Token.stop, start, bytes]
    simp [Piece.total, Piece.text]

theorem ofSource_cut {source : List UInt8} {k : Nat} {t : Token}
    (here : (ofSource source)[k]? = some t) :
    (ofSource (source.take t.stop)).size = k + 1 ∧
      (ofSource source).toList = (ofSource (source.take t.stop)).toList ++
        (ofSource (source.drop t.stop)).toList.map (shift t.stop) := by
  obtain ⟨ps, qs, split, length, stop, _⟩ := exists_piece_of_token here
  obtain ⟨before, after⟩ := Piece.pieces_cut split
  have whole : source = Piece.text ps ++ Piece.text qs := by
    rw [← Piece.text_append, ← split, Piece.text_pieces]
  have first : source.take t.stop = Piece.text ps := by
    rw [stop, whole, List.take_left]
  have second : source.drop t.stop = Piece.text qs := by
    rw [stop, whole, List.drop_left]
  refine ⟨?_, ?_⟩
  · rw [← Array.length_toList, toList_ofSource, first, before, length]
  · rw [toList_ofSource, toList_ofSource, toList_ofSource, first, second, before, after, split,
      ← placed_shift, placed_append, stop]
    rfl

theorem ofSource_resumes {source : List UInt8} {t : Token} (mem : t ∈ ofSource source) :
    (ofSource source).toList = (ofSource (source.take t.stop)).toList ++
      (ofSource (source.drop t.stop)).toList.map (shift t.stop) := by
  obtain ⟨k, here⟩ := Array.mem_iff_getElem?.1 mem
  exact (ofSource_cut here).2

theorem ofSource_resumes_unclosed :
    let source := "x = ' \"y; /* z".toList.map Piece.byte
    let t : Token := ⟨⟨.identifier, "y"⟩, 7, 1⟩
    t ∈ ofSource source ∧ (ofSource source).size = 4 ∧
      (ofSource source).toList = (ofSource (source.take 8)).toList ++
        (ofSource (source.drop 8)).toList.map (shift 8) := by
  intro source t
  have mem : t ∈ ofSource source := by decide +kernel
  exact ⟨mem, by decide +kernel, ofSource_resumes mem⟩

-- The end of a token of the first part alone is not enough: the number goes on behind the cut.
example : (ofSource ("1.5".toList.map Piece.byte)).size = 1 ∧
    (ofSource ("1".toList.map Piece.byte)).size = 1 ∧ (ofSource (".5".toList.map Piece.byte)).size = 2 := by
  decide +kernel

end Token

end EditScope

import EditScope.Proofs.Lexeme.Filler
import EditScope.Proofs.Token.Regions

set_option autoImplicit false

namespace EditScope.Token

variable {source w rest : List UInt8} {ps qs : List Piece} {p : Nat}

theorem placed_drop {kind : Piece.Class} (plain : kind.isLexeme = false) (offset : Nat)
    (bytes : List UInt8) (ps : List Piece) :
    placed offset (⟨kind, bytes⟩ :: ps) = placed (offset + bytes.length) ps := by
  cases kind <;> first | rfl | cases plain

theorem placed_blank {b : UInt8} (blank : Piece.isBlank b) (offset : Nat) (rest : List UInt8) :
    placed offset (Piece.pieces (b :: rest)) = placed (offset + 1) (Piece.pieces rest) := by
  have first {c : UInt8} (blank : Piece.isBlank c) (offset : Nat) (rest : List UInt8) :
      placed offset (Piece.pieces (c :: rest)) =
        placed (offset + (rest.takeWhile Piece.isBlank).length + 1)
          (Piece.pieces (rest.dropWhile Piece.isBlank)) := by
    have size : Piece.front c (rest.takeWhile Piece.isBlank ++ rest.dropWhile Piece.isBlank) =
        (.blank, (rest.takeWhile Piece.isBlank).length) := by
      rw [List.takeWhile_append_dropWhile, Piece.front_blank blank]
    have pieces := Piece.pieces_front size
    rw [List.takeWhile_append_dropWhile] at pieces
    rw [pieces, placed_drop rfl, List.length_cons, Nat.add_assoc]
  rw [first blank]
  -- A blank run loses its first byte, and is gone when it had no other.
  match rest with
  | [] => rfl
  | c :: rest =>
    by_cases more : Piece.isBlank c
    · rw [first more, List.takeWhile_cons_of_pos more, List.dropWhile_cons_of_pos more,
        List.length_cons]
      congr 1
      omega
    · rw [List.takeWhile_cons_of_neg more, List.dropWhile_cons_of_neg more]
      rfl

theorem placed_blanks (blank : ∀ b ∈ w, Piece.isBlank b) (offset : Nat) (rest : List UInt8) :
    placed offset (Piece.pieces (w ++ rest)) = placed (offset + w.length) (Piece.pieces rest) := by
  induction w generalizing offset with
  | nil => rfl
  | cons b w ih =>
    obtain ⟨first, later⟩ := List.forall_mem_cons.1 blank
    rw [List.cons_append, placed_blank first, ih later, List.length_cons, Nat.add_assoc,
      Nat.add_comm 1]

theorem placed_filler (filler : Piece.Filler w) (offset : Nat) (rest : List UInt8) :
    placed offset (Piece.pieces (w ++ rest)) = placed (offset + w.length) (Piece.pieces rest) := by
  obtain ⟨bytes, blanks, rfl, blank, rfl | ⟨kind, plain, first⟩⟩ := Piece.pieces_filler filler rest
  · exact placed_blanks blank offset rest
  · rw [first, placed_drop plain, placed_blanks blank, List.length_append, Nat.add_assoc]

theorem mem_skipped {b : UInt8} (split : Piece.pieces source = ps ++ ⟨.skipped, [b]⟩ :: qs) :
    (Piece.text ps).length ∈ skipped source ∧ source[(Piece.text ps).length]? = some b := by
  have region (offset : Nat) : ⟨.skipped, offset + (Piece.text ps).length,
      offset + (Piece.text ps).length + 1⟩ ∈ regionsFrom offset (ps ++ ⟨.skipped, [b]⟩ :: qs) := by
    clear split
    induction ps generalizing offset with
    | nil => exact List.mem_cons_self ..
    | cons q ps ih =>
      have total : (Piece.text (q :: ps)).length = q.bytes.length + (Piece.text ps).length := by
        simp [Piece.text]
      rw [total, ← Nat.add_assoc]
      exact List.mem_cons_of_mem _ (ih (offset + q.bytes.length))
  constructor
  · have mem := region 0
    rw [← split, Nat.zero_add] at mem
    exact List.mem_map.2 ⟨_, List.mem_filter.2 ⟨mem, rfl⟩, rfl⟩
  · rw [← Piece.text_pieces source, split, Piece.text_append]
    simp [Piece.text]

theorem map_shift_behind (n : Nat) (split : Piece.pieces source = ps ++ qs) :
    (ofSource source).toList.map (fun t => if t.stop ≤ (Piece.text ps).length then t else shift n t) =
      placed 0 ps ++ placed ((Piece.text ps).length + n) qs := by
  have proper := Piece.bytes_ne_nil source
  simp only [split, List.mem_append] at proper
  have before := placed_ordered 0 ps fun q mem => proper q (.inl mem)
  have behind := placed_ordered (Piece.text ps).length qs fun q mem => proper q (.inr mem)
  have size : 0 + Piece.total ps = (Piece.text ps).length := Nat.zero_add _
  rw [toList_ofSource, split, placed_append, List.map_append, size, placed_shift _ n]
  congr 1
  · refine (List.map_congr_left fun t mem => ?_).trans (List.map_id _)
    exact if_pos (size ▸ (before.within t mem).2)
  · refine List.map_congr_left fun t mem => ?_
    exact if_neg (Nat.not_le_of_lt (Nat.lt_of_le_of_lt (behind.within t mem).1 (behind.nonempty t mem)))

theorem ofSource_insert (place : p = 0 ∨ ∃ t ∈ ofSource source, t.stop = p) (filler : Piece.Filler w)
    (paired : (∀ b ∈ w, Piece.isBlank b) ∨ ∀ i ∈ skipped source, i < p →
      source[i]? ≠ some Piece.apostrophe ∧ source[i]? ≠ some Piece.quote) :
    (ofSource (source.take p ++ w ++ source.drop p)).toList =
      (ofSource source).toList.map fun t => if t.stop ≤ p then t else shift w.length t := by
  obtain ⟨ps, qs, split, rfl, whole⟩ : ∃ ps qs, Piece.pieces source = ps ++ qs ∧
      p = (Piece.text ps).length ∧ Piece.pieces (Piece.text ps ++ (w ++ Piece.text qs)) =
        ps ++ Piece.pieces (w ++ Piece.text qs) := by
    rcases place with rfl | ⟨t, mem, rfl⟩
    · exact ⟨[], Piece.pieces source, rfl, rfl, rfl⟩
    · obtain ⟨k, here⟩ := Array.mem_iff_getElem?.1 mem
      obtain ⟨ps, qs, split, _, stop, q, last, lexeme⟩ := exists_piece_of_token here
      refine ⟨ps, qs, split, stop, ?_⟩
      refine Piece.pieces_insert split ⟨q, last, Piece.isLexeme_of_lexeme? lexeme⟩ filler ?_
      refine paired.imp_right fun paired before b later skipped => ?_
      have split' : Piece.pieces source = before ++ ⟨.skipped, [b]⟩ :: (later ++ qs) := by
        rw [split, skipped, List.append_assoc, List.cons_append]
      obtain ⟨mem, byte⟩ := mem_skipped split'
      have apart := paired _ mem (by rw [stop, skipped]; simp [Piece.text])
      rw [byte] at apart
      exact ⟨fun same => apart.1 (congrArg some same), fun same => apart.2 (congrArg some same)⟩
  have parts : source = Piece.text ps ++ Piece.text qs := by
    rw [← Piece.text_append, ← split, Piece.text_pieces]
  have size : 0 + Piece.total ps = (Piece.text ps).length := Nat.zero_add _
  rw [map_shift_behind w.length split]
  conv => lhs; rw [parts, List.take_left, List.drop_left, List.append_assoc]
  rw [toList_ofSource, whole, placed_append, placed_filler filler, (Piece.pieces_cut split).2, size]

theorem ofSource_insert_literal :
    let source := "f(x); '".toList.map Piece.byte
    let literal := "\"\\\"\x7d\"".toList.map Piece.byte
    skipped source = [6] ∧
      (ofSource (source.take 2 ++ literal ++ source.drop 2)).toList =
        (ofSource source).toList.map fun t => if t.stop ≤ 2 then t else shift 5 t := by
  intro source literal
  have alone : skipped source = [6] := by decide +kernel
  have opened : (⟨⟨.separator, "("⟩, 1, 1⟩ : Token) ∈ ofSource source := by decide +kernel
  have inside : Piece.Quotable Piece.quote [Piece.backslash, Piece.quote, Piece.byte '\x7d'] :=
    .escaped (by decide) (.plain (by decide) (by decide) (by decide) .nil)
  have filler : Piece.Filler literal := .stringLiteral inside nofun
  refine ⟨alone, ofSource_insert (.inr ⟨_, opened, rfl⟩) filler (.inr fun i mem before => ?_)⟩
  rw [alone, List.mem_singleton] at mem
  omega

-- Behind a quote that has no partner yet, the literal gives it one.
example : (ofSource ("x ' y".toList.map Piece.byte)).size = 2 ∧
    (ofSource ("x ' y'\x7b'".toList.map Piece.byte)).size = 2 ∧
    (ofSource ("x ' y'\x7b'".toList.map Piece.byte))[1]? = some ⟨⟨.separator, "\x7b"⟩, 6, 1⟩ := by
  decide +kernel

end EditScope.Token

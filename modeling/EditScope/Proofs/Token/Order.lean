import EditScope.Token

set_option autoImplicit false

namespace EditScope

namespace Piece

theorem bytes_ne_nil (source : List UInt8) : ∀ p ∈ pieces source, p.bytes ≠ [] := by
  induction len : source.length using Nat.strongRecOn generalizing source with
  | ind _ shorter =>
    cases source with
    | nil => simp [pieces_nil]
    | cons b rest =>
      have tail := shorter _ (by simp at len ⊢; omega) (rest.drop (front b rest).2) rfl
      rw [pieces_cons]
      simpa using tail

def total (pieces : List Piece) : Nat := (pieces.flatMap (·.bytes)).length

theorem total_pieces (source : List UInt8) : total (pieces source) = source.length := by
  rw [total, List.flatMap, pieces_flatten]

end Piece

namespace Token

def placed (offset : Nat) : List Piece → List Token
  | [] => []
  | p :: ps =>
    (p.lexeme?.map (⟨·, offset, p.bytes.length⟩)).toList ++ placed (offset + p.bytes.length) ps

theorem foldl_add (state : Placed) (pieces : List Piece) :
    (pieces.foldl Placed.add state).tokens.toList =
      state.tokens.toList ++ placed state.offset pieces := by
  induction pieces generalizing state with
  | nil => simp [placed]
  | cons p ps ih =>
    rw [List.foldl_cons, ih, placed]
    cases found : p.lexeme? <;> simp [Placed.add, found]

theorem toList_ofSource (source : List UInt8) :
    (ofSource source).toList = placed 0 (Piece.pieces source) := by
  simp [ofSource, foldl_add]

structure Ordered (tokens : List Token) (low high : Nat) : Prop where
  nonempty : ∀ t ∈ tokens, t.offset < t.stop
  within : ∀ t ∈ tokens, low ≤ t.offset ∧ t.stop ≤ high
  apart : tokens.Pairwise fun s t => s.stop ≤ t.offset

theorem placed_ordered (offset : Nat) (pieces : List Piece) (proper : ∀ p ∈ pieces, p.bytes ≠ []) :
    Ordered (placed offset pieces) offset (offset + Piece.total pieces) := by
  induction pieces generalizing offset with
  | nil => exact ⟨by simp [placed], by simp [placed], by simp [placed]⟩
  | cons p ps ih =>
    obtain ⟨nonempty, within, apart⟩ :=
      ih (offset + p.bytes.length) (fun q mem => proper q (List.mem_cons_of_mem _ mem))
    have positive := List.length_pos_iff.2 (proper p (List.mem_cons_self ..))
    have total : Piece.total (p :: ps) = p.bytes.length + Piece.total ps := by
      simp [Piece.total]
    have inner : ∀ t ∈ placed (offset + p.bytes.length) ps,
        offset ≤ t.offset ∧ t.stop ≤ offset + Piece.total (p :: ps) := by
      intro t mem
      have := within t mem
      omega
    unfold placed
    cases p.lexeme? with
    | none => exact ⟨nonempty, inner, apart⟩
    | some l =>
      simp only [Option.map_some, Option.toList_some, List.singleton_append]
      refine ⟨?_, ?_, List.pairwise_cons.2 ⟨fun t mem => (within t mem).1, apart⟩⟩
      · exact List.forall_mem_cons.2 ⟨by simp only [stop]; omega, nonempty⟩
      · exact List.forall_mem_cons.2 ⟨by simp only [stop]; omega, inner⟩

theorem ofSource_ordered (source : List UInt8) :
    Ordered (ofSource source).toList 0 source.length := by
  have ordered := placed_ordered 0 (Piece.pieces source) (Piece.bytes_ne_nil source)
  rw [Piece.total_pieces, Nat.zero_add] at ordered
  rw [toList_ofSource]
  exact ordered

namespace Ordered

variable {tokens : Array Token} {low high i j : Nat} {s t : Token}

theorem within_at (ordered : Ordered tokens.toList low high) (here : tokens[i]? = some t) :
    low ≤ t.offset ∧ t.offset < t.stop ∧ t.stop ≤ high := by
  have mem : t ∈ tokens.toList := by simpa using Array.mem_of_getElem? here
  exact ⟨(ordered.within t mem).1, ordered.nonempty t mem, (ordered.within t mem).2⟩

theorem stop_le_offset (ordered : Ordered tokens.toList low high) (less : i < j)
    (first : tokens[i]? = some s) (second : tokens[j]? = some t) : s.stop ≤ t.offset := by
  obtain ⟨_, rfl⟩ := Array.getElem?_eq_some_iff.1 first
  obtain ⟨inside, rfl⟩ := Array.getElem?_eq_some_iff.1 second
  exact List.pairwise_iff_getElem.1 ordered.apart i j (by simp; omega) (by simpa using inside) less

end Ordered

end Token

end EditScope

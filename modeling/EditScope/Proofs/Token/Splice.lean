import EditScope.Proofs.Bracket.Splice
import EditScope.Proofs.Token.Order

set_option autoImplicit false

namespace EditScope.Token

def shift (n : Nat) (t : Token) : Token := { t with offset := t.offset + n }

/-- No token of `a ++ x ++ b` reaches over a seam, and none depends on what lies beyond one. -/
def Piecewise (a x b : List UInt8) : Prop :=
  (ofSource (a ++ x ++ b)).toList =
    (ofSource a).toList ++ (ofSource x).toList.map (shift a.length) ++
      (ofSource b).toList.map (shift (a.length + x.length))

instance (a x b : List UInt8) : Decidable (Piecewise a x b) := inferInstanceAs (Decidable (_ = _))

def lexemes (source : List UInt8) : List Lexeme := (ofSource source).toList.map lexeme

abbrev splice (a x y : List UInt8) : Splice :=
  ⟨(ofSource a).size, (ofSource x).size, (ofSource y).size⟩

def move (s : Splice) (t : Token) : Token := { t with offset := s.move t.offset }

variable {a x y b : List UInt8} {i : Nat} {t : Token}

theorem replacing_lexemes (a x y : List UInt8) :
    Splice.replacing (lexemes a) (lexemes x) (lexemes y) = splice a x y := by
  simp [lexemes]

theorem has_lexemes {source : List UInt8} (here : (ofSource source)[i]? = some t)
    (p : Lexeme → Bool) : (Bracketed.ofLexemes (lexemes source)).has p i = p t.lexeme := by
  simp [Bracketed.has, Bracketed.ofLexemes, lexemes, here]

theorem Piecewise.lexemes_eq (pieces : Piecewise a x b) :
    lexemes (a ++ x ++ b) = lexemes a ++ lexemes x ++ lexemes b := by
  unfold lexemes
  rw [pieces]
  simp [Function.comp_def, shift]

theorem within_ofSource {source : List UInt8} (mem : t ∈ (ofSource source).toList) :
    t.offset < t.stop ∧ t.stop ≤ source.length := by
  have ordered := ofSource_ordered source
  exact ⟨ordered.nonempty t mem, (ordered.within t mem).2⟩

theorem Piecewise.part (pieces : Piecewise a x b) (here : (ofSource (a ++ x ++ b))[i]? = some t) :
    i < (ofSource a).size ∧ t.stop ≤ a.length ∨
      ((ofSource a).size ≤ i ∧ i < (ofSource a).size + (ofSource x).size) ∧
        a.length ≤ t.offset ∧ t.stop ≤ a.length + x.length ∨
      (ofSource a).size + (ofSource x).size ≤ i ∧ a.length + x.length ≤ t.offset := by
  rw [← Array.getElem?_toList, pieces] at here
  by_cases first : i < (ofSource a).size
  · rw [List.append_assoc, List.getElem?_append_left (by simpa using first)] at here
    exact .inl ⟨first, (within_ofSource (List.mem_of_getElem? here)).2⟩
  by_cases second : i < (ofSource a).size + (ofSource x).size
  · rw [List.getElem?_append_left (by simpa using second),
      List.getElem?_append_right (by simpa using first)] at here
    obtain ⟨t, mem, rfl⟩ := List.mem_map.1 (List.mem_of_getElem? here)
    have within := within_ofSource mem
    refine .inr (.inl ⟨⟨by omega, second⟩, ?_, ?_⟩)
    · simp [shift]
    · simp only [shift, stop] at within ⊢
      omega
  · rw [List.getElem?_append_right (by simpa using second)] at here
    obtain ⟨t, _, rfl⟩ := List.mem_map.1 (List.mem_of_getElem? here)
    exact .inr (.inr ⟨by omega, by simp [shift]⟩)

theorem Piecewise.getElem?_move (pieces : Piecewise a x b) (pieces' : Piecewise a y b)
    (outside : (splice a x y).Outside i) :
    (ofSource (a ++ y ++ b))[(splice a x y).move i]? =
      (ofSource (a ++ x ++ b))[i]?.map (move (.replacing a x y)) := by
  have front : (ofSource a).toList.map (move (.replacing a x y)) = (ofSource a).toList := by
    refine (List.map_congr_left fun t mem => ?_).trans (List.map_id _)
    have within := within_ofSource mem
    simp only [move, id]
    rw [Splice.move_of_lt (by simp only; omega)]
  have back : (ofSource b).toList.map (shift (a.length + y.length)) =
      ((ofSource b).toList.map (shift (a.length + x.length))).map (move (.replacing a x y)) := by
    rw [List.map_map]
    refine List.map_congr_left fun t _ => ?_
    simp only [Function.comp_apply, move, shift]
    rw [Splice.move_of_le (by simp)]
    simp only [mk.injEq, true_and, and_true]
    omega
  -- Up to the move, the two sources differ in their middle part alone.
  rw [← Array.getElem?_toList, ← Array.getElem?_toList, pieces, pieces', ← List.getElem?_map, back]
  rw [List.map_append, List.map_append, front]
  have there := Splice.getElem?_move (i := i) (ofSource a).toList
    (((ofSource x).toList.map (shift a.length)).map (move (.replacing a x y)))
    ((ofSource y).toList.map (shift a.length))
    (((ofSource b).toList.map (shift (a.length + x.length))).map (move (.replacing a x y)))
  simp only [Splice.replacing, List.length_map, Array.length_toList] at there
  exact there outside

end EditScope.Token

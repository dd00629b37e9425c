import EditScope.Proofs.Outline.Moved
import EditScope.Proofs.Outline.Origin
import EditScope.Proofs.Sketch.Splice

set_option autoImplicit false

namespace EditScope

/-- Neither inside the stretch that gives way nor at its ends. -/
def Splice.Clear (s : Splice) (i : Nat) : Prop := i < s.start ∨ s.start + s.removed < i

def Span.move (s : Splice) (span : Span) : Span := ⟨s.move span.start, s.move span.stop⟩

namespace Outline

variable {a x y b : List UInt8} {i : Nat}

theorem length_splice : (a ++ y ++ b).length =
    (Splice.replacing a x y).move (a ++ x ++ b).length := by
  rw [Splice.move_of_le (by simp)]
  simp
  omega

section Resolve

variable (pieces : Token.Piecewise a x b) (pieces' : Token.Piecewise a y b)

include pieces pieces'

theorem getElem?_splice_none (beyond : (Token.ofSource (a ++ x ++ b))[i]? = none) :
    (Token.ofSource (a ++ y ++ b))[(Token.splice a x y).move i]? = none := by
  have size := congrArg List.length pieces
  simp at size beyond
  rw [pieces.getElem?_move pieces' (.inr (by simp only; omega))]
  simpa using beyond

theorem offsetAt_splice
    (clear : (Splice.replacing a x y).Clear
      (offsetAt (Token.ofSource (a ++ x ++ b)) (a ++ x ++ b).length i)) :
    offsetAt (Token.ofSource (a ++ y ++ b)) (a ++ y ++ b).length
        ((Token.splice a x y).move i) =
      (Splice.replacing a x y).move
        (offsetAt (Token.ofSource (a ++ x ++ b)) (a ++ x ++ b).length i) := by
  unfold offsetAt at clear ⊢
  cases here : (Token.ofSource (a ++ x ++ b))[i]? with
  | none =>
    rw [getElem?_splice_none pieces pieces' here]
    exact length_splice
  | some t =>
    have ordered := (Token.ofSource_ordered (a ++ x ++ b)).within_at here
    simp only [here, Option.map_some, Option.getD_some, Splice.Clear] at clear
    rw [pieces.getElem?_move pieces', here]
    · rfl
    · rcases pieces.part here with first | middle | last
      · exact .inl first.1
      · omega
      · exact .inr last.1

theorem stopAt_splice {last : Option Nat}
    (clear : (Splice.replacing a x y).Clear
      (stopAt (Token.ofSource (a ++ x ++ b)) (a ++ x ++ b).length last)) :
    stopAt (Token.ofSource (a ++ y ++ b)) (a ++ y ++ b).length (last.map
        ((Token.splice a x y).move)) =
      (Splice.replacing a x y).move
        (stopAt (Token.ofSource (a ++ x ++ b)) (a ++ x ++ b).length last) := by
  cases last with
  | none => exact length_splice
  | some i =>
    simp only [stopAt, Option.map_some, Option.bind_some] at clear ⊢
    cases here : (Token.ofSource (a ++ x ++ b))[i]? with
    | none =>
      rw [getElem?_splice_none pieces pieces' here]
      exact length_splice
    | some t =>
      have ordered := (Token.ofSource_ordered (a ++ x ++ b)).within_at here
      simp only [here, Option.map_some, Option.getD_some, Splice.Clear] at clear
      rcases pieces.part here with first | middle | last
      · rw [pieces.getElem?_move pieces' (.inl first.1), here]
        simp only [Option.map_some, Option.getD_some, Token.stop, Token.move]
        simp only [Token.stop] at ordered clear first
        rw [Splice.move_of_lt (by simp only; omega), Splice.move_of_lt (by simp only; omega)]
      · omega
      · rw [pieces.getElem?_move pieces' (.inr last.1), here]
        exact (Splice.move_add last.2 t.length).symm

theorem resolve_splice {e : Extent}
    (start : (Splice.replacing a x y).Clear
      (resolve (Token.ofSource (a ++ x ++ b)) (a ++ x ++ b).length e).start)
    (stop : (Splice.replacing a x y).Clear
      (resolve (Token.ofSource (a ++ x ++ b)) (a ++ x ++ b).length e).stop) :
    resolve (Token.ofSource (a ++ y ++ b)) (a ++ y ++ b).length (e.reindex
        ((Token.splice a x y).move)) =
      (resolve (Token.ofSource (a ++ x ++ b)) (a ++ x ++ b).length e).move
        (.replacing a x y) := by
  simp only [resolve, Extent.reindex, Span.move]
  rw [offsetAt_splice pieces pieces' start, stopAt_splice pieces pieces' stop]

end Resolve

structure InMethodBody (settings : OutlineSettings) (fallback : Option String)
    (a x b : List UInt8) (m : (ofSource settings fallback (a ++ x ++ b)).1.Id)
    (brace close : Nat) : Prop where
  method : ((ofSource settings fallback (a ++ x ++ b)).1.node m).kind = .method
  opens : ∃ t, (Token.ofSource (a ++ x ++ b))[brace]? = some t ∧ t.lexeme.opens .curly ∧
    t.stop ≤ a.length
  closes : ∃ t, (Token.ofSource (a ++ x ++ b))[close]? = some t ∧ a.length + x.length ≤ t.offset ∧
    ((ofSource settings fallback (a ++ x ++ b)).1.node m).span.stop = t.stop
  pair : (Bracketed.ofLexemes (Token.lexemes (a ++ x ++ b))).close? brace = some close

/-- No bracket before the token `brace` has its close after it and before the text `x`. -/
def Uncrossed (a x b : List UInt8) (brace : Nat) : Prop :=
  ∀ p < brace, ∀ q ∈ (Bracketed.ofLexemes (Token.lexemes (a ++ x ++ b))).close? p,
    q < brace ∨ (Token.ofSource a).size ≤ q

instance (a x b : List UInt8) (brace : Nat) : Decidable (Uncrossed a x b brace) :=
  inferInstanceAs (Decidable (∀ p < brace, ∀ q ∈ _, q < brace ∨ (Token.ofSource a).size ≤ q))

section Body

variable {settings : OutlineSettings} {fallback : Option String}
  {m : (ofSource settings fallback (a ++ x ++ b)).1.Id} {brace close : Nat}
  (body : InMethodBody settings fallback a x b m brace close)

include body

theorem InMethodBody.has_opens :
    (Bracketed.ofLexemes (Token.lexemes (a ++ x ++ b))).has (·.opens .curly) brace := by
  obtain ⟨t, here, opens, _⟩ := body.opens
  rw [Token.has_lexemes here, opens]

theorem InMethodBody.exists_header : ∃ i v header,
    Sketch.FoundMethod (.ofLexemes (Token.lexemes (a ++ x ++ b))) (rules settings) i v header ∧
      ((ofSource settings fallback (a ++ x ++ b)).1.node m).span =
        resolve (Token.ofSource (a ++ x ++ b)) (a ++ x ++ b).length ⟨i - 1, some header.last⟩ ∧
      header.last = close ∧ i < brace := by
  obtain ⟨i, v, header, found, span⟩ := exists_foundMethod body.method
  obtain ⟨t, there, _, stop⟩ := body.closes
  have ordered := Token.ofSource_ordered (a ++ x ++ b)
  have sound := Bracketed.ofLexemes_sound (Token.lexemes (a ++ x ++ b))
  have inside : header.last < (Token.ofSource (a ++ x ++ b)).size := by
    have bound := (Sketch.lt_methodHeader? found.found).2
    simpa [Bracketed.ofLexemes, Token.lexemes] using bound
  have here := Array.getElem?_eq_getElem inside
  rw [span] at stop
  simp only [resolve, stopAt, Option.bind_some, here, Option.map_some, Option.getD_some] at stop
  -- Tokens end in order, so the method and its closing brace end with the same one.
  have last : header.last = close := by
    have proper := ordered.within_at here
    have proper' := ordered.within_at there
    rcases Nat.lt_trichotomy header.last close with less | same | more
    · have := ordered.stop_le_offset less here there
      omega
    · exact same
    · have := ordered.stop_le_offset more there here
      omega
  have brace := Sketch.FoundMethod.lt_brace sound found body.has_opens (last ▸ body.pair)
  exact ⟨i, v, header, found, span, last, brace⟩

theorem InMethodBody.start_lt :
    ((ofSource settings fallback (a ++ x ++ b)).1.node m).span.start < a.length := by
  obtain ⟨i, v, header, _, span, _, before⟩ := body.exists_header
  obtain ⟨t, here, _, stop⟩ := body.opens
  have ordered := Token.ofSource_ordered (a ++ x ++ b)
  have proper := ordered.within_at here
  have le : offsetAt (Token.ofSource (a ++ x ++ b)) (a ++ x ++ b).length (i - 1) ≤
      offsetAt (Token.ofSource (a ++ x ++ b)) (a ++ x ++ b).length brace :=
    offsetAt_mono ordered (by omega)
  rw [span]
  simp only [offsetAt, resolve, here, Option.map_some, Option.getD_some] at le ⊢
  omega

theorem InMethodBody.lt_stop :
    a.length + x.length < ((ofSource settings fallback (a ++ x ++ b)).1.node m).span.stop := by
  obtain ⟨t, there, after, stop⟩ := body.closes
  have proper := (Token.ofSource_ordered (a ++ x ++ b)).within_at there
  omega

theorem InMethodBody.node_clear (y : List UInt8)
    (j : (ofSource settings fallback (a ++ x ++ b)).1.Id) :
    (Splice.replacing a x y).Clear ((ofSource settings fallback (a ++ x ++ b)).1.node j).span.start ∧
      (Splice.replacing a x y).Clear
        ((ofSource settings fallback (a ++ x ++ b)).1.node j).span.stop := by
  have low := body.start_lt
  have high := body.lt_stop
  have laminar := laminar_of_source settings fallback (a ++ x ++ b)
  -- The method encloses nothing, so every other declaration lies around it or apart from it.
  simp only [Splice.Clear]
  rcases laminar.leaf_cases rfl (not_mem_enclosing body.method) j with
    rfl | around | before | after <;> omega

theorem InMethodBody.everywhere_clear (y : List UInt8) :
    (declared settings fallback (some nestingLimit) (a ++ x ++ b)).1.Everywhere fun d =>
      (Splice.replacing a x y).Clear d.place.start ∧ (Splice.replacing a x y).Clear d.place.stop := by
  refine everywhere_of_nodesOf (P := fun span =>
    (Splice.replacing a x y).Clear span.start ∧ (Splice.replacing a x y).Clear span.stop) none 0 _ ?_
  intro n mem
  obtain ⟨j, inside, rfl⟩ := List.mem_iff_getElem.1 mem
  exact body.node_clear y ⟨j, inside⟩

variable (pieces : Token.Piecewise a x b) (pieces' : Token.Piecewise a y b)
  (nested : Bracket.Nested (Token.lexemes x)) (nested' : Bracket.Nested (Token.lexemes y))
  (uncrossed : Uncrossed a x b brace)

include pieces uncrossed in
theorem InMethodBody.inBody {i last : Nat} (header : i < brace) (same : last = close) :
    Sketch.InBody (Token.lexemes a) (Token.lexemes x) (Token.lexemes b) i brace last := by
  obtain ⟨t, here, _, stop⟩ := body.opens
  obtain ⟨t', there, offset, _⟩ := body.closes
  have ordered := Token.ofSource_ordered (a ++ x ++ b)
  have proper := ordered.within_at here
  have proper' := ordered.within_at there
  have part := pieces.part here
  have part' := pieces.part there
  have length (source : List UInt8) :
      (Token.lexemes source).length = (Token.ofSource source).size := by simp [Token.lexemes]
  constructor
  case header => exact header
  case opens => rw [length]; omega
  case closes => rw [length, length]; omega
  case pair => rw [← pieces.lexemes_eq, body.pair, same]
  case uncrossed =>
    intro p q less found
    rw [← pieces.lexemes_eq] at found
    rw [length]
    exact uncrossed p less q found

include pieces pieces' nested nested' uncrossed

theorem declared_splice :
    (declared settings fallback (some nestingLimit) (a ++ y ++ b)).1 =
      (declared settings fallback (some nestingLimit) (a ++ x ++ b)).1.mapPlace
        (Span.move (.replacing a x y)) := by
  obtain ⟨i, v, header, found, _, last, before⟩ := body.exists_header
  rw [pieces.lexemes_eq] at found
  have inBody := body.inBody pieces uncrossed before last
  obtain ⟨package, types⟩ := SketchedFile.splice nested nested' found inBody
  rw [← pieces.lexemes_eq, ← pieces'.lexemes_eq] at package types
  rw [Token.replacing_lexemes] at types
  -- The sketches are equal but for the stretch; resolving them moves the places over it.
  have members : Declaration.mapPlaces (resolve (Token.ofSource (a ++ y ++ b)) (a ++ y ++ b).length)
        (SketchedFile.ofLexemes (rules settings) (Token.lexemes (a ++ y ++ b))).types =
      Declaration.mapPlaces (Span.move (.replacing a x y)) (Declaration.mapPlaces
        (resolve (Token.ofSource (a ++ x ++ b)) (a ++ x ++ b).length)
        (SketchedFile.ofLexemes (rules settings) (Token.lexemes (a ++ x ++ b))).types) := by
    rw [types, Declaration.mapPlaces_mapPlaces, Declaration.mapPlaces_mapPlaces]
    have clear := (Declaration.everywhere_iff.1 (body.everywhere_clear y)).2
    refine Declaration.mapPlaces_congr _ (Declaration.EverywhereIn.imp ?_ _
      (Declaration.everywhereIn_mapPlaces _ |>.1 clear))
    rintro ⟨kind, name, place, members⟩ ⟨start, stop⟩
    exact resolve_splice pieces pieces' start stop
  have whole : (⟨0, (a ++ y ++ b).length⟩ : Span) =
      Span.move (.replacing a x y) ⟨0, (a ++ x ++ b).length⟩ := by
    rw [Span.move, Splice.move_of_lt (Nat.zero_lt_of_lt body.start_lt), ← length_splice]
  have unfolded (source : List UInt8) :
      (declared settings fallback (some nestingLimit) source).1 =
        .mk .unit (((SketchedFile.ofLexemes (rules settings) (Token.lexemes source)).package.or
            fallback).getD settings.defaultUnitName) ⟨0, source.length⟩
          (Declaration.mapPlaces (resolve (Token.ofSource source) source.length)
            (SketchedFile.ofLexemes (rules settings) (Token.lexemes source)).types) := rfl
  rw [unfolded, unfolded, Declaration.mapPlace, package, members, whole]

theorem ofSource_splice :
    (ofSource settings fallback (a ++ y ++ b)).1.nodes =
      (ofSource settings fallback (a ++ x ++ b)).1.nodes.map
        (Node.mapSpan (Span.move (.replacing a x y))) := by
  have declared := declared_splice body pieces pieces' nested nested' uncrossed
  have nodes (source : List UInt8) : (ofSource settings fallback source).1.nodes =
      (nodesOf none 0 (Outline.declared settings fallback (some nestingLimit) source).1).toArray := rfl
  rw [nodes, nodes, declared, nodesOf_mapPlace, List.map_toArray]

end Body

end Outline

end EditScope

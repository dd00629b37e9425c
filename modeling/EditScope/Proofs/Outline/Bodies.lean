import EditScope.Proofs.Outline.Origin
import EditScope.Proofs.Sketch.Bodies

set_option autoImplicit false

namespace EditScope.Outline

open Declaration

structure Covers (source : List UInt8) (part : List Token) (s : Span) : Prop where
  among : part <:+: (Token.ofSource source).toList
  start : part.head?.map Token.offset = some s.start
  stop : part.getLast?.map Token.stop = some s.stop

def Bodied (source : List UInt8) (d : Declaration Span) : Prop :=
  ∃ part, Covers source part d.place ∧ Sketch.Declares d.kind (part.map Token.lexeme)

variable {source : List UInt8}

theorem exists_covers {first last : Nat} {part : List Lexeme}
    (here : Grammar.At (Token.lexemes source) first part) (length : first + part.length = last + 1)
    (nonempty : part ≠ []) : ∃ tokens, tokens.map Token.lexeme = part ∧
      Covers source tokens (resolve (Token.ofSource source) source.length ⟨first, some last⟩) := by
  obtain ⟨after, split⟩ := here
  rw [Token.lexemes, ← List.map_drop] at split
  obtain ⟨tokens, rest, parts, rfl, rfl⟩ := List.map_eq_append_iff.1 split.symm
  rw [List.length_map] at length
  have positive : 0 < tokens.length := List.length_pos_iff.2 fun none => nonempty (none ▸ rfl)
  have token {k : Nat} (inside : k < tokens.length) :
      (Token.ofSource source)[first + k]? = tokens[k]? := by
    rw [← Array.getElem?_toList, ← List.getElem?_drop, parts, List.getElem?_append_left inside]
  refine ⟨tokens, rfl, ?_, ?_, ?_⟩
  · refine List.IsInfix.trans ⟨[], rest, rfl⟩ (parts ▸ (List.drop_suffix first _).isInfix)
  · have start := token positive
    rw [Nat.add_zero, List.getElem?_eq_getElem positive] at start
    rw [List.head?_eq_getElem?, List.getElem?_eq_getElem positive]
    simp [resolve, offsetAt, start]
  · have inside : tokens.length - 1 < tokens.length := by omega
    have index : first + (tokens.length - 1) = last := by omega
    have stop := token inside
    rw [index, List.getElem?_eq_getElem inside] at stop
    rw [List.getLast?_eq_getElem?, List.getElem?_eq_getElem inside]
    simp [resolve, stopAt, stop]

section Nested

variable (nested : Bracket.Nested (Token.lexemes source))

include nested

theorem declared_bodied (settings : OutlineSettings) (fallback : Option String) :
    ∀ m ∈ (declared settings fallback (some nestingLimit) source).1.members,
      m.Everywhere (Bodied source) := by
  rw [declared_eq]
  refine everywhereIn_iff.1 (everywhereIn_mapPlaces _ |>.2 ?_)
  refine EverywhereIn.imp ?_ _ (SketchedFile.declares nested (rules settings))
  rintro ⟨kind, name, ⟨first, stop⟩, members⟩ ⟨part, last, here, declares, rfl, length⟩
  have nonempty : part ≠ [] := by cases declares <;> exact List.cons_ne_nil _ _
  obtain ⟨tokens, rfl, covers⟩ := exists_covers here length nonempty
  exact ⟨tokens, covers, declares⟩

theorem ofSource_bodies (settings : OutlineSettings) (fallback : Option String)
    (i : (ofSource settings fallback source).1.Id)
    (inner : i ≠ (ofSource settings fallback source).1.rootId) :
    ∃ part, Covers source part ((ofSource settings fallback source).1.node i).span ∧
      Sketch.Declares ((ofSource settings fallback source).1.node i).kind (part.map Token.lexeme) := by
  have below : i.val ≠ 0 := fun top => inner (Fin.ext top)
  obtain ⟨parent, m, holds, _, p, outer, _, _, _, all, mem⟩ :=
    exists_holds (P := fun d => ∀ m ∈ d.members, m.Everywhere (Bodied source))
      (fun d all m mem => (all m mem).members) (declared_bodied nested settings fallback) i below
  obtain ⟨part, covers, declares⟩ := (everywhere_iff.1 (all m mem)).1
  have here : (ofSource settings fallback source).1.node i = _ := holds.node_eq
  exact ⟨part, by rw [here]; exact covers, by rw [here]; exact declares⟩

end Nested

theorem ofSource_bodies_inner :
    let source := "class A\x7bint f(int i)\x7bg(i);\x7denum B\x7bC(1);\x7d\x7d".toList.map Piece.byte
    let o := (ofSource {} none source).1
    Bracket.Nested (Token.lexemes source) ∧
      o.rows = [(.unit, "<default>", ⟨0, 41⟩), (.type, "A", ⟨0, 41⟩), (.method, "f", ⟨12, 27⟩),
        (.type, "B", ⟨27, 40⟩)] ∧
      ∃ i : o.Id, (o.node i).name = "B" ∧ ∃ part, Covers source part (o.node i).span ∧
        Sketch.Declares (o.node i).kind (part.map Token.lexeme) := by
  intro source o
  have nested : Bracket.Nested (Token.lexemes source) := by decide +kernel
  let i : o.Id := ⟨3, by decide +kernel⟩
  have inner : i ≠ o.rootId := by decide +kernel
  exact ⟨nested, by decide +kernel, i, by decide +kernel, ofSource_bodies nested {} none i inner⟩

end EditScope.Outline

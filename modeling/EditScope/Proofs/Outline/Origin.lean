import EditScope.Proofs.Outline.Laminar
import EditScope.Proofs.Sketch.Origin
import EditScope.Proofs.Token.Splice

set_option autoImplicit false

namespace EditScope.Outline

open Declaration

variable (settings : OutlineSettings) (fallback : Option String) (source : List UInt8)

def rules : Sketch.Rules := ⟨settings.overloads, some nestingLimit⟩

def sketched : SketchedFile := .ofLexemes (rules settings) (Token.lexemes source)

theorem declared_eq :
    (declared settings fallback (some nestingLimit) source).1 =
      .mk .unit (((sketched settings source).package.or fallback).getD settings.defaultUnitName)
        ⟨0, source.length⟩
        (mapPlaces (resolve (Token.ofSource source) source.length) (sketched settings source).types) :=
  rfl

theorem length_lexemes : (Token.lexemes source).length = (Token.ofSource source).size := by
  simp [Token.lexemes]

theorem sketched_starts : EverywhereIn (fun d => d.place.first < (Token.ofSource source).size)
    (sketched settings source).types := by
  have laminar := SketchedFile.laminar (rules settings) (Token.lexemes source)
  refine EverywhereIn.imp ?_ _ (LaminarBetween.proper _ laminar)
  intro d proper
  exact length_lexemes source ▸ proper.1

def Traced (d : Declaration Span) : Prop :=
  d.kind = .method → d.members = [] ∧ ∃ i v header,
    Sketch.FoundMethod (.ofLexemes (Token.lexemes source)) (rules settings) i v header ∧
      d.place = resolve (Token.ofSource source) source.length ⟨i - 1, some header.last⟩

theorem declared_traced :
    (declared settings fallback (some nestingLimit) source).1.Everywhere (Traced settings source) := by
  refine everywhere_iff.2 ⟨nofun, everywhereIn_mapPlaces _ |>.2 ?_⟩
  refine EverywhereIn.imp ?_ _ (SketchedFile.traced (rules settings) (Token.lexemes source))
  rintro ⟨kind, name, place, members⟩ traced method
  obtain ⟨none, i, v, header, found, there⟩ := traced method
  cases none
  cases there
  exact ⟨rfl, i, v, header, found, rfl⟩

variable {settings fallback source}

section

variable {m : (ofSource settings fallback source).1.Id}
  (method : ((ofSource settings fallback source).1.node m).kind = .method)

include method

theorem exists_holds_method : ∃ parent d, (ofSource settings fallback source).1.Holds parent m d ∧
    d.kind = .method ∧ Traced settings source d := by
  have unit : m.val ≠ 0 := by
    intro top
    have root := ofDeclaration_holds (declared settings fallback (some nestingLimit) source).1
    have node := Holds.node_eq (i := m) (top ▸ root)
    cases (congrArg Node.kind node).symm.trans method
  obtain ⟨parent, d, holds, traced, _⟩ :=
    exists_holds (fun _ => Everywhere.members) (declared_traced settings fallback source) m unit
  have kind : d.kind = .method := (congrArg Node.kind holds.node_eq).symm.trans method
  exact ⟨parent, d, holds, kind, (everywhere_iff.1 traced).1⟩

theorem exists_foundMethod : ∃ i v header,
    Sketch.FoundMethod (.ofLexemes (Token.lexemes source)) (rules settings) i v header ∧
      ((ofSource settings fallback source).1.node m).span =
        resolve (Token.ofSource source) source.length ⟨i - 1, some header.last⟩ := by
  obtain ⟨parent, d, holds, kind, traced⟩ := exists_holds_method method
  obtain ⟨_, i, v, header, found, place⟩ := traced kind
  exact ⟨i, v, header, found, by rw [holds.node_eq, place]⟩

theorem not_mem_enclosing (j : (ofSource settings fallback source).1.Id) :
    m ∉ (ofSource settings fallback source).1.enclosing j := by
  induction j using outwards_induction with
  | top j found => simp [enclosing_of_root found]
  | inner j p found ih =>
    rw [enclosing_of_parent? found, List.mem_cons, not_or]
    refine ⟨?_, ih⟩
    rintro rfl
    have inner : j.val ≠ 0 := Nat.ne_of_gt (Nat.zero_lt_of_lt (parent?_lt _ found))
    obtain ⟨_, d, holds, _, p, outer, _, rfl, above, traced, mem⟩ :=
      exists_holds (fun _ => Everywhere.members) (declared_traced settings fallback source) j inner
    -- What is held at the index of the method would have the member that is held at `j`.
    cases (congrArg Node.parent holds.node_eq).symm.trans (node_of_parent? found)
    have kind : outer.kind = .method := (congrArg Node.kind above.node_eq).symm.trans method
    have none := ((everywhere_iff.1 traced).1 kind).1
    simp [none] at mem

end

end EditScope.Outline

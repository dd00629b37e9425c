import EditScope.Proofs.Outline.Origin
import EditScope.Proofs.Sketch.Concat
import EditScope.Proofs.Token.Cut

set_option autoImplicit false

namespace EditScope

def Span.shift (n : Nat) (s : Span) : Span := ⟨s.start + n, s.stop + n⟩

namespace Outline

open Declaration

section Resolve

variable {tokens first second : Array Token} {length size n : Nat}
  (split : tokens.toList = first.toList ++ second.toList.map (Token.shift n))

include split

theorem getElem?_first {i : Nat} (inside : i < first.size) : tokens[i]? = first[i]? := by
  rw [← Array.getElem?_toList, split, List.getElem?_append_left (by simpa using inside),
    Array.getElem?_toList]

theorem getElem?_second (i : Nat) : tokens[first.size + i]? = second[i]?.map (Token.shift n) := by
  rw [← Array.getElem?_toList, split, List.getElem?_append_right (by simp)]
  simp

theorem resolve_first {e : Extent} {last : Nat} (inside : e.first < first.size)
    (ends : e.last = some last) (inside' : last < first.size) :
    resolve tokens length e = resolve first size e := by
  obtain ⟨start, _⟩ := e
  cases ends
  have here := Array.getElem?_eq_getElem inside
  have there := Array.getElem?_eq_getElem inside'
  simp [resolve, offsetAt, stopAt, getElem?_first split inside, getElem?_first split inside', here,
    there]

theorem resolve_second (e : Extent) :
    resolve tokens (size + n) (e.reindex (first.size + ·)) = (resolve second size e).shift n := by
  obtain ⟨start, last⟩ := e
  have offset (i : Nat) : offsetAt tokens (size + n) (first.size + i) = offsetAt second size i + n := by
    rw [offsetAt, getElem?_second split, offsetAt]
    cases second[i]? <;> rfl
  have stop : stopAt tokens (size + n) (last.map (first.size + ·)) = stopAt second size last + n := by
    cases last with
    | none => rfl
    | some i =>
      rw [stopAt, Option.map_some, Option.bind_some, getElem?_second split, stopAt, Option.bind_some]
      cases second[i]? with
      | none => rfl
      | some t => exact Nat.add_right_comm ..
  simp only [resolve, Extent.reindex, Span.shift, offset, stop]

end Resolve

section Cut

variable {source : List UInt8} {k : Nat} {t : Token} (here : (Token.ofSource source)[k]? = some t)
  (mark : t.lexeme.isSeparator ";" ∨ t.lexeme.closes .curly)

include here mark

omit mark in
theorem lexemes_take : Token.lexemes (source.take t.stop) = (Token.lexemes source).take (k + 1) := by
  obtain ⟨size, split⟩ := Token.ofSource_cut here
  rw [Token.lexemes, Token.lexemes, split, List.map_append, List.take_left' (by simpa using size)]

omit mark in
theorem lexemes_cut : Token.lexemes source =
    Token.lexemes (source.take t.stop) ++ Token.lexemes (source.drop t.stop) := by
  rw [Token.lexemes, (Token.ofSource_cut here).2]
  simp [Token.lexemes, Function.comp_def, Token.shift]

theorem complete_take (nested : Bracket.Nested ((Token.lexemes source).take (k + 1))) :
    Sketch.Complete (Token.lexemes (source.take t.stop)) where
  nested := lexemes_take here ▸ nested
  ends := by
    have inside := (Array.getElem?_eq_some_iff.1 here).1
    refine ⟨t.lexeme, ?_, mark⟩
    rw [lexemes_take here, List.getLast?_take]
    simp [Token.lexemes, here]

omit mark in
theorem length_cut : source.length = (source.drop t.stop).length + t.stop := by
  have := (Token.within_ofSource (Array.mem_toList_iff.2 (Array.mem_of_getElem? here))).2
  rw [List.length_drop]
  omega

variable (nested : Bracket.Nested ((Token.lexemes source).take (k + 1)))

include nested

theorem resolved_take (settings : OutlineSettings) :
    mapPlaces (resolve (Token.ofSource source) source.length)
        (sketched settings (source.take t.stop)).types =
      mapPlaces (resolve (Token.ofSource (source.take t.stop)) (source.take t.stop).length)
        (sketched settings (source.take t.stop)).types := by
  have starts := sketched_starts settings (source.take t.stop)
  have ends := SketchedFile.types_complete (rules settings) (complete_take here mark nested)
  refine mapPlaces_congr _ (EverywhereIn.imp ?_ _ (EverywhereIn.and _ starts ends))
  rintro d ⟨inside, last, found, inside'⟩
  rw [length_lexemes] at inside'
  exact resolve_first (Token.ofSource_cut here).2 inside found inside'

theorem declared_cut (settings : OutlineSettings) (fallback : Option String) :
    (declared settings fallback (some nestingLimit) source).1.members =
      (declared settings fallback (some nestingLimit) (source.take t.stop)).1.members ++
        mapPlaces (Span.shift t.stop)
          (declared settings fallback (some nestingLimit) (source.drop t.stop)).1.members := by
  obtain ⟨_, types⟩ := SketchedFile.append (rules settings) (complete_take here mark nested)
    (Token.lexemes (source.drop t.stop))
  rw [← lexemes_cut here] at types
  have second : resolve (Token.ofSource source) source.length ∘
        Extent.reindex ((Token.lexemes (source.take t.stop)).length + ·) =
      Span.shift t.stop ∘
        resolve (Token.ofSource (source.drop t.stop)) (source.drop t.stop).length := by
    funext e
    rw [length_lexemes, length_cut here]
    exact resolve_second (Token.ofSource_cut here).2 e
  simp only [declared_eq, Declaration.members]
  rw [← resolved_take here mark nested, mapPlaces_mapPlaces, ← second, ← mapPlaces_mapPlaces,
    show (sketched settings source).types = _ from types]
  simp only [mapPlaces_eq_map, List.map_append, sketched]

end Cut

theorem ofSource_concat (settings : OutlineSettings) (fallback : Option String)
    (source : List UInt8) (k : Nat) (t : Token) (here : (Token.ofSource source)[k]? = some t)
    (mark : t.lexeme.isSeparator ";" ∨ t.lexeme.closes .curly)
    (nested : Bracket.Nested ((Token.lexemes source).take (k + 1))) :
    let package := fun source => (sketched settings source).package
    let members := fun source => (declared settings fallback (some nestingLimit) source).1.members
    package source = (package (source.take t.stop)).or (package (source.drop t.stop)) ∧
      (ofSource settings fallback source).1 =
        ofDeclaration (.mk .unit (((package source).or fallback).getD settings.defaultUnitName)
          ⟨0, source.length⟩ (members (source.take t.stop) ++
            mapPlaces (Span.shift t.stop) (members (source.drop t.stop)))) := by
  intro package members
  have outline : (ofSource settings fallback source).1 =
      ofDeclaration (.mk .unit (((package source).or fallback).getD settings.defaultUnitName)
        ⟨0, source.length⟩ (members source)) := rfl
  refine ⟨?_, ?_⟩
  · obtain ⟨named, _⟩ := SketchedFile.append (rules settings) (complete_take here mark nested)
      (Token.lexemes (source.drop t.stop))
    rw [← lexemes_cut here] at named
    exact named
  · rw [outline, show members source = _ from declared_cut here mark nested settings fallback]

theorem ofSource_concat_packages :
    let source := "package p;class A\x7bf()\x7b\x7d\x7dpackage q;class B\x7b".toList.map Piece.byte
    let members := fun source => (declared {} none (some nestingLimit) source).1.members
    Bracket.Nested ((Token.lexemes source).take 12) ∧
      (sketched {} source).package = (sketched {} (source.take 24)).package ∧
      (ofSource {} none source).1.rows = [(.unit, "p", ⟨0, 42⟩), (.type, "A", ⟨10, 24⟩),
        (.method, "f", ⟨18, 23⟩), (.type, "B", ⟨34, 42⟩)] ∧
      (ofSource {} none source).1 =
        ofDeclaration (.mk .unit "p" ⟨0, source.length⟩ (members (source.take 24) ++
          mapPlaces (Span.shift 24) (members (source.drop 24)))) := by
  intro source members
  have nested : Bracket.Nested ((Token.lexemes source).take 12) := by
    have lexemes : (Token.lexemes source).take 12 = ⟨.keyword, "package"⟩ :: ⟨.identifier, "p"⟩ ::
        ⟨.separator, ";"⟩ :: ⟨.keyword, "class"⟩ :: ⟨.identifier, "A"⟩ :: ⟨.separator, "\x7b"⟩ ::
        (⟨.identifier, "f"⟩ :: ⟨.separator, "("⟩ :: ([] ++ ⟨.separator, ")"⟩ ::
          ⟨.separator, "\x7b"⟩ :: ([] ++ ⟨.separator, "\x7d"⟩ :: []))
        ++ ⟨.separator, "\x7d"⟩ :: []) := by decide +kernel
    rw [lexemes]
    refine .plain rfl rfl (.plain rfl rfl (.plain rfl rfl (.plain rfl rfl (.plain rfl rfl ?_))))
    refine .group (b := .curly) rfl rfl (.plain rfl rfl ?_) .nil
    exact .group (b := .round) rfl rfl .nil (.group (b := .curly) rfl rfl .nil .nil)
  have package : (sketched {} source).package = some "p" := by decide +kernel
  have package' : (sketched {} (source.take 24)).package = some "p" := by decide +kernel
  obtain ⟨_, outline⟩ := ofSource_concat {} none source 11 ⟨⟨.separator, "\x7d"⟩, 23, 1⟩
    (by decide +kernel) (.inr rfl) nested
  simp only [package] at outline
  exact ⟨nested, package.trans package'.symm, by decide +kernel, outline⟩

end Outline

end EditScope

import EditScope.Proofs.Grammar.Walked
import EditScope.Proofs.Outline.Origin

set_option autoImplicit false

namespace EditScope

namespace Grammar

open Lexeme Declaration

section Places

variable {σ τ : Type} {place : List Lexeme → List Lexeme → σ} {place' : List Lexeme → List Lexeme → τ}
  {f : σ → τ} {whole : List Lexeme}

mutual

theorem mapPlaces_declarations (agree : ∀ before inside, inside ≠ [] → before ++ inside <+: whole →
    f (place before inside) = place' before inside) : ∀ (m : Member) {before : List Lexeme},
    before ++ m.lexemes <+: whole →
      mapPlaces f (m.declarations place before) = m.declarations place' before
  | .type a name members, before, within => by
    rw [Member.lexemes, ← List.append_assoc] at within
    have here := agree _ (typeLexemes name (membersLexemes members)) (by simp [typeLexemes]) within
    have within' : before ++ tagged a ++ [keyword "class", name.lexeme, mark "\x7b"] ++
        membersLexemes members <+: whole := by
      refine List.IsPrefix.trans ⟨[mark "\x7d"], ?_⟩ within
      simp [typeLexemes, group, Bracket.openText, Bracket.closeText]
    have inner := mapPlaces_membersDeclarations agree members within'
    simp only [Member.declarations, mapPlaces, mapPlace, here, inner]
  | .method a name parameters throws body, before, within => by
    rw [Member.lexemes, ← List.append_assoc, List.append_cons] at within
    have here := agree _ (methodLexemes name parameters throws body) (by simp [methodLexemes]) within
    simp only [Member.declarations, mapPlaces, mapPlace, here]
  | .field _ _ _, _, _ => rfl

theorem mapPlaces_membersDeclarations
    (agree : ∀ before inside, inside ≠ [] → before ++ inside <+: whole →
      f (place before inside) = place' before inside) :
    ∀ (members : List Member) {before : List Lexeme}, before ++ membersLexemes members <+: whole →
      mapPlaces f (membersDeclarations place before members) =
        membersDeclarations place' before members
  | [], _, _ => rfl
  | m :: members, before, within => by
    rw [membersLexemes, ← List.append_assoc] at within
    have first := mapPlaces_declarations agree m ((List.prefix_append _ _).trans within)
    have rest := mapPlaces_membersDeclarations agree members within
    rw [membersDeclarations, membersDeclarations, ← first, ← rest]
    simp only [mapPlaces_eq_map, List.map_append]

end

end Places

section Spelled

theorem spelled_group {b : Bracket} {inner : List Lexeme} (spelled : ∀ l ∈ inner, l.isSpelled) :
    ∀ l ∈ group b inner, l.isSpelled := by
  have brackets : (mark b.openText).isSpelled ∧ (mark b.closeText).isSpelled := by
    cases b <;> decide
  simpa [group, or_imp, forall_and, brackets] using spelled

theorem spelled_listed {between : String} (spelled : (mark between).isSpelled) (words : List Word) :
    ∀ l ∈ listed between words, l.isSpelled := by
  cases words with
  | nil => simp [listed]
  | cons w words =>
    rw [listed_cons]
    simp only [List.forall_mem_cons, List.forall_mem_flatMap]
    exact ⟨w.spelled, fun v _ => by simpa using ⟨spelled, v.spelled⟩⟩

theorem spelled_tagged (a : Option Tag) : ∀ l ∈ tagged a, l.isSpelled := by
  match a with
  | none => simp [tagged]
  | some ⟨name, none⟩ =>
    exact List.forall_mem_cons.2 ⟨by decide, List.forall_mem_cons.2 ⟨name.spelled, by simp⟩⟩
  | some ⟨name, some s⟩ =>
    exact List.forall_mem_cons.2
      ⟨by decide, List.forall_mem_cons.2 ⟨name.spelled, spelled_group s.spelled⟩⟩

theorem spelled_type (name : Word) {inner : List Lexeme} (spelled : ∀ l ∈ inner, l.isSpelled) :
    ∀ l ∈ typeLexemes name inner, l.isSpelled :=
  List.forall_mem_cons.2 ⟨by decide, List.forall_mem_cons.2 ⟨name.spelled, spelled_group spelled⟩⟩

theorem spelled_method (name : Word) (parameters : Stretch) (throws : List Word)
    (body : Option Stretch) : ∀ l ∈ methodLexemes name parameters throws body, l.isSpelled := by
  refine List.forall_mem_cons.2 ⟨name.spelled, List.forall_mem_append.2
    ⟨spelled_group parameters.spelled, List.forall_mem_append.2 ⟨?_, ?_⟩⟩⟩
  · unfold throwsLexemes
    split
    · simp
    · exact List.forall_mem_cons.2 ⟨by decide, spelled_listed (by decide) throws⟩
  · cases body with
    | none => exact List.forall_mem_singleton.2 (by decide)
    | some s => exact spelled_group s.spelled

theorem spelled_field (name : Word) (value : Initializer) :
    ∀ l ∈ fieldLexemes name value, l.isSpelled :=
  List.forall_mem_cons.2 ⟨by decide, List.forall_mem_cons.2 ⟨name.spelled,
    List.forall_mem_cons.2 ⟨by decide, List.forall_mem_append.2
      ⟨value.spelled, List.forall_mem_singleton.2 (by decide)⟩⟩⟩⟩

mutual

theorem spelled_member : ∀ m : Member, ∀ l ∈ m.lexemes, l.isSpelled
  | .type a name members => List.forall_mem_append.2
      ⟨spelled_tagged a, spelled_type name (spelled_members members)⟩
  | .method a name parameters throws body => List.forall_mem_append.2 ⟨spelled_tagged a,
      List.forall_mem_cons.2 ⟨by decide, spelled_method name parameters throws body⟩⟩
  | .field a name value => List.forall_mem_append.2 ⟨spelled_tagged a, spelled_field name value⟩

theorem spelled_members : ∀ members : List Member, ∀ l ∈ membersLexemes members, l.isSpelled
  | [] => by simp [membersLexemes]
  | m :: members => List.forall_mem_append.2 ⟨spelled_member m, spelled_members members⟩

end

theorem spelled_file (file : File) : ∀ l ∈ file.lexemes, l.isSpelled := by
  refine List.forall_mem_append.2 ⟨List.forall_mem_cons.2 ⟨by decide, ?_⟩, spelled_members _⟩
  exact List.forall_mem_append.2
    ⟨spelled_listed (by decide) file.package, List.forall_mem_singleton.2 (by decide)⟩

end Spelled

theorem resolve_extentOf {whole before inside : List Lexeme} (spelled : ∀ l ∈ whole, l.isSpelled)
    (nonempty : inside ≠ []) (within : before ++ inside <+: whole) (length : Nat) :
    Outline.resolve (Token.ofSource (print whole)) length (extentOf before inside) =
      spanOf before inside := by
  obtain ⟨after, rfl⟩ := within
  have token (start : List Lexeme) (l : Lexeme) (rest : List Lexeme)
      (split : before ++ inside ++ after = start ++ l :: rest) :
      (Token.ofSource (print (before ++ inside ++ after)))[start.length]? =
        some ⟨l, reach start, l.width⟩ := by
    rw [← Array.getElem?_toList, Token.ofSource_print spelled, split, Token.getElem?_spaced,
      Nat.zero_add]
  have first : Outline.offsetAt (Token.ofSource (print (before ++ inside ++ after))) length
      before.length = reach before := by
    obtain ⟨l, tail, cons⟩ := List.exists_cons_of_ne_nil nonempty
    rw [Outline.offsetAt, token before l (tail ++ after) (by simp [cons])]
    rfl
  have last : Outline.stopAt (Token.ofSource (print (before ++ inside ++ after))) length
      (some (before.length + inside.length - 1)) = reach before + reach inside - 1 := by
    obtain ⟨start, l, concat⟩ : ∃ start l, inside = start ++ [l] :=
      ⟨_, _, (List.dropLast_concat_getLast nonempty).symm⟩
    have index : before.length + inside.length - 1 = (before ++ start).length := by simp [concat]
    have size : reach inside = reach start + (l.width + 1) := by
      simp [concat, reach_append, reach]
    rw [Outline.stopAt, Option.bind_some, index, token (before ++ start) l after (by simp [concat]),
      Option.map_some, Option.getD_some, reach_append, size]
    simp only [Token.stop]
    omega
  have some : 0 < reach inside := by
    obtain ⟨l, tail, rfl⟩ := List.exists_cons_of_ne_nil nonempty
    rw [reach]
    omega
  rw [Outline.resolve, extentOf, first, last, spanOf, length_print, length_print, reach_append]
  congr 1
  omega

end Grammar

namespace Outline

open Grammar Declaration

theorem ofSource_text (settings : OutlineSettings) (fallback : Option String) (file : File)
    (merge : settings.overloads = .merge) (shallow : file.depth ≤ nestingLimit) :
    (ofSource settings fallback file.text).1 = ofDeclaration file.unit := by
  have lexemes : Token.lexemes file.text = file.lexemes := Token.lexemes_print (spelled_file file)
  have sketch : sketched settings file.text = ⟨some file.name, file.declarations extentOf, []⟩ := by
    rw [sketched, lexemes, rules, merge]
    exact ofLexemes_file file shallow
  have placed : mapPlaces (resolve (Token.ofSource file.text) file.text.length)
      (file.declarations extentOf) = file.declarations spanOf :=
    mapPlaces_membersDeclarations (fun before inside nonempty within =>
      resolve_extentOf (spelled_file file) nonempty within file.text.length) _ (List.prefix_refl _)
  have unit := declared_eq settings fallback file.text
  rw [sketch, placed] at unit
  exact congrArg ofDeclaration unit

theorem unbroken_of_plain {lexemes : List Lexeme} (plain : ∀ l ∈ lexemes, l.isSeparator ";" = false) :
    ∀ before l after, lexemes = before ++ l :: after → Bracket.Nested before →
      l.isSeparator ";" = false := by
  rintro before l after rfl _
  exact plain l (by simp)

theorem ofSource_text_nested :
    let call : Stretch := ⟨mark "(" :: ([] ++ mark ")" :: [mark ";"]),
      List.all_eq_true.1 rfl, .group (b := .round) rfl rfl .nil (.plain rfl rfl .nil)⟩
    let zero : Initializer := ⟨⟨[⟨.literal, "0"⟩], List.all_eq_true.1 rfl, .plain rfl rfl .nil⟩,
      unbroken_of_plain (List.forall_mem_singleton.2 rfl)⟩
    let nothing : Stretch := ⟨[], List.forall_mem_nil _, .nil⟩
    let file : File := ⟨[⟨"p", rfl⟩, ⟨"q", rfl⟩], List.cons_ne_nil _ _, [(⟨"N", rfl⟩,
      [.method (some ⟨⟨"A", rfl⟩, some nothing⟩) ⟨"m", rfl⟩ nothing
        [⟨"E", rfl⟩, ⟨"F", rfl⟩] (some call),
       .field none ⟨"x", rfl⟩ zero,
       .type (some ⟨⟨"B", rfl⟩, none⟩) ⟨"M", rfl⟩
        [.method none ⟨"n", rfl⟩ nothing [] none]])]⟩
    file.depth ≤ nestingLimit ∧
      file.text = ("package p . q ; class N \x7b @ A ( ) void m ( ) throws E , F \x7b ( ) ; \x7d " ++
        "int x = 0 ; @ B class M \x7b void n ( ) ; \x7d \x7d").toList.map Piece.byte ∧
      (ofSource {} none file.text).1 = ofDeclaration file.unit ∧
      (ofDeclaration file.unit).rows = [(.unit, "p.q", ⟨0, 110⟩), (.type, "N", ⟨16, 110⟩),
        (.method, "m", ⟨39, 67⟩), (.type, "M", ⟨84, 108⟩), (.method, "n", ⟨99, 106⟩)] := by
  intro call zero nothing file
  have shallow : file.depth ≤ nestingLimit := by decide
  refine ⟨shallow, by decide +kernel, ofSource_text {} none file rfl shallow, by decide +kernel⟩

end Outline

end EditScope

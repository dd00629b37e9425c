import EditScope.Proofs.Sketch.Complete
import EditScope.Proofs.Sketch.Lockstep

set_option autoImplicit false

namespace EditScope

namespace Sketch

/-- The walk `w` is `v` with more before it: types that end before, and perhaps a package. -/
structure Onto (first : Option String) (base : List Sketch) (w v : Walk) : Prop where
  frames : w.frames = v.frames
  types : w.types = v.types ++ base
  package : w.package = first.or v.package

variable {first : Option String} {base : List Sketch} {b b' : Bracketed} {rules : Rules} {i : Nat}
  {l : Lexeme} {w v : Walk}

namespace Onto

variable (onto : Onto first base w v)

include onto

theorem note (n n' : Note) : Onto first base (w.note n) (v.note n') :=
  ⟨onto.frames, onto.types, onto.package⟩

theorem add (d : Sketch) : Onto first base (w.add d) (v.add d) := by
  obtain ⟨package, types, frames, notes⟩ := w
  obtain ⟨frames, types, package⟩ := onto
  subst frames types
  cases frames : v.frames <;> simp only [Walk.add, frames] <;> exact ⟨by simp [*], rfl, package⟩

theorem leave (policy : Overloads) (last : Option Nat) :
    Onto first base (w.leave policy last) (v.leave policy last) := by
  unfold Walk.leave
  rw [onto.frames]
  split
  · exact onto
  · rename_i f frames _
    have left : Onto first base { w with frames } { v with frames } :=
      ⟨rfl, onto.types, onto.package⟩
    exact left.add _

theorem finish (policy : Overloads) : Onto first base (w.finish policy) (v.finish policy) := by
  have fold (frames : List Frame) (w v : Walk) (onto : Onto first base w v) : Onto first base
      (frames.foldl (fun w f => (w.note (.unclosed f.start)).leave policy none) w)
      (frames.foldl (fun w f => (w.note (.unclosed f.start)).leave policy none) v) := by
    induction frames generalizing w v with
    | nil => exact onto
    | cons f frames ih => exact ih _ _ ((onto.note _ _).leave policy none)
  unfold Walk.finish
  rw [onto.frames]
  exact fold v.frames w v onto

theorem typeStep : (typeStep b rules i w).1 = (typeStep b rules i v).1 ∧
    Onto first base (typeStep b rules i w).2 (typeStep b rules i v).2 := by
  unfold Sketch.typeStep
  rw [onto.frames]
  split
  · exact ⟨rfl, onto⟩
  split
  · dsimp only
    split <;> exact ⟨rfl, (onto.note _ _).add _⟩
  · exact ⟨rfl, congrArg (List.cons _) onto.frames, onto.types, onto.package⟩

theorem memberStep : (memberStep b rules i l w).1 = (memberStep b rules i l v).1 ∧
    Onto first base (memberStep b rules i l w).2 (memberStep b rules i l v).2 := by
  unfold Sketch.memberStep
  split
  · exact ⟨rfl, onto.leave _ _⟩
  split
  · exact onto.typeStep
  split
  · exact ⟨rfl, onto⟩
  split
  · exact ⟨rfl, onto⟩
  split
  · split
    · exact ⟨rfl, onto.add _⟩
    · exact ⟨rfl, onto⟩
  split <;> exact ⟨rfl, onto⟩

end Onto

theorem leads_plain (outside : w.frames = []) (here : b.lexemes[i]? = some l)
    (kind : l.kind ≠ .keyword) (plain : l.opened? = none) : Leads b rules i w (i + 1) w := by
  have same : step b rules i l w = (i + 1, w) := by
    simp [step, fileStep, outside, Lexeme.isKeyword, Lexeme.isTypeKeyword, kind,
      Lexeme.opened?_eq_none.1 plain]
  refine .step here ?_
  rw [same]
  exact .here

theorem leads_identifier (outside : w.frames = []) (here : b.lexemes[i]? = some l)
    (identifier : l.isIdentifier) : Leads b rules i w (i + 1) w :=
  leads_plain outside here (by simp [eq_of_beq identifier]) (Lexeme.opened?_of_identifier identifier)

theorem leads_separator (outside : w.frames = []) (here : b.lexemes[i]? = some l) {mark : String}
    (separator : l.isSeparator mark) (other : mark ∉ Bracket.all.map Bracket.openText) :
    Leads b rules i w (i + 1) w :=
  leads_plain outside here (by simp [(Lexeme.isSeparator_iff.1 separator).1])
    (Lexeme.opened?_of_separator separator other)

theorem leads_nameTail (outside : w.frames = []) (i : Nat) (name : String) :
    Leads b rules i w (nameTail b i name).2 w := by
  fun_induction nameTail b i name with
  | case1 i name dot part here there both inside ih =>
    obtain ⟨point, identifier⟩ := Bool.and_eq_true_iff.1 both
    have passed : Leads b rules i w (i + 1) w := leads_separator outside here point (by decide)
    exact (passed.trans (leads_identifier outside there identifier)).trans ih
  | case2 => exact .here
  | case3 => exact .here

theorem leads_nameAt? (outside : w.frames = []) {name : String} {next : Nat}
    (found : nameAt? b i = some (name, next)) : Leads b rules i w next w := by
  unfold nameAt? at found
  split at found
  · cases found
  · rename_i head here
    split at found
    · rename_i identifier
      obtain ⟨_, rfl⟩ := Prod.mk.inj (Option.some.inj found)
      have first : Leads b rules i w (i + 1) w := leads_identifier outside here identifier
      have tail := first.trans (leads_nameTail outside (i + 1) head.text)
      split
      · rename_i semicolon
        obtain ⟨l, there, semicolon⟩ := (Option.any_eq_true _ _).1 semicolon
        exact tail.trans (leads_separator outside there semicolon (by decide))
      · exact tail
    · cases found

section Step

variable (onto : Onto first base w v) (here : b.lexemes[i]? = some l)

include onto here

theorem Onto.packageStep (outside : w.frames = []) (package : l.isKeyword "package")
    (unnamed : v.package = none) :
    ∃ w', Leads b rules i w (fileStep b rules i l v).1 w' ∧
      Onto first base w' (fileStep b rules i l v).2 := by
  have known : w.package = first := by rw [onto.package, unnamed, Option.or_none]
  have once : Leads b rules i w (fileStep b rules i l w).1 (fileStep b rules i l w).2 := by
    have leads : Leads b rules i w (step b rules i l w).1 (step b rules i l w).2 := .step here .here
    rwa [step, if_pos (List.isEmpty_iff.2 outside)] at leads
  have text := eq_of_beq (Bool.and_eq_true_iff.1 package).2
  cases first with
  | none =>
    refine ⟨(fileStep b rules i l w).2, ?_⟩
    simp only [fileStep, package, known, unnamed, Option.isNone_none, Bool.and_self, if_true] at once ⊢
    cases found : nameAt? b (i + 1) with
    | none =>
      rw [found] at once
      exact ⟨once, onto⟩
    | some p =>
      rw [found] at once
      exact ⟨once, onto.frames, onto.types, rfl⟩
  | some name =>
    have keyword : l.isTypeKeyword = false := by
      simp [Lexeme.isTypeKeyword, Lexeme.typeKeywords, text]
    have plain := Lexeme.opened?_eq_none.1 (Lexeme.opened?_of_keyword package) .round
    refine ⟨w, ?_⟩
    simp only [fileStep, package, known, unnamed, keyword, plain, Option.isNone_none,
      Option.isNone_some, Bool.and_self, Bool.and_false, Bool.false_and, Bool.false_eq_true, if_true,
      if_false] at once ⊢
    cases found : nameAt? b (i + 1) with
    | none => exact ⟨once, onto⟩
    | some p =>
      exact ⟨once.trans (leads_nameAt? outside found), onto.frames, onto.types, known⟩

theorem Onto.fileStep (outside : w.frames = []) :
    ∃ w', Leads b rules i w (fileStep b rules i l v).1 w' ∧
      Onto first base w' (fileStep b rules i l v).2 := by
  by_cases clause : l.isKeyword "package" && v.package.isNone
  · obtain ⟨package, unnamed⟩ := Bool.and_eq_true_iff.1 clause
    exact onto.packageStep here outside package (Option.isNone_iff_eq_none.1 unnamed)
  · have clause' : ¬ (l.isKeyword "package" && w.package.isNone) := by
      rw [onto.package]
      cases first with
      | none => exact clause
      | some name => simp
    have same : (Sketch.fileStep b rules i l w).1 = (Sketch.fileStep b rules i l v).1 ∧
        Onto first base (Sketch.fileStep b rules i l w).2 (Sketch.fileStep b rules i l v).2 := by
      unfold Sketch.fileStep
      rw [if_neg clause, if_neg clause']
      split
      · exact onto.typeStep
      split
      · exact ⟨rfl, onto.note _ _⟩
      · exact ⟨rfl, onto⟩
    refine ⟨_, .step here ?_, same.2⟩
    rw [Sketch.step, if_pos (List.isEmpty_iff.2 outside), same.1]
    exact .here

theorem Onto.step :
    ∃ w', Leads b rules i w (step b rules i l v).1 w' ∧ Onto first base w' (step b rules i l v).2 := by
  unfold Sketch.step
  rw [← onto.frames]
  by_cases outside : w.frames.isEmpty
  · rw [if_pos outside]
    exact onto.fileStep here (List.isEmpty_iff.1 outside)
  · rw [if_neg outside]
    obtain ⟨next, onto'⟩ : (Sketch.memberStep b rules i l w).1 = (Sketch.memberStep b rules i l v).1 ∧
        Onto first base (Sketch.memberStep b rules i l w).2 (Sketch.memberStep b rules i l v).2 :=
      onto.memberStep
    refine ⟨_, .step here ?_, onto'⟩
    rw [Sketch.step, if_neg outside, next]
    exact .here

end Step

theorem Onto.walk (onto : Onto first base w v) :
    Onto first base (walk b rules i w) (walk b rules i v) :=
  walk_simulates (R := fun _ => Onto first base) (fun here onto => onto.step here)
    (fun _ onto => onto.finish rules.overloads) onto

section Tail

variable {lexemes : List Lexeme} (after : List Lexeme)

theorem aligned_tail (nested : Bracket.Nested lexemes) : Aligned (.ofLexemes after)
    (.ofLexemes (lexemes ++ after)) (lexemes.length + ·) (fun _ => True) := by
  constructor
  case sound => exact Bracketed.ofLexemes_sound after
  case size => simp [Bracketed.ofLexemes]
  case lexeme =>
    intro i _
    simp [Bracketed.ofLexemes, List.getElem?_append_right]
  case close =>
    intro i _
    have moved (j : Nat) : (Splice.replacing [] [] lexemes).move j = lexemes.length + j := by
      rw [Splice.move_of_le (Nat.zero_le j)]
      simp [Nat.add_comm]
    have outside : (Splice.replacing [] [] lexemes).Outside i := .inr (Nat.zero_le i)
    have same : (Bracketed.ofLexemes ([] ++ lexemes ++ after)).close?
        ((Splice.replacing [] [] lexemes).move i) = _ :=
      (Bracketed.close?_splice .nil nested outside).1
    simpa only [moved, funext moved, List.nil_append] using same
  case next => exact fun _ _ => ⟨trivial, rfl⟩
  case jump => exact fun _ _ => ⟨trivial, rfl⟩

theorem stands_tail {last : Lexeme} (ends : lexemes.getLast? = some last)
    (mark : last.isSeparator ";" ∨ last.closes .curly) (i : Nat) :
    Stands (.ofLexemes after) (.ofLexemes (lexemes ++ after)) (lexemes.length + ·)
      (fun _ => True) i := by
  have kind : last.kind = .separator := by
    rcases mark with mark | mark <;> exact (Lexeme.isSeparator_iff.1 mark).1
  -- What looks back over the seam sees a semicolon or a closing brace, and no other text.
  have other (text : String) (other : text ≠ ";" ∧ text ≠ "\x7d") : last.text ≠ text := by
    rcases mark with mark | mark <;> rw [(Lexeme.isSeparator_iff.1 mark).2]
    · exact other.1.symm
    · exact other.2.symm
  have size : 0 < lexemes.length := by
    rw [List.length_pos_iff]
    rintro rfl
    cases ends
  have edge : (Bracketed.ofLexemes (lexemes ++ after)).lexemes[lexemes.length - 1]? = some last := by
    rw [List.getLast?_eq_getElem?] at ends
    simpa [Bracketed.ofLexemes, List.getElem?_append_left (Nat.sub_lt size Nat.one_pos)] using ends
  have tail (j : Nat) : (Bracketed.ofLexemes (lexemes ++ after)).lexemes[lexemes.length + j]? =
      (Bracketed.ofLexemes after).lexemes[j]? := by
    simp [Bracketed.ofLexemes, List.getElem?_append_right]
  constructor
  case here => trivial
  case follows =>
    rintro j _ rfl
    rfl
  case before => exact fun _ => trivial
  case point =>
    cases i with
    | zero => simp [Bracketed.has_eq edge, Lexeme.isSeparator, other "." (by decide)]
    | succ j => simp [Bracketed.has, ← Nat.add_assoc, tail]
  case name =>
    cases i with
    | zero => simp [nameBefore?, edge, Lexeme.isIdentifier, kind, Option.filter_some]
    | succ j => simp [nameBefore?, ← Nat.add_assoc, tail]
  case comma =>
    intro l name
    rcases i with _ | _ | j
    · cases name
    · simp [Bracketed.has_eq edge, Lexeme.isSeparator, other "," (by decide)]
    · simp [Bracketed.has, ← Nat.add_assoc, tail]
  case bare =>
    intro l name
    rcases i with _ | _ | j
    · cases name
    · rcases mark with mark | mark <;> simp [separates, Bracketed.has_eq edge, mark]
    · simp [separates, Bracketed.has, ← Nat.add_assoc, tail]

end Tail

end Sketch

namespace SketchedFile

open Sketch Declaration

variable (rules : Rules) {lexemes : List Lexeme} (complete : Complete lexemes)

include complete

theorem types_complete : EverywhereIn (EndsWithin lexemes.length) (ofLexemes rules lexemes).types := by
  obtain ⟨w, outside, leads, _, all⟩ := complete.exists_leads rules []
  have ends : walk (.ofLexemes lexemes) rules 0 {} = w.finish rules.overloads :=
    (walk_eq_of_leads leads).trans (walk_of_size_le (by simp [Bracketed.ofLexemes]))
  simp only [ofLexemes, ends, Walk.finish_of_nil outside]
  exact everywhereIn_reverse.2 all.1

theorem append (after : List Lexeme) :
    (ofLexemes rules (lexemes ++ after)).package =
        (ofLexemes rules lexemes).package.or (ofLexemes rules after).package ∧
      (ofLexemes rules (lexemes ++ after)).types = (ofLexemes rules lexemes).types ++
        mapPlaces (Extent.reindex (lexemes.length + ·)) (ofLexemes rules after).types := by
  obtain ⟨w, outside, leads, leads', _⟩ := complete.exists_leads rules after
  obtain ⟨last, ends, mark⟩ := complete.ends
  have first : walk (.ofLexemes lexemes) rules 0 {} = w := by
    rw [walk_eq_of_leads leads, walk_of_size_le (by simp [Bracketed.ofLexemes]),
      Walk.finish_of_nil outside]
  have second := (aligned_tail after complete.nested).walk rules {} (i := 0)
    (fun _ => stands_tail after ends mark _)
  -- The walk goes on from the end of the first lexemes, as from a start with nothing found yet.
  have start : Onto w.package w.types w {} := ⟨outside, rfl, by simp⟩
  have onto : Onto w.package w.types (walk (.ofLexemes (lexemes ++ after)) rules 0 {})
      ((walk (.ofLexemes after) rules 0 {}).reindex (lexemes.length + ·)) := by
    rw [walk_eq_of_leads leads', ← second]
    exact start.walk
  simp only [ofLexemes, first, mapPlaces_eq_map]
  refine ⟨onto.package, ?_⟩
  rw [onto.types, List.reverse_append]
  simp [Walk.reindex]

end SketchedFile

end EditScope

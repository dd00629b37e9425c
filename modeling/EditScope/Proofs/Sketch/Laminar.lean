import EditScope.Proofs.Declaration.Laminar
import EditScope.Proofs.Sketch.Headers
import EditScope.Proofs.Sketch.Moves

set_option autoImplicit false

namespace EditScope

def Extent.layout (size : Nat) : Layout Extent where
  low := Extent.first
  high e := e.last.elim (size + 1) (· + 1)
  proper e := e.first < size ∧ ∀ last ∈ e.last, e.first ≤ last

namespace Sketch

open Declaration

variable {size edge edge' : Nat}

variable (size) in
/-- What is declared in an open body ends where the body inside it is declared, or else by `edge`. -/
def Settled (types : List Sketch) : Nat → List Frame → Prop
  | edge, [] => LaminarBetween (Extent.layout size) 0 edge types.reverse
  | edge, f :: frames =>
    f.keyword < size ∧ f.keyword < f.start ∧ f.start ≤ edge ∧
      LaminarBetween (Extent.layout size) f.start edge f.members.reverse ∧
      Settled types f.keyword frames

theorem Settled.mono {types : List Sketch} {frames : List Frame}
    (settled : Settled size types edge frames) (le : edge ≤ edge') :
    Settled size types edge' frames := by
  cases frames with
  | nil => exact LaminarBetween.mono settled (Nat.le_refl 0) le
  | cons f frames =>
    obtain ⟨inside, before, start, members, rest⟩ := settled
    exact ⟨inside, before, Nat.le_trans start le, members.mono (Nat.le_refl _) le, rest⟩

theorem Settled.add {w : Walk} (settled : Settled size w.types edge w.frames) (kind : Kind)
    (name : String) (place : Extent) (members : List Sketch) (after : edge ≤ place.first)
    (inside : place.first < size) (nonempty : ∀ last ∈ place.last, place.first ≤ last)
    (le : edge ≤ (Extent.layout size).high place)
    (laminar : LaminarBetween (Extent.layout size) place.first ((Extent.layout size).high place)
      members) :
    Settled size (w.add (.mk kind name place members)).types ((Extent.layout size).high place)
      (w.add (.mk kind name place members)).frames := by
  unfold Walk.add
  split
  · rename_i none
    rw [none] at settled
    simp only [none, Settled, List.reverse_cons]
    exact LaminarBetween.concat settled (Nat.zero_le _) after ⟨inside, nonempty⟩ (Nat.le_refl _) le
      laminar
  · rename_i f frames cons
    rw [cons] at settled
    obtain ⟨keyword, before, start, earlier, rest⟩ := settled
    simp only [Settled, List.reverse_cons]
    exact ⟨keyword, before, Nat.le_trans start le,
      earlier.concat start after ⟨inside, nonempty⟩ (Nat.le_refl _) le laminar, rest⟩

theorem Settled.leave {w : Walk} {f : Frame} {frames : List Frame} {last : Option Nat}
    (policy : Overloads) (settled : Settled size w.types edge w.frames)
    (cons : w.frames = f :: frames) (le : edge ≤ (Extent.layout size).high ⟨f.keyword, last⟩) :
    Settled size (w.leave policy last).types ((Extent.layout size).high ⟨f.keyword, last⟩)
      (w.leave policy last).frames := by
  rw [cons] at settled
  obtain ⟨inside, before, start, members, rest⟩ := settled
  unfold Walk.leave
  rw [cons]
  refine Settled.add (w := { w with frames }) rest .type f.name ⟨f.keyword, last⟩ _ (Nat.le_refl _)
    inside ?_ (by omega) ?_
  · rintro last ⟨⟩
    simp only [Extent.layout, Option.elim] at le ⊢
    omega
  · apply LaminarBetween.overloads
    exact members.mono (Nat.le_of_lt before) le

variable {b : Bracketed} {i next : Nat} {w w' : Walk}

variable (b) in
structure Edge (i edge : Nat) : Prop where
  passed : edge ≤ i ∨ b.lexemes.size ≤ i
  bound : edge ≤ b.lexemes.size + 1
  not_identifier : ∀ j, j + 1 = edge → b.has Lexeme.isIdentifier j = false

variable (b) in
def Tidy (i : Nat) (w : Walk) : Prop :=
  ∃ edge, Edge b i edge ∧ Settled b.lexemes.size w.types edge w.frames

theorem edge_after {i : Nat} {mark : String} (here : b.has (·.isSeparator mark) i) :
    Edge b (i + 1) (i + 1) where
  passed := .inl (Nat.le_refl _)
  bound := by
    obtain ⟨l, here, _⟩ := (Option.any_eq_true _ _).1 here
    have := lt_size_of_getElem? here
    omega
  not_identifier := by
    rintro j ⟨⟩
    exact Bracketed.not_identifier here

theorem edge_end : Edge b b.lexemes.size (b.lexemes.size + 1) where
  passed := .inr (Nat.le_refl _)
  bound := Nat.le_refl _
  not_identifier := by
    rintro j ⟨⟩
    simp [Bracketed.has]

theorem methodHeader?_ends (sound : b.Sound) {header : MethodHeader}
    (found : methodHeader? b i = some header) : ∃ mark, b.has (·.isSeparator mark) header.last := by
  obtain ⟨_, _, _, _, _, _, ends⟩ := methodHeader?_cases found
  rcases methodLast?_cases ends with ⟨_, semicolon⟩ | ⟨brace, _, opens, close⟩
  · exact ⟨_, semicolon⟩
  · exact ⟨_, sound.closes_of_opens opens close⟩

theorem tidy_move (rules : Rules) (sound : b.Sound) (inside : i < b.lexemes.size) (tidy : Tidy b i w)
    (move : Move b rules i w next w') : Tidy b next w' := by
  obtain ⟨edge, ⟨passed, bound, not_identifier⟩, settled⟩ := tidy
  have le : edge ≤ i := by omega
  cases move with
  | pass later types frames =>
    exact ⟨edge, ⟨.inl (by omega), bound, not_identifier⟩, types ▸ frames ▸ settled⟩
  | leave frames close =>
    exact ⟨i + 1, edge_after close, settled.leave _ frames (Nat.le_succ_of_le le)⟩
  | @enter header keyword found shallow =>
    have opens := bodyBrace?_opens (typeHeader?_cases found).2.2
    have bounds := lt_typeHeader? found
    exact ⟨header.brace + 1, edge_after opens, inside, by simp only; omega, Nat.le_refl _, trivial,
      settled.mono le⟩
  | @prune header keyword found deep =>
    have opens := bodyBrace?_opens (typeHeader?_cases found).2.2
    have bounds := lt_typeHeader? found
    have noted : Settled b.lexemes.size (w.note (.nestedTooDeep i header.name)).types edge
        (w.note (.nestedTooDeep i header.name)).frames := settled
    cases close : b.close? header.brace with
    | none =>
      exact ⟨_, edge_end, noted.add .type header.name ⟨i, none⟩ [] le inside (by simp) bound trivial⟩
    | some c =>
      have after := Bracketed.close?_bounds close
      have closes := sound.closes_of_opens opens close
      exact ⟨c + 1, edge_after closes, noted.add .type header.name ⟨i, some c⟩ [] le inside
        (by simp; omega) (show edge ≤ c + 1 by omega) trivial⟩
  | @method header frames opens found =>
    obtain ⟨name, _, rfl, identifier, _⟩ := methodHeader?_cases found
    have bounds := lt_methodHeader? found
    obtain ⟨mark, ends⟩ := methodHeader?_ends sound found
    -- The name is the lexeme before the walk, and the edge does not follow an identifier.
    have before : edge ≤ name := by
      have apart : edge ≠ name + 1 := by
        intro same
        have := not_identifier name same.symm
        obtain ⟨l, here, identifier⟩ := (Option.any_eq_true _ _).1 identifier
        simp_all [Bracketed.has]
      omega
    exact ⟨header.last + 1, edge_after ends, settled.add .method header.name
      ⟨name, some header.last⟩ [] before (by simp only; omega) (by simp; omega)
      (show edge ≤ header.last + 1 by omega) trivial⟩

theorem settled_finish (policy : Overloads) (settled : Settled size w.types edge w.frames)
    (bound : edge ≤ size + 1) :
    LaminarBetween (Extent.layout size) 0 (size + 1) (w.finish policy).types.reverse := by
  have finished : Settled size (w.finish policy).types (size + 1) (w.finish policy).frames := by
    refine Walk.finish_keeps (P := fun w => Settled size w.types (size + 1) w.frames) ?_
      (settled.mono bound)
    intro w start settled
    cases frames : w.frames with
    | nil =>
      rw [Walk.leave_of_nil (w := w.note (.unclosed start)) frames]
      exact settled
    | cons f frames' =>
      exact Settled.leave (w := w.note (.unclosed start)) policy settled frames (Nat.le_refl _)
  rw [Walk.frames_finish] at finished
  exact finished

theorem tidy_start : Tidy b 0 {} :=
  ⟨0, ⟨.inl (Nat.le_refl 0), Nat.zero_le _, by simp⟩, trivial⟩

end Sketch

theorem SketchedFile.laminar (rules : Sketch.Rules) (lexemes : List Lexeme) :
    Declaration.LaminarBetween (Extent.layout lexemes.length) 0 (lexemes.length + 1)
      (SketchedFile.ofLexemes rules lexemes).types := by
  have sound := Bracketed.ofLexemes_sound lexemes
  obtain ⟨_, _, ⟨edge, ⟨_, bound, _⟩, settled⟩, _, walked⟩ :=
    Sketch.walk_keeps (fun _ => Sketch.tidy_move rules sound) Sketch.tidy_start
  simp only [SketchedFile.ofLexemes, walked]
  exact Sketch.settled_finish rules.overloads settled bound

end EditScope

import EditScope.Proofs.Declaration.Everywhere
import EditScope.Proofs.Sketch.Headers
import EditScope.Proofs.Sketch.Moves

set_option autoImplicit false

namespace EditScope

namespace Sketch

open Declaration

variable {P : Sketch → Prop} {w : Walk}

def Walk.Everywhere (P : Sketch → Prop) (w : Walk) : Prop :=
  EverywhereIn P w.types ∧ ∀ f ∈ w.frames, EverywhereIn P f.members

theorem Walk.Everywhere.add (all : w.Everywhere P) {d : Sketch} (here : d.Everywhere P) :
    (w.add d).Everywhere P := by
  obtain ⟨package, types, frames, notes⟩ := w
  obtain ⟨outer, inner⟩ := all
  cases frames with
  | nil => exact ⟨⟨here, outer⟩, by simp [Walk.add]⟩
  | cons f frames =>
    obtain ⟨first, rest⟩ := List.forall_mem_cons.1 inner
    exact ⟨outer, List.forall_mem_cons.2 ⟨⟨here, first⟩, rest⟩⟩

theorem everywhereIn_reverse {ds : List Sketch} : EverywhereIn P ds.reverse ↔ EverywhereIn P ds := by
  simp [everywhereIn_iff]

section

variable (renamed : ∀ d name, P d → P (d.rename name))

include renamed

theorem Walk.Everywhere.leave {last : Option Nat}
    (types : ∀ f ∈ w.frames.head?, ∀ members, P (.mk .type f.name ⟨f.keyword, last⟩ members))
    (all : w.Everywhere P) (policy : Overloads) : (w.leave policy last).Everywhere P := by
  obtain ⟨package, outer, frames, notes⟩ := w
  cases frames with
  | nil => exact all
  | cons f frames =>
    obtain ⟨first, rest⟩ := List.forall_mem_cons.1 all.2
    have left : Walk.Everywhere P ⟨package, outer, frames, notes⟩ := ⟨all.1, rest⟩
    have members := Overloads.everywhereIn_apply renamed policy (everywhereIn_reverse.2 first)
    exact left.add (everywhere_iff.2 ⟨types f rfl _, members⟩)

theorem Walk.Everywhere.finish
    (types : ∀ name first members, P (.mk .type name ⟨first, none⟩ members))
    (all : w.Everywhere P) (policy : Overloads) : EverywhereIn P (w.finish policy).types := by
  refine (Walk.finish_keeps (P := Walk.Everywhere P) ?_ all).1
  intro w start all
  have noted : (w.note (.unclosed start)).Everywhere P := all
  exact noted.leave renamed (fun f _ => types f.name f.keyword) policy

end

variable {b : Bracketed} {rules : Rules} {i j : Nat} {v u : Walk}

theorem everywhere_move (renamed : ∀ d name, P d → P (d.rename name))
    (types : ∀ f ∈ v.frames.head?, ∀ members, b.has (·.closes .curly) i →
      P (.mk .type f.name ⟨f.keyword, some i⟩ members))
    (pruned : ∀ header, b.has Lexeme.isTypeKeyword i → typeHeader? b i = some header →
      P (.mk .type header.name ⟨i, b.close? header.brace⟩ []))
    (methods : ∀ header, v.frames ≠ [] → b.has (·.opens .round) i →
      methodHeader? b i = some header → P (.mk .method header.name ⟨i - 1, some header.last⟩ []))
    (all : v.Everywhere P) (move : Move b rules i v j u) : u.Everywhere P := by
  cases move with
  | pass later types frames => exact ⟨types ▸ all.1, frames ▸ all.2⟩
  | leave inside close =>
    exact all.leave renamed (fun f head members => types f head members close) rules.overloads
  | enter keyword found shallow => exact ⟨all.1, List.forall_mem_cons.2 ⟨trivial, all.2⟩⟩
  | @prune header keyword found deep =>
    have noted : (v.note (.nestedTooDeep i header.name)).Everywhere P := all
    exact noted.add (everywhere_iff.2 ⟨pruned header keyword found, trivial⟩)
  | @method header inside opens found =>
    exact all.add (everywhere_iff.2 ⟨methods header inside opens found, trivial⟩)

variable (b rules) in
structure FoundMethod (i : Nat) (v : Walk) (header : MethodHeader) : Prop where
  visited : Leads b rules 0 {} i v
  inside : v.frames ≠ []
  opens : b.has (·.opens .round) i
  found : methodHeader? b i = some header

variable (b rules) in
def Traced (d : Sketch) : Prop :=
  d.kind = .method → d.members = [] ∧
    ∃ i v header, FoundMethod b rules i v header ∧ d.place = ⟨i - 1, some header.last⟩

theorem step_method {l : Lexeme} {header : MethodHeader} (lexeme : b.lexemes[i]? = some l)
    (inside : v.frames ≠ []) (opens : b.has (·.opens .round) i)
    (found : methodHeader? b i = some header) : (step b rules i l v).1 = header.last + 1 := by
  have opens : l.opens .round := by simpa [Bracketed.has, lexeme] using opens
  obtain ⟨kind, text⟩ := Lexeme.isSeparator_iff.1 opens
  have closes : l.closes .curly = false := by
    simp [Lexeme.closes, Lexeme.isSeparator, text, Bracket.openText, Bracket.closeText]
  have keyword : l.isTypeKeyword = false := by simp [Lexeme.isTypeKeyword, kind]
  have operator : l.isOperator "=" = false := by simp [Lexeme.isOperator, kind]
  have sign : l.isSeparator "@" = false := by
    simp [Lexeme.isSeparator, text, Bracket.openText]
  simp [step, memberStep, inside, closes, keyword, operator, sign, opens, found]

theorem FoundMethod.gap {header : MethodHeader} (method : FoundMethod b rules i v header)
    (visited : Leads b rules 0 {} j u) : j ≤ i ∨ header.last + 1 ≤ j := by
  -- A walk visits its states one after another, and the one after the method lies past its end.
  rcases leads_linear method.visited visited with later | earlier
  · cases later with
    | here => exact .inl (Nat.le_refl _)
    | step lexeme rest =>
      rw [step_method lexeme method.inside method.opens method.found] at rest
      exact .inr (leads_le rest)
  · exact .inl (leads_le earlier)

theorem FoundMethod.lt_brace (sound : b.Sound) {header : MethodHeader} {brace : Nat}
    (method : FoundMethod b rules i v header) (opens : b.has (·.opens .curly) brace)
    (pair : b.close? brace = some header.last) : i < brace := by
  obtain ⟨_, c, _, _, _, params, ends⟩ := methodHeader?_cases method.found
  -- The method ends with a closing brace, so it has a body, and only one brace has that close.
  rcases methodLast?_cases ends with ⟨_, semicolon⟩ | ⟨brace', after, _, pair'⟩
  · have closes := sound.closes_of_opens opens pair
    obtain ⟨l, here, semicolon⟩ := (Option.any_eq_true _ _).1 semicolon
    have text := (Lexeme.isSeparator_iff.1 semicolon).2
    simp [Bracketed.has, here, Lexeme.closes, Lexeme.isSeparator, text, Bracket.closeText] at closes
  · have bounds := Bracketed.close?_bounds params
    have same := sound.inj pair pair'
    omega

end Sketch

theorem SketchedFile.traced (rules : Sketch.Rules) (lexemes : List Lexeme) :
    Declaration.EverywhereIn (Sketch.Traced (.ofLexemes lexemes) rules)
      (SketchedFile.ofLexemes rules lexemes).types := by
  have renamed (d : Sketch) (name : String) (traced : Sketch.Traced (.ofLexemes lexemes) rules d) :
      Sketch.Traced (.ofLexemes lexemes) rules (d.rename name) := traced
  have types (name : String) (place : Extent) (members : List Sketch) :
      Sketch.Traced (.ofLexemes lexemes) rules (.mk .type name place members) := nofun
  obtain ⟨_, v, all, _, walked⟩ : ∃ (j : Nat) (v : Sketch.Walk),
      v.Everywhere (Sketch.Traced (.ofLexemes lexemes) rules) ∧
      (Bracketed.ofLexemes lexemes).lexemes.size ≤ j ∧
      Sketch.walk (.ofLexemes lexemes) rules 0 {} = v.finish rules.overloads := by
    refine Sketch.walk_keeps (P := fun _ w => w.Everywhere _) ?_ ⟨trivial, by simp⟩
    intro i v _ _ visited _ all move
    refine Sketch.everywhere_move renamed (fun _ _ _ _ => types _ _ _) (fun _ _ _ => types _ _ _)
      ?_ all move
    exact fun header inside opens found _ =>
      ⟨rfl, i, v, header, ⟨visited, inside, opens, found⟩, rfl⟩
  simp only [SketchedFile.ofLexemes, walked]
  exact Sketch.everywhereIn_reverse.2 (all.finish renamed (fun _ _ _ => types _ _ _) rules.overloads)

end EditScope

import EditScope.Proofs.Sketch.Skims

set_option autoImplicit false

namespace EditScope

namespace Sketch

open Declaration EditScope.Bracket
open Grammar (At)

variable {b : Bracketed} {i j : Nat} {l : Lexeme}

variable (b) in
/-- The walk stands at `i`, where it came to from the brace of the innermost body; to the bodies
around it comes back just behind the close of the one inside. -/
def Framed : Nat → List Frame → Prop
  | _, [] => True
  | i, f :: frames => ∃ brace close, TypeAt b f.keyword f.name brace ∧ b.close? brace = some close ∧
      Skims b (brace + 1) i ∧ Framed (close + 1) frames

section Framed

variable {rules : Rules} {w v : Walk} {frames : List Frame}

theorem Framed.skims (framed : Framed b i frames) (skims : Skims b i j) : Framed b j frames := by
  cases frames with
  | nil => trivial
  | cons f frames =>
    obtain ⟨brace, close, header, pair, inside, rest⟩ := framed
    exact ⟨brace, close, header, pair, inside.trans skims, rest⟩

theorem framed_add {d : Sketch} : Framed b i (w.add d).frames ↔ Framed b i w.frames := by
  obtain ⟨package, types, frames, notes⟩ := w
  cases frames <;> exact Iff.rfl

variable (paired : Paired b 0 b.lexemes.size)

include paired

theorem exists_body {first brace : Nat} {name : String} (header : TypeAt b first name brace) :
    ∃ close, Body b brace close := by
  have opens := opens_of_reaches header.body
  obtain ⟨_, here, _⟩ := (Option.any_eq_true _ _).1 opens
  obtain ⟨close, pair, _⟩ := paired.closed (Nat.zero_le _) (lt_size_of_getElem? here) opens
  exact ⟨close, opens, pair⟩

theorem Framed.exists_close {f : Frame} (framed : Framed b i (f :: frames))
    (closes : b.has (·.closes .curly) i) :
    (∃ brace, TypeAt b f.keyword f.name brace ∧ b.close? brace = some i) ∧
      Framed b (i + 1) frames := by
  obtain ⟨brace, close, header, pair, inside, rest⟩ := framed
  have bounds := Bracketed.close?_bounds pair
  cases inside.eq_close paired ⟨opens_of_reaches header.body, pair⟩ (Nat.zero_le _) (by omega) closes
  exact ⟨⟨brace, header, pair⟩, rest⟩

variable (here : b.lexemes[i]? = some l) (framed : Framed b i w.frames)

include here framed

theorem typeStep_framed (keyword : l.isTypeKeyword) :
    Framed b (typeStep b rules i w).1 (typeStep b rules i w).2.frames := by
  have kind : l.kind ≠ .separator := by
    rw [eq_of_beq (Bool.and_eq_true_iff.1 keyword).1]
    decide
  unfold typeStep
  cases found : typeHeader? b i with
  | none => exact framed.skims (.of_kind here kind)
  | some h =>
    have header := typeAt_of_header ((Bracketed.has_eq here _).trans keyword) found
    obtain ⟨close, body⟩ := exists_body paired header
    have around := framed.skims (header.skims body.pair)
    simp only [body.pair]
    split
    · exact framed_add.2 around
    · exact ⟨h.brace, close, header, body.pair, .here, around⟩

theorem memberStep_framed (inside : w.frames ≠ []) :
    Framed b (memberStep b rules i l w).1 (memberStep b rules i l w).2.frames := by
  have within := lt_size_of_getElem? here
  by_cases closes : l.closes .curly
  · rw [memberStep, if_pos closes]
    obtain ⟨f, frames, cons⟩ := List.exists_cons_of_ne_nil inside
    have left := (Framed.exists_close paired (cons ▸ framed) ((Bracketed.has_eq here _).trans closes)).2
    simp only [Walk.leave, cons]
    exact framed_add.2 left
  by_cases keyword : l.isTypeKeyword
  · rw [memberStep, if_neg closes, if_pos keyword]
    exact typeStep_framed paired here framed keyword
  have passing : Passing b i l w (memberStep b rules i l w) :=
    memberStep_passing (by simpa using closes) (by simpa using keyword)
  generalize memberStep b rules i l w = next at passing
  cases passing with
  | initializer equals =>
    have kind : l.kind ≠ .separator := by
      rw [eq_of_beq (Bool.and_eq_true_iff.1 equals).1]
      decide
    have value := (skims_initializerEnd paired (.inl (Nat.le_refl _)) (Nat.zero_le (i + 1)) within).1
    exact framed.skims ((Skims.of_kind here kind).trans value)
  | tag sign =>
    exact framed.skims (skims_annotationEnd ((Bracketed.has_eq here _).trans sign))
  | method _ found => exact framed_add.2 (framed.skims (skims_methodHeader? found))
  | braces curly =>
    obtain ⟨close, pair, _⟩ := paired.closed (Nat.zero_le i) within ((Bracketed.has_eq here _).trans curly)
    rw [pair]
    exact framed.skims (.past pair .here)
  | lexeme curly => exact framed.skims (.one here curly (by simpa using closes))

theorem step_framed : Framed b (step b rules i l w).1 (step b rules i l w).2.frames := by
  unfold step
  by_cases outside : w.frames.isEmpty
  · rw [if_pos outside]
    have none := List.isEmpty_iff.1 outside
    unfold fileStep
    -- Outside of all types nothing is asked, and only a type leads to more.
    split
    · split <;> exact none ▸ trivial
    split
    · rename_i keyword
      exact typeStep_framed paired here framed keyword
    · split <;> exact none ▸ trivial
  · rw [if_neg outside]
    exact memberStep_framed paired here framed (by simpa using outside)

omit here in
theorem framed_of_leads (leads : Leads b rules i w j v) : Framed b j v.frames := by
  induction leads with
  | here => exact framed
  | step here _ ih => exact ih (step_framed paired here framed)

omit here in
theorem frames_of_size_le (done : b.lexemes.size ≤ i) : w.frames = [] := by
  cases frames : w.frames with
  | nil => rfl
  | cons f frames' =>
    obtain ⟨brace, close, header, pair, inside, _⟩ := frames ▸ framed
    have bounds := Bracketed.close?_bounds pair
    have := inside.le_close paired ⟨opens_of_reaches header.body, pair⟩ (Nat.zero_le _) (by omega)
      (Nat.lt_succ_self brace) bounds.1
    omega

end Framed

inductive Group (family : Bracket) : List Lexeme → Prop where
  | mk {first last : Lexeme} {inner : List Lexeme} (opens : first.opens family)
      (nested : Nested inner) (closes : last.closes family) : Group family (first :: (inner ++ [last]))

/-- No brace and no semicolon stands outside the groups in round or square brackets. -/
inductive Leading : List Lexeme → Prop where
  | nil : Leading []
  | plain {l : Lexeme} {rest : List Lexeme} (opened : l.opened? = none)
      (semicolon : l.isSeparator ";" = false) (brace : l.closes .curly = false)
      (more : Leading rest) : Leading (l :: rest)
  | group {family : Bracket} {part rest : List Lexeme} (other : family ≠ .curly)
      (here : Group family part) (more : Leading rest) : Leading (part ++ rest)

inductive Declares : Declaration.Kind → List Lexeme → Prop where
  | type {keyword name : Lexeme} {header body : List Lexeme} (type : keyword.isTypeKeyword)
      (named : name.isIdentifier) (leading : Leading header) (braces : Group .curly body) :
      Declares .type (keyword :: name :: (header ++ body))
  | method {name : Lexeme} {parameters header body : List Lexeme} (named : name.isIdentifier)
      (listed : Group .round parameters) (leading : Leading header) (braces : Group .curly body) :
      Declares .method (name :: (parameters ++ (header ++ body)))
  | signature {name semicolon : Lexeme} {parameters header : List Lexeme} (named : name.isIdentifier)
      (listed : Group .round parameters) (leading : Leading header)
      (ends : semicolon.isSeparator ";") :
      Declares .method (name :: (parameters ++ (header ++ [semicolon])))

section Declares

variable {lexemes : List Lexeme}

theorem at_lexeme (here : (Bracketed.ofLexemes lexemes).lexemes[i]? = some l) : At lexemes i [l] := by
  rw [Bracketed.ofLexemes, List.getElem?_toArray] at here
  obtain ⟨inside, rfl⟩ := List.getElem?_eq_some_iff.1 here
  exact ⟨lexemes.drop (i + 1), by simp⟩

variable (nested : Nested lexemes)

include nested

theorem exists_group {family : Bracket} {close : Nat}
    (opens : (Bracketed.ofLexemes lexemes).has (·.opens family) i)
    (pair : (Bracketed.ofLexemes lexemes).close? i = some close) :
    ∃ part, At lexemes i part ∧ Group family part ∧ i + part.length = close + 1 := by
  obtain ⟨before, first, inner, last, after, other, rfl, rfl, rfl, opens', closes, inside⟩ :=
    Bracketed.group_of_close? nested pair
  have same : first.opens family := by simpa [Bracketed.has, Bracketed.ofLexemes] using opens
  cases Lexeme.opens_unique same opens'
  refine ⟨first :: (inner ++ [last]), ⟨after, by simp⟩, .mk same inside closes, ?_⟩
  simp only [List.length_cons, List.length_append, List.length_nil]
  omega

theorem exists_leading (passes : Passes (.ofLexemes lexemes) i j) :
    ∃ part, At lexemes i part ∧ Leading part ∧ i + part.length = j := by
  induction passes with
  | here => exact ⟨[], List.nil_prefix, .nil, rfl⟩
  | @next i j plain _ ih =>
    obtain ⟨l, here, plain⟩ := (Option.any_eq_true _ _).1 plain
    simp only [Bool.and_eq_true, Option.isNone_iff_eq_none, Bool.not_eq_true'] at plain
    obtain ⟨part, there, leading, length⟩ := ih
    refine ⟨[l] ++ part, (at_lexeme here).append there, .plain plain.1.1 plain.1.2 plain.2 leading, ?_⟩
    simp only [List.length_append, List.length_singleton]
    omega
  | @past i j close opens pair _ ih =>
    obtain ⟨family, other, opens⟩ : ∃ family, family ≠ Bracket.curly ∧
        (Bracketed.ofLexemes lexemes).has (·.opens family) i := by
      obtain ⟨l, here, opens⟩ := (Option.any_eq_true _ _).1 opens
      rcases Bool.or_eq_true_iff.1 opens with round | square
      · exact ⟨.round, by decide, (Bracketed.has_eq here _).trans round⟩
      · exact ⟨.square, by decide, (Bracketed.has_eq here _).trans square⟩
    obtain ⟨first, here, group, length⟩ := exists_group nested opens pair
    obtain ⟨part, there, leading, length'⟩ := ih
    refine ⟨first ++ part, here.append (by rwa [length]), .group other group leading, ?_⟩
    rw [List.length_append]
    omega

theorem TypeAt.declares {first brace close : Nat} {name : String}
    (here : TypeAt (.ofLexemes lexemes) first name brace)
    (pair : (Bracketed.ofLexemes lexemes).close? brace = some close) :
    ∃ part, At lexemes first part ∧ Declares .type part ∧ first + part.length = close + 1 := by
  obtain ⟨keyword, atFirst, isKeyword⟩ := (Option.any_eq_true _ _).1 here.keyword
  obtain ⟨word, atName, isName⟩ := (Option.any_eq_true _ _).1 here.name
  obtain ⟨header, atHeader, leading, length⟩ := exists_leading nested (passes_of_reaches here.body)
  obtain ⟨body, atBody, braces, length'⟩ := exists_group nested (opens_of_reaches here.body) pair
  have declares : Declares .type (keyword :: word :: (header ++ body)) :=
    .type isKeyword (Bool.and_eq_true_iff.1 isName).1 leading braces
  refine ⟨[keyword] ++ ([word] ++ (header ++ body)), ?_, declares, ?_⟩
  · refine (at_lexeme atFirst).append ((at_lexeme atName).append (atHeader.append ?_))
    rwa [length]
  · simp only [List.length_append, List.length_singleton]
    omega

theorem declares_of_header {header : MethodHeader}
    (opens : (Bracketed.ofLexemes lexemes).has (·.opens .round) i)
    (found : methodHeader? (.ofLexemes lexemes) i = some header) :
    ∃ part, At lexemes (i - 1) part ∧ Declares .method part ∧ i - 1 + part.length = header.last + 1 := by
  obtain ⟨name, close, rfl, isName, _, pair, ends⟩ := methodHeader?_cases found
  obtain ⟨word, atName, isName⟩ := (Option.any_eq_true _ _).1 isName
  obtain ⟨parameters, atParameters, listed, length⟩ := exists_group nested opens pair
  obtain ⟨j, passes, ends⟩ := passes_of_methodLast? ends
  obtain ⟨before, atBefore, leading, length'⟩ := exists_leading nested passes
  have named := (Bool.and_eq_true_iff.1 isName).1
  -- Up to what ends it, a method with a body and one without are alike.
  have whole {part : List Lexeme} (there : At lexemes j part) :
      At lexemes name ([word] ++ (parameters ++ (before ++ part))) := by
    refine (at_lexeme atName).append (atParameters.append ?_)
    rw [length]
    exact atBefore.append (length' ▸ there)
  rcases ends with ⟨semicolon, same⟩ | ⟨brace, body⟩
  · obtain ⟨mark, atMark, semicolon⟩ := (Option.any_eq_true _ _).1 semicolon
    have declares : Declares .method (word :: (parameters ++ (before ++ [mark]))) :=
      .signature named listed leading semicolon
    refine ⟨_, whole (at_lexeme atMark), declares, ?_⟩
    simp only [List.length_append, List.length_singleton]
    omega
  · obtain ⟨braced, atBody, braces, length''⟩ := exists_group nested brace body
    have declares : Declares .method (word :: (parameters ++ (before ++ braced))) :=
      .method named listed leading braces
    refine ⟨_, whole atBody, declares, ?_⟩
    simp only [List.length_append, List.length_singleton]
    omega

end Declares

def Bodied (lexemes : List Lexeme) (d : Sketch) : Prop :=
  ∃ part last, At lexemes d.place.first part ∧ Declares d.kind part ∧ d.place.last = some last ∧
    d.place.first + part.length = last + 1

section Walked

variable {lexemes : List Lexeme} (nested : Nested lexemes) {rules : Rules} {w v : Walk}

include nested

theorem bodied_move (framed : Framed (.ofLexemes lexemes) i w.frames) (all : w.Everywhere (Bodied lexemes))
    (move : Move (.ofLexemes lexemes) rules i w j v) : v.Everywhere (Bodied lexemes) := by
  have paired := paired_of_nested nested
  refine everywhere_move (fun d name bodied => bodied) ?_ ?_ ?_ all move
  · intro f head members closes
    obtain ⟨frames, cons⟩ := List.head?_eq_some_iff.1 head
    obtain ⟨⟨brace, header, pair⟩, _⟩ := Framed.exists_close paired (cons ▸ framed) closes
    obtain ⟨part, here, declares, length⟩ := header.declares nested pair
    exact ⟨part, i, here, declares, rfl, length⟩
  · intro header keyword found
    have here := typeAt_of_header keyword found
    obtain ⟨close, body⟩ := exists_body paired here
    obtain ⟨part, there, declares, length⟩ := here.declares nested body.pair
    exact ⟨part, close, there, declares, body.pair, length⟩
  · intro header _ opens found
    obtain ⟨part, here, declares, length⟩ := declares_of_header nested opens found
    exact ⟨part, header.last, here, declares, rfl, length⟩

end Walked

end Sketch

theorem SketchedFile.declares {lexemes : List Lexeme} (nested : Bracket.Nested lexemes)
    (rules : Sketch.Rules) :
    Declaration.EverywhereIn (Sketch.Bodied lexemes) (ofLexemes rules lexemes).types := by
  have framed {i : Nat} {w : Sketch.Walk} (leads : Sketch.Leads (.ofLexemes lexemes) rules 0 {} i w) :
      Sketch.Framed (.ofLexemes lexemes) i w.frames :=
    Sketch.framed_of_leads (w := {}) (Sketch.paired_of_nested nested) trivial leads
  obtain ⟨j, v, leads, done⟩ := Sketch.exists_leads_end (.ofLexemes lexemes) rules 0 {}
  have all : v.Everywhere (Sketch.Bodied lexemes) :=
    Sketch.leads_keeps (P := fun _ w => w.Everywhere _)
      (fun visited _ => Sketch.bodied_move nested (framed visited)) leads ⟨trivial, by simp⟩
  have outside := Sketch.frames_of_size_le (Sketch.paired_of_nested nested) (framed leads) done
  simp only [ofLexemes, Sketch.walk_eq_of_leads leads, Sketch.walk_of_size_le done,
    Sketch.Walk.finish_of_nil outside]
  exact Sketch.everywhereIn_reverse.2 all.1

end EditScope

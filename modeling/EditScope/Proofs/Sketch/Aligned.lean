import EditScope.Proofs.Sketch.Headers

set_option autoImplicit false

namespace EditScope.Sketch

structure Aligned (b b' : Bracketed) (image : Nat → Nat) (safe : Nat → Prop) : Prop where
  sound : b.Sound
  size : image b.lexemes.size = b'.lexemes.size
  -- Past the end both sides have none, so the sources end together.
  lexeme {i : Nat} : safe i → b'.lexemes[image i]? = b.lexemes[i]?
  close {i : Nat} : safe i → b'.close? (image i) = (b.close? i).map image
  next {i : Nat} : safe i → b.close? i = none → safe (i + 1) ∧ image (i + 1) = image i + 1
  jump {i close : Nat} : safe i → b.close? i = some close →
    safe (close + 1) ∧ image (close + 1) = image close + 1

variable {b b' : Bracketed} {image : Nat → Nat} {safe : Nat → Prop} {i : Nat} {l : Lexeme}

namespace Aligned

variable (aligned : Aligned b b' image safe)

include aligned

theorem has (here : safe i) (p : Lexeme → Bool) : b'.has p (image i) = b.has p i := by
  rw [Bracketed.has, aligned.lexeme here, Bracketed.has]

theorem plain (here : safe i) (lexeme : b.lexemes[i]? = some l) (opened : l.opened? = none) :
    safe (i + 1) ∧ image (i + 1) = image i + 1 :=
  aligned.next here (aligned.sound.close?_eq_none lexeme opened)

theorem nameTail (here : safe i) (name : String) :
    nameTail b' (image i) name = ((nameTail b i name).1, image (nameTail b i name).2) ∧
      safe (nameTail b i name).2 := by
  induction left : b.lexemes.size - i using Nat.strongRecOn generalizing i name with
  | ind _ shorter =>
    -- Without a point the lexeme behind is not read, and may lie outside of `safe`.
    cases point : b.has (·.isSeparator ".") i with
    | false =>
      rw [nameTail_of_other point, nameTail_of_other (by rw [aligned.has here, point])]
      exact ⟨rfl, here⟩
    | true =>
      obtain ⟨dot, first, point⟩ := (Option.any_eq_true _ _).1 point
      obtain ⟨here', next⟩ := aligned.plain here first
        (Lexeme.opened?_of_separator point (by decide))
      rw [nameTail_eq, nameTail_eq (b := b), aligned.lexeme here, ← next, aligned.lexeme here', first]
      cases second : b.lexemes[i + 1]? with
      | none => exact ⟨rfl, here⟩
      | some part =>
        by_cases identifier : part.isIdentifier
        · obtain ⟨here'', next'⟩ := aligned.plain here' second
            (Lexeme.opened?_of_identifier identifier)
          have inside := (Array.getElem?_eq_some_iff.1 second).1
          have rest := shorter (b.lexemes.size - (i + 2)) (by omega) here''
            (name ++ "." ++ part.text) rfl
          simp only [point, identifier, Bool.and_self, if_true]
          rwa [next', next] at rest
        · simp [identifier, here]

theorem nameAt? (here : safe i) :
    nameAt? b' (image i) = (nameAt? b i).map (fun p => (p.1, image p.2)) ∧
      ∀ p ∈ nameAt? b i, safe p.2 := by
  unfold Sketch.nameAt?
  rw [aligned.lexeme here]
  cases lexeme : b.lexemes[i]? with
  | none => simp
  | some head =>
    by_cases identifier : head.isIdentifier
    · obtain ⟨here', next⟩ := aligned.plain here lexeme (Lexeme.opened?_of_identifier identifier)
      obtain ⟨tail, after⟩ := aligned.nameTail here' head.text
      rw [next] at tail
      simp only [identifier, if_true, tail, aligned.has after, Option.map_some]
      cases semicolon : b.has (·.isSeparator ";") (Sketch.nameTail b (i + 1) head.text).2 with
      | false => simp [after]
      | true =>
        obtain ⟨l, there, semicolon⟩ := (Option.any_eq_true _ _).1 semicolon
        obtain ⟨after', next'⟩ := aligned.plain after there
          (Lexeme.opened?_of_separator semicolon (by decide))
        simp [after', next']
    · simp [identifier]

theorem bodyBrace? (here : safe i) :
    bodyBrace? b' (image i) = (bodyBrace? b i).map image ∧
      ∀ brace ∈ bodyBrace? b i, safe brace := by
  induction left : b.lexemes.size - i using Nat.strongRecOn generalizing i with
  | ind _ shorter =>
    cases lexeme : b.lexemes[i]? with
    | none =>
      rw [bodyBrace?_of_none lexeme, bodyBrace?_of_none (by rw [aligned.lexeme here, lexeme])]
      simp
    | some l =>
      have inside := (Array.getElem?_eq_some_iff.1 lexeme).1
      rw [bodyBrace?_of_some lexeme, bodyBrace?_of_some (by rw [aligned.lexeme here, lexeme])]
      by_cases curly : l.opens .curly
      · simp [curly, here]
      by_cases ends : l.isSeparator ";" || l.closes .curly
      · simp [curly, ends]
      by_cases group : l.opens .round || l.opens .square
      · simp only [curly, ends, group, Bool.false_eq_true, if_false, if_true, aligned.close here]
        cases found : b.close? i with
        | none => simp
        | some close =>
          obtain ⟨after, next⟩ := aligned.jump here found
          have bounds := Bracketed.close?_bounds found
          have rest := shorter (b.lexemes.size - (close + 1)) (by omega) after rfl
          simpa [next] using rest
      · obtain ⟨after, next⟩ := aligned.plain here lexeme
          (Lexeme.opened?_eq_none.2 (by rintro ⟨⟩ <;> simp_all))
        have rest := shorter (b.lexemes.size - (i + 1)) (by omega) after rfl
        simp only [curly, ends, group, Bool.false_eq_true, if_false]
        rwa [next] at rest

theorem methodLast? (here : safe i) (bare throws : Bool) :
    methodLast? b' bare throws (image i) = (methodLast? b bare throws i).map image ∧
      ∀ last ∈ methodLast? b bare throws i, image (last + 1) = image last + 1 := by
  induction left : b.lexemes.size - i using Nat.strongRecOn generalizing i throws with
  | ind _ shorter =>
    cases lexeme : b.lexemes[i]? with
    | none =>
      rw [methodLast?_of_none lexeme, methodLast?_of_none (by rw [aligned.lexeme here, lexeme])]
      simp
    | some l =>
      have inside := (Array.getElem?_eq_some_iff.1 lexeme).1
      rw [methodLast?_of_some lexeme, methodLast?_of_some (by rw [aligned.lexeme here, lexeme])]
      by_cases curly : l.opens .curly
      · simp only [curly, if_true]
        exact ⟨aligned.close here, fun last found => (aligned.jump here found).2⟩
      by_cases semicolon : l.isSeparator ";"
      · have next := aligned.plain here lexeme
          (Lexeme.opened?_of_separator semicolon (by decide))
        cases bare <;> simp [curly, semicolon, next.2]
      by_cases other : l.closes .curly || l.isTypeKeyword || l.isOperator "->"
      · simp [curly, semicolon, other]
      by_cases comma : l.isSeparator "," && !throws
      · simp [curly, semicolon, other, comma]
      simp only [curly, semicolon, other, comma, Bool.false_eq_true, if_false]
      by_cases group : l.opens .round || l.opens .square
      · simp only [group, if_true, aligned.close here]
        cases found : b.close? i with
        | none => simp
        | some close =>
          obtain ⟨after, next⟩ := aligned.jump here found
          have bounds := Bracketed.close?_bounds found
          have rest := shorter (b.lexemes.size - (close + 1)) (by omega) after throws rfl
          simpa [next] using rest
      · obtain ⟨after, next⟩ := aligned.plain here lexeme
          (Lexeme.opened?_eq_none.2 (by rintro ⟨⟩ <;> simp_all))
        have rest := shorter (b.lexemes.size - (i + 1)) (by omega) after
          (throws || l.isKeyword "throws") rfl
        simp only [group, Bool.false_eq_true, if_false]
        rwa [next] at rest

theorem initializerEnd (here : safe i) :
    initializerEnd b' (image i) = image (initializerEnd b i) := by
  induction left : b.lexemes.size - i using Nat.strongRecOn generalizing i with
  | ind _ shorter =>
    cases lexeme : b.lexemes[i]? with
    | none =>
      rw [initializerEnd_of_none lexeme,
        initializerEnd_of_none (by rw [aligned.lexeme here, lexeme])]
    | some l =>
      have inside := (Array.getElem?_eq_some_iff.1 lexeme).1
      rw [initializerEnd_of_some lexeme,
        initializerEnd_of_some (by rw [aligned.lexeme here, lexeme])]
      by_cases semicolon : l.isSeparator ";"
      · have next := aligned.plain here lexeme
          (Lexeme.opened?_of_separator semicolon (by decide))
        simp [semicolon, next.2]
      by_cases closes : l.closes .curly
      · simp [semicolon, closes]
      simp only [semicolon, closes, Bool.false_eq_true, if_false]
      cases opened : l.opened? with
      | some family =>
        simp only [Option.isSome_some, if_true, aligned.close here]
        cases found : b.close? i with
        | none => exact (aligned.next here found).2.symm
        | some close =>
          obtain ⟨after, next⟩ := aligned.jump here found
          have bounds := Bracketed.close?_bounds found
          have rest := shorter (b.lexemes.size - (close + 1)) (by omega) after rfl
          simpa [next] using rest
      | none =>
        obtain ⟨after, next⟩ := aligned.plain here lexeme opened
        have rest := shorter (b.lexemes.size - (i + 1)) (by omega) after rfl
        simpa [next] using rest

theorem annotationEnd (after : safe (i + 1)) (next : image (i + 1) = image i + 1) :
    annotationEnd b' (image i) = image (annotationEnd b i) := by
  obtain ⟨name, there⟩ := aligned.nameAt? after
  unfold Sketch.annotationEnd
  rw [← next, aligned.has after, name]
  split
  · rfl
  cases found : Sketch.nameAt? b (i + 1) with
  | none => rfl
  | some p =>
    have there := there p found
    simp only [Option.map_some, aligned.has there, aligned.close there]
    split
    · cases close : b.close? p.2 with
      | none => rfl
      | some c => simp [(aligned.jump there close).2]
    · rfl

end Aligned

/-- A walk may stand at `i`: what it looks back at agrees too. -/
structure Stands (b b' : Bracketed) (image : Nat → Nat) (safe : Nat → Prop) (i : Nat) : Prop where
  here : safe i
  follows {j : Nat} : safe j → j + 1 = i → image (j + 1) = image j + 1
  point : (0 < image i && b'.has (·.isSeparator ".") (image i - 1)) =
    (0 < i && b.has (·.isSeparator ".") (i - 1))
  name : nameBefore? b' (image i) = nameBefore? b i
  before {l : Lexeme} : nameBefore? b i = some l → safe (i - 1)
  comma {l : Lexeme} : nameBefore? b i = some l →
    (1 < image i && b'.has (·.isSeparator ",") (image i - 2)) =
      (1 < i && b.has (·.isSeparator ",") (i - 2))
  bare {l : Lexeme} : nameBefore? b i = some l →
    (image i == 1 || separates b' (image i - 2)) = (i == 1 || separates b (i - 2))

namespace Aligned

variable (aligned : Aligned b b' image safe) (stands : Stands b b' image safe i)

include aligned stands

theorem typeHeader? (lexeme : b.lexemes[i]? = some l) (keyword : l.isTypeKeyword) :
    typeHeader? b' (image i) = (typeHeader? b i).map (fun h => ⟨h.name, image h.brace⟩) ∧
      ∀ header ∈ typeHeader? b i, safe header.brace := by
  obtain ⟨after, next⟩ := aligned.plain stands.here lexeme (Lexeme.opened?_of_typeKeyword keyword)
  unfold Sketch.typeHeader?
  rw [stands.point, ← next, aligned.lexeme after]
  cases second : b.lexemes[i + 1]? with
  | none => simp
  | some name =>
    by_cases plain : name.isIdentifier && !(0 < i && b.has (·.isSeparator ".") (i - 1))
    · obtain ⟨after', next'⟩ := aligned.plain after second
        (Lexeme.opened?_of_identifier (Bool.and_eq_true_iff.1 plain).1)
      obtain ⟨body, inside⟩ := aligned.bodyBrace? after'
      rw [next', next] at body
      simp only [plain, if_true, body]
      refine ⟨by simp [Function.comp_def], ?_⟩
      intro header found
      obtain ⟨brace, there, rfl⟩ := Option.map_eq_some_iff.1 found
      exact inside brace there
    · simp only [plain, Bool.false_eq_true, if_false]
      simp

theorem methodHeader? :
    methodHeader? b' (image i) = (methodHeader? b i).map (fun h => ⟨h.name, image h.last⟩) ∧
      ∀ header ∈ methodHeader? b i, image (header.last + 1) = image header.last + 1 := by
  rw [methodHeader?_eq, methodHeader?_eq, stands.name, aligned.close stands.here]
  cases name : nameBefore? b i with
  | none => simp
  | some l =>
    cases found : b.close? i with
    | none => simp
    | some close =>
      -- The lexeme two before the parameters is only read when the one before them is a name.
      simp only [Option.map_some, Option.bind_some, stands.comma name, stands.bare name]
      split
      · simp
      · obtain ⟨after, next⟩ := aligned.jump stands.here found
        obtain ⟨last, there⟩ := aligned.methodLast? after (i == 1 || separates b (i - 2)) false
        rw [next] at last
        rw [last]
        refine ⟨by simp [Function.comp_def], ?_⟩
        intro header ends
        obtain ⟨last, here, rfl⟩ := Option.map_eq_some_iff.1 ends
        exact there last here

end Aligned

end EditScope.Sketch

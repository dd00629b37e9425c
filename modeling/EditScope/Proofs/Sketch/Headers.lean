import EditScope.Declaration.Sketch
import EditScope.Proofs.Bracket.Pairs

set_option autoImplicit false

namespace EditScope.Sketch

variable {b : Bracketed} {i : Nat} {l : Lexeme}

theorem bodyBrace?_of_none (outside : b.lexemes[i]? = none) : bodyBrace? b i = none := by
  rw [bodyBrace?, dif_neg (by simpa using outside)]

theorem bodyBrace?_of_some (here : b.lexemes[i]? = some l) :
    bodyBrace? b i =
      if l.opens .curly then some i
      else if l.isSeparator ";" || l.closes .curly then none
      else if l.opens .round || l.opens .square then
        (b.close? i).bind fun close => bodyBrace? b (close + 1)
      else bodyBrace? b (i + 1) := by
  obtain ⟨inside, rfl⟩ := Array.getElem?_eq_some_iff.1 here
  rw [bodyBrace?, dif_pos inside]
  dsimp only
  split
  · rfl
  split
  · rfl
  split
  · split <;> simp [*]
  · rfl

theorem methodLast?_of_none {bare throws : Bool} (outside : b.lexemes[i]? = none) :
    methodLast? b bare throws i = none := by
  rw [methodLast?, dif_neg (by simpa using outside)]

theorem methodLast?_of_some {bare throws : Bool} (here : b.lexemes[i]? = some l) :
    methodLast? b bare throws i =
      if l.opens .curly then b.close? i
      else if l.isSeparator ";" then if bare then none else some i
      else if l.closes .curly || l.isTypeKeyword || l.isOperator "->" then none
      else if l.isSeparator "," && !throws then none
      else if l.opens .round || l.opens .square then
        (b.close? i).bind fun close => methodLast? b bare throws (close + 1)
      else methodLast? b bare (throws || l.isKeyword "throws") (i + 1) := by
  obtain ⟨inside, rfl⟩ := Array.getElem?_eq_some_iff.1 here
  rw [methodLast?, dif_pos inside]
  dsimp only
  split
  · rfl
  split
  · rfl
  split
  · rfl
  split
  · rfl
  split
  · split <;> simp [*]
  · rfl

theorem initializerEnd_of_none (outside : b.lexemes[i]? = none) : initializerEnd b i = i := by
  rw [initializerEnd, dif_neg (by simpa using outside)]

theorem initializerEnd_of_some (here : b.lexemes[i]? = some l) :
    initializerEnd b i =
      if l.isSeparator ";" then i + 1
      else if l.closes .curly then i
      else if l.opened?.isSome then
        (b.close? i).elim (i + 1) fun close => initializerEnd b (close + 1)
      else initializerEnd b (i + 1) := by
  obtain ⟨inside, rfl⟩ := Array.getElem?_eq_some_iff.1 here
  rw [initializerEnd, dif_pos inside]
  dsimp only
  split
  · rfl
  split
  · rfl
  split
  · split <;> simp [*]
  · rfl

theorem nameTail_eq (i : Nat) (name : String) :
    nameTail b i name =
      match b.lexemes[i]?, b.lexemes[i + 1]? with
      | some dot, some part =>
        if dot.isSeparator "." && part.isIdentifier then nameTail b (i + 2) (name ++ "." ++ part.text)
        else (name, i)
      | _, _ => (name, i) := by
  rw [nameTail]
  split <;> simp [*]

theorem nameTail_of_other {name : String} (other : b.has (·.isSeparator ".") i = false) :
    nameTail b i name = (name, i) := by
  rw [nameTail_eq]
  cases here : b.lexemes[i]? with
  | none => rfl
  | some l =>
    simp only [Bracketed.has, here, Option.any_some] at other
    cases b.lexemes[i + 1]? <;> simp [other]

theorem bodyBrace?_opens {brace : Nat} (found : bodyBrace? b i = some brace) :
    b.has (·.opens .curly) brace := by
  fun_induction bodyBrace? b i with
  | case1 i inside l opens =>
    cases Option.some.inj found
    simpa [Bracketed.has, inside] using opens
  | _ => simp_all

theorem typeHeader?_cases {header : TypeHeader} (found : typeHeader? b i = some header) :
    b.has (fun l => l.isIdentifier && l.text == header.name) (i + 1) ∧
      (0 < i && b.has (·.isSeparator ".") (i - 1)) = false ∧
      bodyBrace? b (i + 2) = some header.brace := by
  unfold typeHeader? at found
  split at found
  · simp at found
  · rename_i name there
    split at found
    · rename_i plain
      rw [Bool.and_eq_true, Bool.not_eq_true'] at plain
      obtain ⟨brace, body, rfl⟩ := Option.map_eq_some_iff.1 found
      exact ⟨by simp [Bracketed.has, there, plain.1], plain.2, body⟩
    · simp at found

theorem methodLast?_cases {bare throws : Bool} {last : Nat}
    (found : methodLast? b bare throws i = some last) :
    bare = false ∧ b.has (·.isSeparator ";") last ∨
      ∃ brace, i ≤ brace ∧ b.has (·.opens .curly) brace ∧ b.close? brace = some last := by
  fun_induction methodLast? b bare throws i with
  | case1 throws i inside l opens =>
    exact .inr ⟨i, Nat.le_refl i, by simpa [Bracketed.has, inside] using opens, found⟩
  | case2 throws i inside l _ semicolon => simp at found
  | case3 throws i inside l _ semicolon =>
    cases Option.some.inj found
    exact .inl ⟨by simp_all, by simpa [Bracketed.has, inside] using semicolon⟩
  | case6 throws i inside l _ _ _ _ _ close found' bounds ih =>
    obtain plain | ⟨brace, after, body⟩ := ih found
    · exact .inl plain
    · exact .inr ⟨brace, by omega, body⟩
  | case8 throws i inside l _ _ _ _ _ ih =>
    obtain plain | ⟨brace, after, body⟩ := ih found
    · exact .inl plain
    · exact .inr ⟨brace, by omega, body⟩
  | _ => simp_all

theorem methodHeader?_cases {header : MethodHeader} (found : methodHeader? b i = some header) :
    ∃ name close, i = name + 1 ∧
      b.has (fun l => l.isIdentifier && l.text == header.name) name ∧
      (0 < name && b.has (·.isSeparator ",") (name - 1)) = false ∧
      b.close? i = some close ∧
      methodLast? b (name == 0 || separates b (name - 1)) false (close + 1) = some header.last := by
  unfold methodHeader? at found
  split at found
  · simp at found
  · rename_i name
    split at found
    · rename_i l close there close?
      split at found
      · rename_i plain
        rw [Bool.and_eq_true, Bool.not_eq_true'] at plain
        obtain ⟨last, ends, rfl⟩ := Option.map_eq_some_iff.1 found
        exact ⟨name, close, rfl, by simp [Bracketed.has, there, plain.1], plain.2, close?, ends⟩
      · simp at found
    · simp at found

def nameBefore? (b : Bracketed) (i : Nat) : Option Lexeme :=
  if 0 < i then b.lexemes[i - 1]?.filter Lexeme.isIdentifier else none

theorem methodHeader?_eq (b : Bracketed) (i : Nat) :
    methodHeader? b i =
      (nameBefore? b i).bind fun l => (b.close? i).bind fun close =>
        if 1 < i && b.has (·.isSeparator ",") (i - 2) then none
        else (methodLast? b (i == 1 || separates b (i - 2)) false (close + 1)).map (⟨l.text, ·⟩) := by
  cases i with
  | zero => rfl
  | succ name =>
    simp only [methodHeader?, nameBefore?, Nat.zero_lt_succ, if_true, Nat.add_sub_cancel]
    cases b.lexemes[name]? with
    | none => rfl
    | some l =>
      cases identifier : l.isIdentifier with
      | false => cases b.close? (name + 1) <;> simp [identifier, Option.filter_some]
      | true =>
        cases b.close? (name + 1) with
        | none => simp
        | some close =>
          have comma : decide (1 < name + 1) = decide (0 < name) := by simp
          have bare : (name + 1 == 1) = (name == 0) := by simp
          have behind : name + 1 - 2 = name - 1 := by omega
          simp only [identifier, comma, bare, behind, Option.filter_some, if_true, Option.bind_some,
            Bool.true_and]
          cases decide (0 < name) && b.has (·.isSeparator ",") (name - 1) <;> simp

end EditScope.Sketch

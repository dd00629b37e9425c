import EditScope.Proofs.Bracket.Nested
import EditScope.Proofs.Sketch.Headers

set_option autoImplicit false

namespace EditScope.Sketch

structure Resumes (b b' : Bracketed) : Prop where
  sound : b.Sound
  lexeme {i : Nat} : i < b.lexemes.size → b'.lexemes[i]? = b.lexemes[i]?
  close {i : Nat} : i < b.lexemes.size → b'.close? i = b.close? i
  closed {i : Nat} : b.has (·.opens .curly) i → ∃ c, b.close? i = some c
  inside {i j c d : Nat} : b.close? i = some c → i < j → j < c → b.close? j = some d → d < c

theorem resumes_append {lexemes : List Lexeme} (nested : Bracket.Nested lexemes)
    (after : List Lexeme) : Resumes (.ofLexemes lexemes) (.ofLexemes (lexemes ++ after)) where
  sound := Bracketed.ofLexemes_sound lexemes
  lexeme {i} inside := by
    simp only [Bracketed.ofLexemes, List.size_toArray, List.getElem?_toArray] at inside ⊢
    exact List.getElem?_append_left inside
  close inside := Bracketed.close?_append nested after (by simpa [Bracketed.ofLexemes] using inside)
  closed opens := by
    obtain ⟨l, here, opens⟩ := (Option.any_eq_true _ _).1 opens
    exact Bracketed.exists_close nested (by simpa [Bracketed.ofLexemes] using here) opens
  inside outer after before found := Bracketed.close?_inside nested outer after before found

structure Fence (b : Bracketed) (low fence : Nat) : Prop where
  mark : b.has (fun l => l.isSeparator ";" || l.closes .curly) fence
  -- No group that opens from `low` on reaches over the fence.
  inside {i close : Nat} : low ≤ i → i < fence → b.close? i = some close → close ≤ fence

namespace Fence

variable {b b' : Bracketed} {low fence i : Nat} {l : Lexeme} (bound : Fence b low fence)

include bound

theorem exists_mark : ∃ l, b.lexemes[fence]? = some l ∧ (l.isSeparator ";" || l.closes .curly) :=
  (Option.any_eq_true _ _).1 bound.mark

theorem lt_size : fence < b.lexemes.size := by
  obtain ⟨l, here, _⟩ := bound.exists_mark
  exact (Array.getElem?_eq_some_iff.1 here).1

theorem lt_of_other (le : i ≤ fence) (here : b.lexemes[i]? = some l)
    (other : (l.isSeparator ";" || l.closes .curly) = false) : i < fence := by
  refine Nat.lt_of_le_of_ne le ?_
  rintro rfl
  obtain ⟨m, there, mark⟩ := bound.exists_mark
  cases Option.some.inj (here.symm.trans there)
  rw [other] at mark
  cases mark

theorem lt_of_kind (le : i ≤ fence) (here : b.lexemes[i]? = some l)
    (other : l.kind ≠ .separator) : i < fence :=
  bound.lt_of_other le here (by simp [Lexeme.closes, Lexeme.isSeparator, other])

theorem lt_of_identifier (le : i ≤ fence) (here : b.lexemes[i]? = some l)
    (identifier : l.isIdentifier) : i < fence := by
  refine bound.lt_of_kind le here ?_
  rw [eq_of_beq identifier]
  decide

theorem lt_of_typeKeyword (le : i ≤ fence) (here : b.lexemes[i]? = some l)
    (keyword : l.isTypeKeyword) : i < fence := by
  refine bound.lt_of_kind le here ?_
  rw [eq_of_beq (Bool.and_eq_true_iff.1 keyword).1]
  decide

theorem lt_of_separator (le : i ≤ fence) {mark : String} (here : b.has (·.isSeparator mark) i)
    (other : mark ≠ ";" ∧ mark ≠ Bracket.closeText .curly) : i < fence := by
  obtain ⟨l, here, separator⟩ := (Option.any_eq_true _ _).1 here
  refine bound.lt_of_other le here ?_
  simp [Lexeme.closes, Lexeme.isSeparator, (Lexeme.isSeparator_iff.1 separator).2, other]

theorem lt_of_opens (le : i ≤ fence) (here : b.lexemes[i]? = some l) {family : Bracket}
    (opens : l.opens family) : i < fence := by
  have opens : b.has (·.isSeparator family.openText) i := (Bracketed.has_eq here _).trans opens
  exact bound.lt_of_separator le opens (by cases family <;> decide)

-- Only a brace has its close at a fence.
theorem close_lt (sound : b.Sound) (above : low ≤ i) (le : i ≤ fence)
    (here : b.lexemes[i]? = some l) (group : l.opens .round || l.opens .square) {close : Nat}
    (found : b.close? i = some close) : close < fence := by
  have closes {family : Bracket} (opens : l.opens family) : b.has (·.closes family) close :=
    sound.closes_of_opens ((Bracketed.has_eq here _).trans opens) found
  rcases Bool.or_eq_true_iff.1 group with opens | opens
  · have inside := bound.inside above (bound.lt_of_opens le here opens) found
    exact bound.lt_of_separator inside (closes opens) (by decide)
  · have inside := bound.inside above (bound.lt_of_opens le here opens) found
    exact bound.lt_of_separator inside (closes opens) (by decide)

section Resumes

variable (resumes : Resumes b b') (le : i ≤ fence)

include resumes le

theorem exists_lexeme : ∃ l, b.lexemes[i]? = some l ∧ b'.lexemes[i]? = some l := by
  have inside := Nat.lt_of_le_of_lt le bound.lt_size
  have here := Array.getElem?_eq_getElem inside
  exact ⟨_, here, (resumes.lexeme inside).trans here⟩

theorem has_eq (p : Lexeme → Bool) : b'.has p i = b.has p i := by
  obtain ⟨l, here, here'⟩ := bound.exists_lexeme resumes le
  rw [Bracketed.has_eq here, Bracketed.has_eq here']

theorem close_eq : b'.close? i = b.close? i :=
  resumes.close (Nat.lt_of_le_of_lt le bound.lt_size)

theorem nameTail (name : String) :
    nameTail b' i name = nameTail b i name ∧ (nameTail b i name).2 ≤ fence := by
  induction left : fence - i using Nat.strongRecOn generalizing i name with
  | ind _ shorter =>
    obtain ⟨dot, here, here'⟩ := bound.exists_lexeme resumes le
    cases point : dot.isSeparator "." with
    | false =>
      rw [nameTail_of_other ((Bracketed.has_eq here _).trans point),
        nameTail_of_other ((Bracketed.has_eq here' _).trans point)]
      exact ⟨rfl, le⟩
    | true =>
      have below := bound.lt_of_separator le ((Bracketed.has_eq here _).trans point) (by decide)
      obtain ⟨part, there, there'⟩ := bound.exists_lexeme resumes below
      rw [nameTail_eq, nameTail_eq (b := b), here, here', there, there']
      by_cases identifier : part.isIdentifier
      · have below' := bound.lt_of_identifier below there identifier
        simp only [point, identifier, Bool.and_self, if_true]
        exact shorter (fence - (i + 2)) (by omega) below' _ rfl
      · simp [identifier, le]

theorem nameAt? : nameAt? b' i = nameAt? b i ∧ ∀ p ∈ nameAt? b i, p.2 ≤ fence ∨
    p.2 = fence + 1 ∧ b.has (·.isSeparator ";") fence := by
  obtain ⟨head, here, here'⟩ := bound.exists_lexeme resumes le
  unfold Sketch.nameAt?
  rw [here, here']
  by_cases identifier : head.isIdentifier
  · have below := bound.lt_of_identifier le here identifier
    obtain ⟨tail, inside⟩ := bound.nameTail resumes (show i + 1 ≤ fence from below) head.text
    obtain ⟨last, there, there'⟩ := bound.exists_lexeme resumes inside
    simp only [identifier, if_true, tail, Bracketed.has_eq there, Bracketed.has_eq there']
    refine ⟨trivial, ?_⟩
    rintro p ⟨⟩
    cases semicolon : last.isSeparator ";" with
    | false => exact .inl inside
    | true =>
      rcases Nat.eq_or_lt_of_le inside with same | less
      · exact .inr ⟨congrArg (· + 1) same, (Bracketed.has_eq (same ▸ there) _).trans semicolon⟩
      · exact .inl less
  · simp [identifier]

variable (above : low ≤ i)

include above

theorem bodyBrace? :
    bodyBrace? b' i = bodyBrace? b i ∧ ∀ brace ∈ bodyBrace? b i, brace < fence := by
  induction left : fence - i using Nat.strongRecOn generalizing i with
  | ind _ shorter =>
    obtain ⟨l, here, here'⟩ := bound.exists_lexeme resumes le
    rw [bodyBrace?_of_some here, bodyBrace?_of_some here']
    by_cases curly : l.opens .curly
    · simp [curly, bound.lt_of_opens le here curly]
    by_cases ends : l.isSeparator ";" || l.closes .curly
    · simp [curly, ends]
    simp only [curly, ends, Bool.false_eq_true, if_false, bound.close_eq resumes le]
    by_cases group : l.opens .round || l.opens .square
    · simp only [group, if_true]
      cases found : b.close? i with
      | none => simp
      | some close =>
        have later := (Bracketed.close?_bounds found).1
        have inside := bound.close_lt resumes.sound above le here group found
        exact shorter (fence - (close + 1)) (by omega) inside (by omega) rfl
    · simp only [group, Bool.false_eq_true, if_false]
      have below := bound.lt_of_other le here (by simpa using ends)
      exact shorter (fence - (i + 1)) (by omega) below (by omega) rfl

theorem methodLast? (bare throws : Bool) :
    methodLast? b' bare throws i = methodLast? b bare throws i ∧
      ∀ last ∈ methodLast? b bare throws i, last ≤ fence := by
  induction left : fence - i using Nat.strongRecOn generalizing i throws with
  | ind _ shorter =>
    obtain ⟨l, here, here'⟩ := bound.exists_lexeme resumes le
    rw [methodLast?_of_some here, methodLast?_of_some here', bound.close_eq resumes le]
    by_cases curly : l.opens .curly
    · have below := bound.lt_of_opens le here curly
      simp only [curly, if_true, true_and]
      exact fun last found => bound.inside above below found
    by_cases semicolon : l.isSeparator ";"
    · cases bare <;> simp [curly, semicolon, le]
    by_cases other : l.closes .curly || l.isTypeKeyword || l.isOperator "->"
    · simp [curly, semicolon, other]
    by_cases comma : l.isSeparator "," && !throws
    · simp [curly, semicolon, other, comma]
    simp only [curly, semicolon, other, comma, Bool.false_eq_true, if_false]
    by_cases group : l.opens .round || l.opens .square
    · simp only [group, if_true]
      cases found : b.close? i with
      | none => simp
      | some close =>
        have later := (Bracketed.close?_bounds found).1
        have inside := bound.close_lt resumes.sound above le here group found
        exact shorter (fence - (close + 1)) (by omega) inside (by omega) throws rfl
    · simp only [group, Bool.false_eq_true, if_false]
      have below := bound.lt_of_other le here (by simp_all)
      exact shorter (fence - (i + 1)) (by omega) below (by omega) _ rfl

theorem typeHeader? (here : b.lexemes[i]? = some l) (keyword : l.isTypeKeyword) :
    typeHeader? b' i = typeHeader? b i ∧ ∀ header ∈ typeHeader? b i, header.brace < fence := by
  have below := bound.lt_of_typeKeyword le here keyword
  obtain ⟨name, there, there'⟩ := bound.exists_lexeme resumes (show i + 1 ≤ fence from below)
  have point : b'.has (·.isSeparator ".") (i - 1) = b.has (·.isSeparator ".") (i - 1) :=
    bound.has_eq resumes (Nat.le_trans (Nat.sub_le i 1) le) _
  unfold Sketch.typeHeader?
  rw [there, there', point]
  by_cases plain : name.isIdentifier && !(0 < i && b.has (·.isSeparator ".") (i - 1))
  · have below' := bound.lt_of_identifier below there (Bool.and_eq_true_iff.1 plain).1
    obtain ⟨body, inside⟩ := bound.bodyBrace? resumes (show i + 2 ≤ fence from below') (by omega)
    simp only [plain, if_true, body]
    refine ⟨trivial, ?_⟩
    intro header found
    obtain ⟨brace, there, rfl⟩ := Option.map_eq_some_iff.1 found
    exact inside brace there
  · simp only [plain, Bool.false_eq_true, if_false]
    simp

end Resumes

end Fence

structure Body (b : Bracketed) (brace fence : Nat) : Prop where
  opens : b.has (·.opens .curly) brace
  pair : b.close? brace = some fence

namespace Body

variable {b b' : Bracketed} {brace fence i : Nat} {l : Lexeme} (body : Body b brace fence)
  (resumes : Resumes b b')

include body resumes

theorem closes : b.has (·.closes .curly) fence := resumes.sound.closes_of_opens body.opens body.pair

theorem close_lt (above : brace < i) (le : i ≤ fence) {close : Nat}
    (found : b.close? i = some close) : close < fence := by
  refine resumes.inside body.pair above (Nat.lt_of_le_of_ne le ?_) found
  rintro rfl
  obtain ⟨l, here, closes⟩ := (Option.any_eq_true _ _).1 (body.closes resumes)
  cases (resumes.sound.close?_eq_none here (Lexeme.opened?_of_closes closes)).symm.trans found

theorem bound : Fence b (brace + 1) fence where
  mark := by
    obtain ⟨l, here, closes⟩ := (Option.any_eq_true _ _).1 (body.closes resumes)
    rw [Bracketed.has_eq here, closes, Bool.or_true]
  inside above below found :=
    Nat.le_of_lt (body.close_lt resumes above (Nat.le_of_lt below) found)

theorem not_semicolon : b.has (·.isSeparator ";") fence = false := by
  obtain ⟨l, here, closes⟩ := (Option.any_eq_true _ _).1 (body.closes resumes)
  simp [Bracketed.has_eq here, Lexeme.isSeparator, (Lexeme.isSeparator_iff.1 closes).2,
    Bracket.closeText]

variable (le : i ≤ fence)

include le

theorem lt_of_other (here : b.lexemes[i]? = some l) (other : l.closes .curly = false) : i < fence := by
  refine Nat.lt_of_le_of_ne le ?_
  rintro rfl
  have closes := body.closes resumes
  rw [Bracketed.has_eq here, other] at closes
  cases closes

theorem nameAt? : nameAt? b' i = nameAt? b i ∧ ∀ p ∈ nameAt? b i, p.2 ≤ fence := by
  obtain ⟨same, inside⟩ := (body.bound resumes).nameAt? resumes le
  refine ⟨same, fun p found => (inside p found).resolve_right ?_⟩
  rintro ⟨_, semicolon⟩
  rw [body.not_semicolon resumes] at semicolon
  cases semicolon

variable (above : brace < i)

include above

theorem initializerEnd :
    initializerEnd b' i = initializerEnd b i ∧ initializerEnd b i ≤ fence := by
  induction left : fence - i using Nat.strongRecOn generalizing i with
  | ind _ shorter =>
    obtain ⟨l, here, here'⟩ := (body.bound resumes).exists_lexeme resumes le
    rw [initializerEnd_of_some here, initializerEnd_of_some here',
      (body.bound resumes).close_eq resumes le]
    by_cases closes : l.closes .curly
    · have semicolon : l.isSeparator ";" = false := by
        simp [Lexeme.isSeparator, (Lexeme.isSeparator_iff.1 closes).2, Bracket.closeText]
      simp [closes, semicolon, le]
    have below := body.lt_of_other resumes le here (by simpa using closes)
    by_cases semicolon : l.isSeparator ";"
    · simp only [semicolon, if_true, true_and]
      exact below
    simp only [closes, semicolon, Bool.false_eq_true, if_false]
    split
    · cases found : b.close? i with
      | none => exact ⟨rfl, below⟩
      | some close =>
        have later := (Bracketed.close?_bounds found).1
        have inside := body.close_lt resumes above le found
        exact shorter (fence - (close + 1)) (by omega) inside (by omega) rfl
    · exact shorter (fence - (i + 1)) (by omega) below (by omega) rfl

theorem methodLast? (bare throws : Bool) :
    methodLast? b' bare throws i = methodLast? b bare throws i ∧
      ∀ last ∈ methodLast? b bare throws i, last < fence := by
  obtain ⟨same, inside⟩ := (body.bound resumes).methodLast? resumes le above bare throws
  refine ⟨same, fun last found => Nat.lt_of_le_of_ne (inside last found) ?_⟩
  rintro rfl
  -- The close of the body around ends no method: it is no semicolon, and belongs to its own brace.
  rcases methodLast?_cases found with ⟨_, semicolon⟩ | ⟨brace', later, _, pair⟩
  · rw [body.not_semicolon resumes] at semicolon
    cases semicolon
  · have same := resumes.sound.inj pair body.pair
    omega

theorem methodHeader? :
    methodHeader? b' i = methodHeader? b i ∧ ∀ header ∈ methodHeader? b i, header.last < fence := by
  have bound := body.bound resumes
  have before (n : Nat) (p : Lexeme → Bool) : b'.has p (i - n) = b.has p (i - n) :=
    bound.has_eq resumes (Nat.le_trans (Nat.sub_le i n) le) p
  have name : nameBefore? b' i = nameBefore? b i := by
    rw [nameBefore?, nameBefore?, resumes.lexeme (by have := bound.lt_size; omega)]
  rw [methodHeader?_eq, methodHeader?_eq, name, bound.close_eq resumes le]
  cases named : nameBefore? b i with
  | none => simp
  | some l =>
    cases found : b.close? i with
    | none => simp
    | some close =>
      simp only [Option.bind_some, before, separates]
      split
      · simp
      · have later := (Bracketed.close?_bounds found).1
        obtain ⟨same, inside⟩ := body.methodLast? resumes (body.close_lt resumes above le found)
          (by omega) (i == 1 || separates b (i - 2)) false
        simp only [separates] at same inside
        rw [same]
        refine ⟨rfl, ?_⟩
        intro header ends
        obtain ⟨last, there, rfl⟩ := Option.map_eq_some_iff.1 ends
        exact inside last there

omit le above in
theorem annotationEnd (below : i < fence) (above : brace ≤ i) :
    annotationEnd b' i = annotationEnd b i ∧ annotationEnd b i ≤ fence := by
  have bound := body.bound resumes
  obtain ⟨name, inside⟩ := body.nameAt? resumes (show i + 1 ≤ fence from below)
  unfold Sketch.annotationEnd
  rw [bound.has_eq resumes (show i + 1 ≤ fence from below), name]
  split
  · exact ⟨rfl, below⟩
  cases found : Sketch.nameAt? b (i + 1) with
  | none => exact ⟨rfl, below⟩
  | some p =>
    have after := lt_nameAt? found
    have le := inside p found
    simp only [bound.has_eq resumes le, bound.close_eq resumes le]
    refine ⟨trivial, ?_⟩
    split
    · cases close : b.close? p.2 with
      | none => exact le
      | some c => exact body.close_lt resumes (by omega) le close
    · exact le

end Body

end EditScope.Sketch

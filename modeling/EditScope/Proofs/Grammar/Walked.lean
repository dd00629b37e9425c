import EditScope.Proofs.Bracket.Nested
import EditScope.Proofs.Grammar.Basic
import EditScope.Proofs.Sketch.Headers
import EditScope.Proofs.Sketch.Moves

set_option autoImplicit false

namespace EditScope.Grammar

open Sketch

variable {lexemes : List Lexeme} {i : Nat}

def At (lexemes : List Lexeme) (i : Nat) (part : List Lexeme) : Prop := part <+: lexemes.drop i

namespace At

variable {part more : List Lexeme} {l : Lexeme}

theorem left (here : At lexemes i (part ++ more)) : At lexemes i part :=
  (List.prefix_append part more).trans here

theorem right (here : At lexemes i (part ++ more)) : At lexemes (i + part.length) more := by
  obtain ⟨after, split⟩ := here
  refine ⟨after, ?_⟩
  rw [← List.drop_drop, ← split, List.append_assoc, List.drop_left]

theorem append (here : At lexemes i part) (behind : At lexemes (i + part.length) more) :
    At lexemes i (part ++ more) := by
  obtain ⟨after, split⟩ := here
  rw [At, ← List.drop_drop, ← split, List.drop_left] at behind
  obtain ⟨rest, rfl⟩ := behind
  exact ⟨rest, by rw [← split, List.append_assoc]⟩

theorem tail (here : At lexemes i (l :: part)) : At lexemes (i + 1) part := by
  have split : At lexemes i ([l] ++ part) := here
  exact split.right

theorem exists_split (here : At lexemes i (l :: part)) :
    ∃ before after, lexemes = before ++ l :: (part ++ after) ∧ before.length = i := by
  obtain ⟨after, split⟩ := here
  refine ⟨lexemes.take i, after, ?_, ?_⟩
  · rw [← List.cons_append, split, List.take_append_drop]
  · rw [List.length_take, Nat.min_eq_left]
    have length := congrArg List.length split
    simp only [List.cons_append, List.length_cons, List.length_drop] at length
    omega

theorem lexeme (here : At lexemes i (l :: part)) :
    (Bracketed.ofLexemes lexemes).lexemes[i]? = some l := by
  obtain ⟨before, after, rfl, rfl⟩ := here.exists_split
  simp [Bracketed.ofLexemes]

theorem has (here : At lexemes i (l :: part)) (p : Lexeme → Bool) :
    (Bracketed.ofLexemes lexemes).has p i = p l := Bracketed.has_eq here.lexeme p

theorem has_last (here : At lexemes i part) (ends : part.getLast? = some l) (p : Lexeme → Bool) :
    (Bracketed.ofLexemes lexemes).has p (i + part.length - 1) = p l := by
  obtain ⟨start, rfl⟩ := List.getLast?_eq_some_iff.1 ends
  rw [List.length_append, List.length_singleton]
  exact here.right.has p

theorem close? {b : Bracket} {close : Lexeme} {inner rest : List Lexeme}
    (here : At lexemes i (l :: (inner ++ close :: rest))) (opens : l.opens b) (closes : close.closes b)
    (nested : Bracket.Nested inner) :
    (Bracketed.ofLexemes lexemes).close? i = some (i + inner.length + 1) := by
  obtain ⟨before, after, rfl, rfl⟩ := here.exists_split
  rw [List.append_assoc, List.cons_append]
  exact Bracketed.close?_group opens closes nested

theorem close?_of_group {b : Bracket} {inner : List Lexeme} (here : At lexemes i (group b inner))
    (nested : Bracket.Nested inner) :
    (Bracketed.ofLexemes lexemes).close? i = some (i + inner.length + 1) :=
  here.close? (b := b) (by simp [mark, Lexeme.opens, Lexeme.isSeparator])
    (by simp [mark, Lexeme.closes, Lexeme.isSeparator]) nested

section Inside

variable {j : Nat} (here : At lexemes i part) (above : i ≤ j) (below : j < i + part.length)

include here above below

theorem lexeme_at : (Bracketed.ofLexemes lexemes).lexemes[j]? = part[j - i]? := by
  obtain ⟨after, split⟩ := here
  obtain ⟨k, rfl⟩ := Nat.exists_eq_add_of_le above
  rw [Bracketed.ofLexemes, List.getElem?_toArray, ← List.getElem?_drop, ← split,
    List.getElem?_append_left (by omega), Nat.add_sub_cancel_left]

theorem group_at (nested : Bracket.Nested part) {b : Bracket}
    (opens : (Bracketed.ofLexemes lexemes).has (·.opens b) j) :
    ∃ inner, (Bracketed.ofLexemes lexemes).close? j = some (j + inner.length + 1) ∧
      j + inner.length + 1 < i + part.length ∧ At lexemes (j + 1) inner ∧ Bracket.Nested inner := by
  obtain ⟨l, found, opens⟩ := (Option.any_eq_true _ _).1 opens
  rw [here.lexeme_at above below] at found
  obtain ⟨before, inner, close, after, rfl, length, closes, inside⟩ := nested.group_at found opens
  have there := here.right
  rw [length, Nat.add_sub_cancel' above] at there
  refine ⟨inner, there.close? opens closes inside, ?_, there.tail.left, inside⟩
  simp only [List.length_append, List.length_cons]
  omega

end Inside

end At

theorem length_group (b : Bracket) (inner : List Lexeme) :
    (group b inner).length = inner.length + 2 := by
  simp [group]

theorem listed_cons (between : String) (w : Word) (words : List Word) :
    listed between (w :: words) = w.lexeme :: words.flatMap fun v => [mark between, v.lexeme] := by
  induction words generalizing w with
  | nil => rfl
  | cons v words ih =>
    have rest := ih v
    simp only [listed, List.map_cons] at rest ⊢
    rw [List.intersperse_cons_cons, rest]
    rfl

namespace Word

variable (w : Word)

@[simp] theorem isIdentifier_lexeme : w.lexeme.isIdentifier = true := rfl

@[simp] theorem isSeparator_lexeme (mark : String) : w.lexeme.isSeparator mark = false := rfl

@[simp] theorem opens_lexeme (b : Bracket) : w.lexeme.opens b = false := rfl

@[simp] theorem closes_lexeme (b : Bracket) : w.lexeme.closes b = false := rfl

@[simp] theorem isOperator_lexeme (mark : String) : w.lexeme.isOperator mark = false := rfl

@[simp] theorem isKeyword_lexeme (word : String) : w.lexeme.isKeyword word = false := rfl

@[simp] theorem isTypeKeyword_lexeme : w.lexeme.isTypeKeyword = false := rfl

end Word

section Scans

variable {words : List Word} {body : Option Stretch} {bare throws : Bool} {w : Word}
  {l : Lexeme} {rest : List Lexeme}

theorem methodLast?_word (here : At lexemes i (w.lexeme :: rest)) :
    methodLast? (.ofLexemes lexemes) bare throws i =
      methodLast? (.ofLexemes lexemes) bare throws (i + 1) := by
  rw [methodLast?_of_some here.lexeme]
  simp

theorem methodLast?_comma (here : At lexemes i (mark "," :: rest)) :
    methodLast? (.ofLexemes lexemes) bare true i =
      methodLast? (.ofLexemes lexemes) bare true (i + 1) := by
  rw [methodLast?_of_some here.lexeme]
  rfl

theorem methodLast?_words (here : At lexemes i (words.flatMap (fun v => [mark ",", v.lexeme]) ++ rest)) :
    methodLast? (.ofLexemes lexemes) bare true i =
      methodLast? (.ofLexemes lexemes) bare true
        (i + (words.flatMap fun v => [mark ",", v.lexeme]).length) := by
  induction words generalizing i with
  | nil => rfl
  | cons v words ih =>
    rw [methodLast?_comma here, methodLast?_word here.tail, ih here.tail.tail]
    simp only [List.flatMap_cons, List.length_append, List.length_cons, List.length_nil]
    congr 1
    omega

theorem methodLast?_end (throws : Bool) (here : At lexemes i (endLexemes body)) :
    methodLast? (.ofLexemes lexemes) false throws i = some (i + (endLexemes body).length - 1) := by
  cases body with
  | none =>
    rw [methodLast?_of_some here.lexeme]
    rfl
  | some s =>
    have brace : (mark (Bracket.openText .curly)).opens .curly := by decide
    rw [methodLast?_of_some here.lexeme, if_pos brace, here.close?_of_group s.nested]
    simp [endLexemes, length_group, Nat.add_assoc]

theorem methodLast?_throws (here : At lexemes i (throwsLexemes words ++ endLexemes body)) :
    methodLast? (.ofLexemes lexemes) false false i =
      some (i + (throwsLexemes words ++ endLexemes body).length - 1) := by
  have last := methodLast?_end (!words.isEmpty) here.right
  cases words with
  | nil => exact last
  | cons w words =>
    have clause : throwsLexemes (w :: words) =
        keyword "throws" :: w.lexeme :: words.flatMap fun v => [mark ",", v.lexeme] := by
      rw [← listed_cons]
      rfl
    rw [clause] at here last ⊢
    have first : methodLast? (.ofLexemes lexemes) false false i =
        methodLast? (.ofLexemes lexemes) false true (i + 1) := by
      rw [methodLast?_of_some here.lexeme]
      rfl
    rw [first, methodLast?_word here.tail, methodLast?_words here.tail.tail]
    simp only [List.length_append, List.length_cons, List.isEmpty_cons, Bool.not_false] at last ⊢
    rw [← Nat.add_assoc, ← last]
    congr 1
    omega

theorem initializerEnd_nested {inner : List Lexeme} (nested : Bracket.Nested inner)
    (unbroken : ∀ before l after, inner = before ++ l :: after → Bracket.Nested before →
      l.isSeparator ";" = false)
    (here : At lexemes i (inner ++ [mark ";"])) :
    initializerEnd (.ofLexemes lexemes) i = i + inner.length + 1 := by
  induction nested generalizing i with
  | nil =>
    rw [initializerEnd_of_some here.lexeme]
    rfl
  | @plain l rest opened closed nested ih =>
    have semicolon := unbroken [] l rest rfl .nil
    have next := ih (fun before m after split inside => unbroken (l :: before) m after
      (congrArg _ split) (.plain opened closed inside)) here.tail
    have closes := Lexeme.closed?_eq_none.1 closed .curly
    rw [initializerEnd_of_some here.lexeme]
    simp only [semicolon, closes, opened, Option.isSome_none, Bool.false_eq_true, if_false, next,
      List.length_cons]
    omega
  | @group b l l' inner rest opens closes nested nested' _ ih =>
    have semicolon := unbroken [] l _ rfl .nil
    have plain : l.closes .curly = false := Lexeme.not_closes_of_opens opens .curly
    rw [List.cons_append, List.append_assoc, List.cons_append] at here
    have next := ih (fun before m after split inside =>
      unbroken (l :: (inner ++ l' :: before)) m after (by simp [split]) (.group opens closes nested inside))
      (here.tail.right.tail)
    rw [initializerEnd_of_some here.lexeme, here.close? opens closes nested]
    simp only [semicolon, plain, Lexeme.opened?_eq_some.2 opens, Option.isSome_some, Bool.false_eq_true,
      if_false, if_true, Option.elim_some, List.length_cons, List.length_append]
    rw [show i + inner.length + 1 + 1 = i + 1 + inner.length + 1 by omega, next]
    omega

theorem nameAt?_word (here : At lexemes i (w.lexeme :: l :: rest))
    (point : l.isSeparator "." = false) (semicolon : l.isSeparator ";" = false) :
    nameAt? (.ofLexemes lexemes) i = some (w.text, i + 1) := by
  have point' := (here.tail.has (·.isSeparator ".")).trans point
  have semicolon' := (here.tail.has (·.isSeparator ";")).trans semicolon
  simp only [nameAt?, here.lexeme, Word.isIdentifier_lexeme, if_true, nameTail_of_other point',
    semicolon', Bool.false_eq_true, if_false]
  rfl

theorem nameTail_words (here : At lexemes i
      (words.flatMap (fun v => [mark ".", v.lexeme]) ++ mark ";" :: rest)) (name : String) :
    nameTail (.ofLexemes lexemes) i name =
      (words.foldl (fun name v => name ++ "." ++ v.text) name,
        i + (words.flatMap fun v => [mark ".", v.lexeme]).length) := by
  induction words generalizing i name with
  | nil =>
    exact nameTail_of_other ((here.has _).trans rfl)
  | cons v words ih =>
    rw [nameTail_eq, here.lexeme, here.tail.lexeme]
    have point : (mark ".").isSeparator "." := by decide
    simp only [point, Word.isIdentifier_lexeme, Bool.and_self, if_true]
    rw [ih here.tail.tail]
    simp only [List.foldl_cons, List.flatMap_cons, List.length_append, List.length_cons, List.length_nil]
    refine Prod.ext rfl ?_
    simp only
    omega

theorem foldl_eq_intercalate (name : String) (words : List Word) :
    words.foldl (fun name v => name ++ "." ++ v.text) name =
      ".".intercalate (name :: words.map Word.text) := by
  induction words generalizing name with
  | nil => rfl
  | cons v words ih =>
    rw [List.foldl_cons, ih]
    cases words <;> simp [String.append_assoc]

theorem nameAt?_listed (named : words ≠ []) (here : At lexemes i (listed "." words ++ [mark ";"])) :
    nameAt? (.ofLexemes lexemes) i =
      some (".".intercalate (words.map Word.text), i + (listed "." words).length + 1) := by
  obtain ⟨w, words, rfl⟩ := List.exists_cons_of_ne_nil named
  rw [listed_cons] at here ⊢
  have semicolon : (Bracketed.ofLexemes lexemes).has (·.isSeparator ";")
      (i + 1 + (words.flatMap fun v => [mark ".", v.lexeme]).length) :=
    (here.tail.right.has _).trans rfl
  simp only [nameAt?, here.lexeme, Word.isIdentifier_lexeme, if_true, nameTail_words here.tail, semicolon]
  rw [foldl_eq_intercalate, List.length_cons]
  refine congrArg some (Prod.ext rfl ?_)
  simp only
  omega

theorem annotationEnd_lexemes {a : Tag} (here : At lexemes i (a.lexemes ++ l :: rest))
    (keyword : l.kind = .keyword) :
    annotationEnd (.ofLexemes lexemes) i = i + a.lexemes.length := by
  obtain ⟨name, arguments⟩ := a
  have interface : (Bracketed.ofLexemes lexemes).has (·.isKeyword "interface") (i + 1) = false :=
    (here.tail.has _).trans rfl
  have other (text : String) : l.isSeparator text = false := by simp [Lexeme.isSeparator, keyword]
  cases arguments with
  | none =>
    have round : (Bracketed.ofLexemes lexemes).has (·.opens .round) (i + 2) = false :=
      (here.tail.tail.has _).trans (other _)
    simp only [annotationEnd, interface, Bool.false_eq_true, if_false,
      nameAt?_word here.tail (other _) (other _), round]
    rfl
  | some s =>
    have round : (Bracketed.ofLexemes lexemes).has (·.opens .round) (i + 2) :=
      (here.tail.tail.has _).trans rfl
    have close := here.tail.tail.left.close?_of_group s.nested
    simp only [annotationEnd, interface, Bool.false_eq_true, if_false,
      nameAt?_word here.tail rfl rfl, round, if_true, close]
    simp [Tag.lexemes, length_group]
    omega

variable {name : Word} {inner : List Lexeme} {parameters : Stretch}

def Clear (lexemes : List Lexeme) (i : Nat) : Prop :=
  (0 < i && (Bracketed.ofLexemes lexemes).has (·.isSeparator ".") (i - 1)) = false

theorem At.clear (here : At lexemes i (l :: rest)) (other : l.isSeparator "." = false) :
    Clear lexemes (i + 1) := by
  simp [Clear, here.has, other]

theorem typeHeader?_lexemes (here : At lexemes i (typeLexemes name inner)) (clear : Clear lexemes i) :
    typeHeader? (.ofLexemes lexemes) i = some ⟨name.text, i + 2⟩ := by
  have brace : bodyBrace? (.ofLexemes lexemes) (i + 2) = some (i + 2) := by
    rw [bodyBrace?_of_some here.tail.tail.lexeme]
    rfl
  have clear : (0 < i && (Bracketed.ofLexemes lexemes).has (·.isSeparator ".") (i - 1)) = false := clear
  simp only [typeHeader?, here.tail.lexeme, Word.isIdentifier_lexeme, clear, brace, Bool.not_false,
    Bool.and_self, if_true]
  rfl

theorem methodHeader?_lexemes
    (here : At lexemes i (keyword "void" :: methodLexemes name parameters words body)) :
    methodHeader? (.ofLexemes lexemes) (i + 2) =
      some ⟨name.text, i + (methodLexemes name parameters words body).length⟩ := by
  have close := here.tail.tail.left.close?_of_group parameters.nested
  have after := here.tail.tail.right
  rw [length_group] at after
  have named : nameBefore? (.ofLexemes lexemes) (i + 2) = some name.lexeme := by
    simp [nameBefore?, here.tail.lexeme, Option.filter_some]
  have comma : (Bracketed.ofLexemes lexemes).has (·.isSeparator ",") i = false := (here.has _).trans rfl
  have bare : separates (.ofLexemes lexemes) i = false := (here.has _).trans rfl
  rw [methodHeader?_eq, named, close]
  have one : (i + 2 == 1) = false := by simp
  have start : i + 1 + 1 + parameters.lexemes.length + 1 + 1 =
      i + 1 + 1 + (parameters.lexemes.length + 2) := rfl
  simp only [Option.bind_some, Nat.add_sub_cancel, comma, bare, one, Bool.and_false, Bool.or_self,
    Bool.false_eq_true, if_false, start, methodLast?_throws after, Option.map_some]
  simp [methodLexemes, length_group, Word.lexeme]
  omega

end Scans

section Walks

variable {limit : Nat} {w : Walk} {l : Lexeme} {rest : List Lexeme}

abbrev merging (limit : Nat) : Rules := ⟨.merge, some limit⟩

def addAll (w : Walk) (ds : List Sketch) : Walk := ds.foldl Walk.add w

theorem addAll_append (w : Walk) (ds more : List Sketch) :
    addAll w (ds ++ more) = addAll (addAll w ds) more := List.foldl_append

theorem addAll_of_cons {f : Frame} {frames : List Frame} (inside : w.frames = f :: frames)
    (ds : List Sketch) :
    addAll w ds = { w with frames := { f with members := ds.reverse ++ f.members } :: frames } := by
  induction ds generalizing w f with
  | nil => simp [addAll, ← inside]
  | cons d ds ih =>
    have first : w.add d = { w with frames := { f with members := d :: f.members } :: frames } := by
      simp only [Walk.add, inside]
    have rest : addAll w (d :: ds) = addAll (w.add d) ds := rfl
    rw [rest, first, ih rfl]
    simp

theorem addAll_of_nil (outside : w.frames = []) (ds : List Sketch) :
    addAll w ds = { w with types := ds.reverse ++ w.types } := by
  induction ds generalizing w with
  | nil => rfl
  | cons d ds ih =>
    have first : w.add d = { w with types := d :: w.types } := by
      simp only [Walk.add, outside]
    have rest : addAll w (d :: ds) = addAll (w.add d) ds := rfl
    rw [rest, first, ih (w := { w with types := d :: w.types }) outside]
    simp

theorem length_addAll (w : Walk) (ds : List Sketch) :
    (addAll w ds).frames.length = w.frames.length := by
  cases frames : w.frames with
  | nil => simp [addAll_of_nil frames, frames]
  | cons f frames' => simp [addAll_of_cons frames]

theorem leave_addAll (name : String) (keyword start : Nat) (ds : List Sketch) (last : Option Nat) :
    (addAll (w.enter ⟨name, keyword, start, []⟩) ds).leave .merge last =
      w.add (.mk .type name ⟨keyword, last⟩ ds) := by
  rw [addAll_of_cons rfl]
  simp only [Walk.leave, Overloads.apply, List.append_nil, List.reverse_reverse]
  rfl

theorem step_inside (inside : w.frames ≠ []) (b : Bracketed) (rules : Rules) (i : Nat) (l : Lexeme) :
    step b rules i l w = memberStep b rules i l w := by
  simp [step, inside]

theorem leads_word (inside : w.frames ≠ []) {v : Word} (here : At lexemes i (v.lexeme :: rest)) :
    Leads (.ofLexemes lexemes) (merging limit) i w (i + 1) w := by
  refine .step here.lexeme ?_
  rw [step_inside inside]
  simp only [memberStep, Word.closes_lexeme, Word.isTypeKeyword_lexeme, Word.isOperator_lexeme,
    Word.isSeparator_lexeme, Word.opens_lexeme, Bool.false_eq_true, if_false]
  exact .here

theorem leads_keyword (inside : w.frames ≠ []) {word : String} (other : word ∉ Lexeme.typeKeywords)
    (here : At lexemes i (keyword word :: rest)) :
    Leads (.ofLexemes lexemes) (merging limit) i w (i + 1) w := by
  have keyword' : (keyword word).isTypeKeyword = false := by
    simp [keyword, Lexeme.isTypeKeyword, other]
  refine .step here.lexeme ?_
  rw [step_inside inside, memberStep, keyword']
  exact .here

theorem leads_tagged {a : Option Tag} (inside : w.frames ≠ [])
    (here : At lexemes i (tagged a ++ l :: rest)) (keyword : l.kind = .keyword) :
    Leads (.ofLexemes lexemes) (merging limit) i w (i + (tagged a).length) w := by
  cases a with
  | none => exact .here
  | some a =>
    have sign : memberStep (.ofLexemes lexemes) (merging limit) i (mark "@") w =
        (i + a.lexemes.length, w) := by
      rw [← annotationEnd_lexemes here keyword]
      rfl
    refine .step (At.lexeme (l := mark "@") here) ?_
    rw [step_inside inside, sign]
    exact .here

def extentOf (before inside : List Lexeme) : Extent :=
  ⟨before.length, some (before.length + inside.length - 1)⟩

theorem leads_type {name : Word} {inner before : List Lexeme} {ds : List Sketch}
    (start : before.length = i) (here : At lexemes i (typeLexemes name inner))
    (clear : Clear lexemes i) (shallow : w.frames.length < limit)
    (members : ∀ v : Walk, v.frames.length = w.frames.length + 1 →
      Leads (.ofLexemes lexemes) (merging limit) (i + 3) v (i + 3 + inner.length) (addAll v ds)) :
    Leads (.ofLexemes lexemes) (merging limit) i w (i + (typeLexemes name inner).length)
      (w.add (.mk .type name.text (extentOf before (typeLexemes name inner)) ds)) := by
  have class' : step (.ofLexemes lexemes) (merging limit) i (keyword "class") w =
      typeStep (.ofLexemes lexemes) (merging limit) i w := by
    unfold step
    split <;> rfl
  have entered : typeStep (.ofLexemes lexemes) (merging limit) i w =
      (i + 3, w.enter ⟨name.text, i, i + 3, []⟩) := by
    simp [typeStep, typeHeader?_lexemes here clear, Nat.not_le.2 shallow]
  have length : (typeLexemes name inner).length = inner.length + 4 := by
    simp [typeLexemes, length_group]
  have inside := members (w.enter ⟨name.text, i, i + 3, []⟩) rfl
  have brace := here.tail.tail.tail.right
  have nonempty : (addAll (w.enter ⟨name.text, i, i + 3, []⟩) ds).frames ≠ [] := by
    rw [← List.length_pos_iff, length_addAll]
    exact Nat.succ_pos _
  -- The members are there; the last step is the one at the closing brace.
  have left : Leads (.ofLexemes lexemes) (merging limit) (i + 3 + inner.length)
      (addAll (w.enter ⟨name.text, i, i + 3, []⟩) ds) (i + 3 + inner.length + 1)
      (w.add (.mk .type name.text ⟨i, some (i + 3 + inner.length)⟩ ds)) := by
    refine .step brace.lexeme ?_
    rw [step_inside nonempty, ← leave_addAll]
    exact .here
  have extent : extentOf before (typeLexemes name inner) = ⟨i, some (i + 3 + inner.length)⟩ := by
    rw [extentOf, start, length]
    congr 2
    omega
  refine .step here.lexeme ?_
  rw [class', entered, extent, length, show i + (inner.length + 4) = i + 3 + inner.length + 1 by omega]
  exact inside.trans left

theorem leads_method {name : Word} {parameters : Stretch} {throws : List Word}
    {body : Option Stretch} {before : List Lexeme} (start : before.length = i)
    (inside : w.frames ≠ [])
    (here : At lexemes i (keyword "void" :: methodLexemes name parameters throws body)) :
    Leads (.ofLexemes lexemes) (merging limit) i w
      (i + (keyword "void" :: methodLexemes name parameters throws body).length)
      (w.add (.mk .method name.text
        (extentOf (before ++ [keyword "void"]) (methodLexemes name parameters throws body)) [])) := by
  have first : Leads (.ofLexemes lexemes) (merging limit) i w (i + 1) w :=
    leads_keyword inside (by decide) here
  have second : Leads (.ofLexemes lexemes) (merging limit) (i + 1) w (i + 1 + 1) w :=
    leads_word inside here.tail
  have round : (mark (Bracket.openText .round)).opens .round := by decide
  have extent : extentOf (before ++ [keyword "void"]) (methodLexemes name parameters throws body) =
      ⟨i + 1, some (i + (methodLexemes name parameters throws body).length)⟩ := by
    simp only [extentOf, List.length_append, start, List.length_singleton]
    congr 2
    omega
  refine (first.trans second).trans (.step here.tail.tail.lexeme ?_)
  rw [step_inside inside, memberStep, if_neg (by decide), if_neg (by decide), if_neg (by decide),
    if_neg (by decide), if_pos round, methodHeader?_lexemes here, extent]
  exact .here

theorem leads_field {name : Word} {value : Initializer} (inside : w.frames ≠ [])
    (here : At lexemes i (fieldLexemes name value)) :
    Leads (.ofLexemes lexemes) (merging limit) i w (i + (fieldLexemes name value).length) w := by
  have first : Leads (.ofLexemes lexemes) (merging limit) i w (i + 1) w :=
    leads_keyword inside (by decide) here
  have second : Leads (.ofLexemes lexemes) (merging limit) (i + 1) w (i + 1 + 1) w :=
    leads_word inside here.tail
  have ends := initializerEnd_nested value.nested value.unbroken here.tail.tail.tail
  have length : i + (fieldLexemes name value).length =
      i + 1 + 1 + 1 + value.lexemes.length + 1 := by
    simp only [fieldLexemes, List.length_cons, List.length_append, List.length_nil]
    omega
  refine (first.trans second).trans (.step here.tail.tail.lexeme ?_)
  rw [step_inside inside, length, ← ends]
  exact .here

theorem At.clear_last {part : List Lexeme} (here : At lexemes i part)
    (ends : part.getLast? = some l) (other : l.isSeparator "." = false) :
    Clear lexemes (i + part.length) := by
  obtain ⟨start, rfl⟩ := List.getLast?_eq_some_iff.1 ends
  rw [List.length_append, ← Nat.add_assoc]
  exact here.right.clear other

theorem clear_tagged {a : Option Tag} (clear : Clear lexemes i)
    (here : At lexemes i (tagged a ++ rest)) : Clear lexemes (i + (tagged a).length) := by
  match a with
  | none => exact clear
  | some ⟨name, none⟩ => exact here.left.clear_last rfl rfl
  | some ⟨name, some s⟩ =>
    refine here.left.clear_last (l := mark ")") ?_ rfl
    simp [List.getLast?_cons, tagged, Tag.lexemes, group, Bracket.closeText]

theorem clear_member (m : Member) (here : At lexemes i m.lexemes) :
    Clear lexemes (i + m.lexemes.length) := by
  match m with
  | .type a name members =>
    refine here.clear_last (l := mark "\x7d") ?_ rfl
    simp [List.getLast?_cons, Member.lexemes, typeLexemes, group, Bracket.closeText]
  | .method a name parameters throws none =>
    refine here.clear_last (l := mark ";") ?_ rfl
    simp [List.getLast?_cons, Member.lexemes, methodLexemes, endLexemes]
  | .method a name parameters throws (some s) =>
    refine here.clear_last (l := mark "\x7d") ?_ rfl
    simp [List.getLast?_cons, Member.lexemes, methodLexemes, endLexemes, group, Bracket.closeText]
  | .field a name value =>
    refine here.clear_last (l := mark ";") ?_ rfl
    simp [List.getLast?_cons, Member.lexemes, fieldLexemes]

mutual

theorem leads_member : ∀ (m : Member) {i : Nat} {w : Walk} {before : List Lexeme},
    before.length = i → At lexemes i m.lexemes → Clear lexemes i → w.frames ≠ [] →
    w.frames.length + m.depth ≤ limit →
      Leads (.ofLexemes lexemes) (merging limit) i w (i + m.lexemes.length)
        (addAll w (m.declarations extentOf before))
  | .type a name members, i, w, before, start, here, clear, inside, shallow => by
    rw [Member.lexemes] at here ⊢
    rw [Member.depth] at shallow
    have first : Leads (.ofLexemes lexemes) (merging limit) i w (i + (tagged a).length) w :=
      leads_tagged inside here rfl
    have type' := here.right
    rw [Member.declarations, List.length_append, ← Nat.add_assoc]
    refine first.trans (leads_type (by simp [start]) type' (clear_tagged clear here) (by omega)
      fun v deeper => ?_)
    exact leads_members members (by simp [start, Nat.add_assoc]) type'.tail.tail.tail.left
      (type'.tail.tail.clear rfl) (by rw [← List.length_pos_iff]; omega) (by omega)
  | .method a name parameters throws body, i, w, before, start, here, clear, inside, _ => by
    rw [Member.lexemes] at here ⊢
    have first : Leads (.ofLexemes lexemes) (merging limit) i w (i + (tagged a).length) w :=
      leads_tagged inside here rfl
    rw [Member.declarations, List.length_append, ← Nat.add_assoc]
    exact first.trans (leads_method (by simp [start]) inside here.right)
  | .field a name value, i, w, before, start, here, clear, inside, _ => by
    rw [Member.lexemes] at here ⊢
    have first : Leads (.ofLexemes lexemes) (merging limit) i w (i + (tagged a).length) w :=
      leads_tagged inside here rfl
    rw [Member.declarations, List.length_append, ← Nat.add_assoc]
    exact first.trans (leads_field inside here.right)

theorem leads_members : ∀ (members : List Member) {i : Nat} {w : Walk} {before : List Lexeme},
    before.length = i → At lexemes i (membersLexemes members) → Clear lexemes i → w.frames ≠ [] →
    w.frames.length + membersDepth members ≤ limit →
      Leads (.ofLexemes lexemes) (merging limit) i w (i + (membersLexemes members).length)
        (addAll w (membersDeclarations extentOf before members))
  | [], i, w, before, _, _, _, _, _ => .here
  | m :: members, i, w, before, start, here, clear, inside, shallow => by
    rw [membersLexemes] at here ⊢
    rw [membersDepth] at shallow
    have first := leads_member m start here.left clear inside (by omega)
    have frames := length_addAll w (m.declarations extentOf before)
    have inside' : (addAll w (m.declarations extentOf before)).frames ≠ [] := by
      rw [← List.length_pos_iff, frames]
      exact List.length_pos_iff.2 inside
    rw [membersDeclarations, addAll_append, List.length_append, ← Nat.add_assoc]
    exact first.trans (leads_members members (by simp [start]) here.right
      (clear_member m here.left) inside' (by omega))

end

theorem leads_topLevel {types : List (Word × List Member)} {before : List Lexeme}
    (start : before.length = i) (here : At lexemes i (membersLexemes (topLevel types)))
    (clear : Clear lexemes i) (outside : w.frames = [])
    (shallow : membersDepth (topLevel types) ≤ limit) :
    Leads (.ofLexemes lexemes) (merging limit) i w (i + (membersLexemes (topLevel types)).length)
      (addAll w (membersDeclarations extentOf before (topLevel types))) := by
  induction types generalizing i w before with
  | nil => exact .here
  | cons t types ih =>
    obtain ⟨name, members⟩ := t
    have cons : topLevel ((name, members) :: types) = .type none name members :: topLevel types := rfl
    rw [cons, membersLexemes] at here ⊢
    rw [cons, membersDepth, Member.depth] at shallow
    have type' : At lexemes i (typeLexemes name (membersLexemes members)) := here.left
    have first : Leads (.ofLexemes lexemes) (merging limit) i w
        (i + (typeLexemes name (membersLexemes members)).length)
        (addAll w (Member.declarations extentOf before (.type none name members))) := by
      refine leads_type (by simp [start, tagged]) type' clear (by simp [outside]; omega)
        fun v deeper => ?_
      rw [outside, List.length_nil] at deeper
      exact leads_members members (by simp [start, tagged]) type'.tail.tail.tail.left
        (type'.tail.tail.clear rfl) (by rw [← List.length_pos_iff]; omega) (by omega)
    have outside' : (addAll w (Member.declarations extentOf before (.type none name members))).frames =
        [] := by
      rw [← List.length_eq_zero_iff, length_addAll, outside, List.length_nil]
    rw [membersDeclarations, addAll_append, List.length_append, ← Nat.add_assoc]
    exact first.trans (ih (by simp [start, Member.lexemes, tagged]) here.right
      (clear_member _ here.left) outside' (by omega))

variable (file : File)

theorem leads_header : Leads (.ofLexemes file.lexemes) (merging limit) 0 {} file.header.length
    { package := some file.name } := by
  have here : At file.lexemes 0 file.header := ⟨_, rfl⟩
  have clause : fileStep (.ofLexemes file.lexemes) (merging limit) 0 (keyword "package") {} =
      (file.header.length, { package := some file.name }) := by
    have package : (keyword "package").isKeyword "package" := by decide
    simp only [fileStep, package, nameAt?_listed file.named here.tail, Option.isNone_none,
      Bool.and_self, if_true]
    refine Prod.ext ?_ rfl
    simp only [File.header, List.length_cons, List.length_append, List.length_nil]
    omega
  have once : step (.ofLexemes file.lexemes) (merging limit) 0 (keyword "package") {} =
      (file.header.length, { package := some file.name }) := clause
  refine .step here.lexeme ?_
  rw [once]
  exact .here

theorem leads_file (shallow : file.depth ≤ limit) :
    Leads (.ofLexemes file.lexemes) (merging limit) 0 {} file.lexemes.length
      (addAll { package := some file.name } (file.declarations extentOf)) := by
  have whole : At file.lexemes 0 (file.header ++ membersLexemes (topLevel file.types)) := ⟨[], by
    simp [File.lexemes]⟩
  have here := whole.right
  have clear : Clear file.lexemes (0 + file.header.length) := by
    refine whole.left.clear_last (l := mark ";") ?_ rfl
    simp [File.header, List.getLast?_cons]
  rw [Nat.zero_add] at here clear
  have length : file.lexemes.length =
      file.header.length + (membersLexemes (topLevel file.types)).length := List.length_append
  rw [length]
  exact (leads_header file).trans (leads_topLevel rfl here clear rfl shallow)

end Walks

theorem ofLexemes_file {limit : Nat} (file : File) (shallow : file.depth ≤ limit) :
    SketchedFile.ofLexemes (merging limit) file.lexemes =
      ⟨some file.name, file.declarations extentOf, []⟩ := by
  have walked : walk (.ofLexemes file.lexemes) (merging limit) 0 {} =
      { package := some file.name, types := (file.declarations extentOf).reverse } := by
    rw [walk_eq_of_leads (leads_file file shallow), walk_of_size_le (by simp [Bracketed.ofLexemes]),
      addAll_of_nil rfl]
    simp [Walk.finish]
  simp [SketchedFile.ofLexemes, walked]

end EditScope.Grammar

import EditScope.Outline.Source
import EditScope.Proofs.Sketch.Bodies

set_option autoImplicit false

namespace EditScope.Grammar

open Sketch EditScope.Bracket

structure Constant where
  name : Lexeme
  arguments : Option (List Lexeme)
  named : name.isIdentifier
  nested : ∀ args ∈ arguments, Nested args
  typeless : ∀ args ∈ arguments, ∀ l ∈ args, l.isTypeKeyword = false

def Constant.lexemes (c : Constant) : List Lexeme :=
  c.name :: (c.arguments.map (group .round)).getD []

def behind : List Constant → List Lexeme
  | [] => [mark ";"]
  | c :: cs => mark "," :: (c.lexemes ++ behind cs)

def listing : List Constant → List Lexeme
  | [] => [mark ";"]
  | c :: cs => c.lexemes ++ behind cs

def lead (cs : List Constant) : List Lexeme := cs.flatMap fun c => c.lexemes ++ [mark ","]

/-- Outside groups, a comma or an arrow comes before any brace, semicolon or throws clause. -/
inductive Refused : List Lexeme → Prop where
  | comma {l : Lexeme} {rest : List Lexeme} (here : l.isSeparator ",") : Refused (l :: rest)
  | arrow {l : Lexeme} {rest : List Lexeme} (here : l.isOperator "->") : Refused (l :: rest)
  | plain {l : Lexeme} {rest : List Lexeme} (opened : l.opened? = none)
      (semicolon : l.isSeparator ";" = false) (throws : l.isKeyword "throws" = false)
      (more : Refused rest) : Refused (l :: rest)
  | group {b : Bracket} {inner rest : List Lexeme} (other : b ≠ .curly) (nested : Nested inner)
      (more : Refused rest) : Refused (group b inner ++ rest)

/-- A call among arguments that passes for a method. -/
structure Exposed (args after before : List Lexeme) (name : Lexeme) (inner rest : List Lexeme) :
    Prop where
  split : args = before ++ name :: (group .round inner ++ rest)
  named : name.isIdentifier
  nested : Nested inner
  unbraced : ∀ first body more, args = first ++ (group .curly body ++ more) → Nested body →
    before.length < first.length ∨ first.length + body.length + 2 ≤ before.length
  unlisted : before.getLast? ≠ some (mark ",")
  accepted : ¬ Refused (rest ++ mark ")" :: after)

inductive Stray (start : Nat) : List Constant → Sketch → Prop where
  | mk {earlier later : List Constant} {c : Constant} {args before inner rest : List Lexeme}
      {name : Lexeme} {last : Nat} (arguments : args ∈ c.arguments)
      (exposed : Exposed args (behind later) before name inner rest)
      (within : last < start + (listing (earlier ++ c :: later)).length) :
      Stray start (earlier ++ c :: later) (.mk .method name.text
        ⟨start + (lead earlier).length + 2 + before.length, some last⟩ [])

section Listing

variable {c : Constant} {cs earlier later : List Constant} {k : Nat} {l : Lexeme}

theorem listing_append (c : Constant) (earlier later : List Constant) :
    listing (earlier ++ c :: later) = lead earlier ++ (c.lexemes ++ behind later) := by
  induction earlier with
  | nil => rfl
  | cons c' earlier ih =>
    have next : behind (earlier ++ c :: later) = mark "," :: listing (earlier ++ c :: later) := by
      cases earlier <;> rfl
    rw [List.cons_append, listing, next, ih]
    simp [lead]

theorem Constant.lexemes_of_arguments {args : List Lexeme} (arguments : args ∈ c.arguments) :
    c.lexemes = c.name :: group .round args := by
  simp [Constant.lexemes, Option.mem_def.1 arguments]

theorem Constant.nested_lexemes (c : Constant) : Nested c.lexemes := by
  have closed : c.name.closed? = none := by
    rw [Lexeme.closed?_eq_none]
    simp [Lexeme.closes, Lexeme.isSeparator, eq_of_beq c.named]
  refine .plain (Lexeme.opened?_of_identifier c.named) closed ?_
  cases arguments : c.arguments with
  | none => exact .nil
  | some args => exact .group (b := .round) (by decide) (by decide) (c.nested args arguments) .nil

theorem exists_nested_behind (cs : List Constant) :
    ∃ inner, behind cs = inner ++ [mark ";"] ∧ Nested inner := by
  induction cs with
  | nil => exact ⟨[], rfl, .nil⟩
  | cons c cs ih =>
    obtain ⟨inner, split, nested⟩ := ih
    refine ⟨mark "," :: (c.lexemes ++ inner), by simp [behind, split], ?_⟩
    exact .plain (by decide) (by decide) (c.nested_lexemes.append nested)

theorem exists_nested_listing (cs : List Constant) :
    ∃ inner, listing cs = inner ++ [mark ";"] ∧ Nested inner := by
  cases cs with
  | nil => exact ⟨[], rfl, .nil⟩
  | cons c cs =>
    obtain ⟨inner, split, nested⟩ := exists_nested_behind cs
    exact ⟨c.lexemes ++ inner, by simp [listing, split], c.nested_lexemes.append nested⟩

inductive Place (cs : List Constant) : Nat → Lexeme → Prop where
  | plain {k : Nat} {l : Lexeme} (type : l.isTypeKeyword = false) (sign : l.isSeparator "@" = false)
      (round : l.opens .round = false) : Place cs k l
  | opening {earlier later : List Constant} {c : Constant} {args : List Lexeme}
      (split : cs = earlier ++ c :: later) (arguments : args ∈ c.arguments) :
      Place cs ((lead earlier).length + 1) (mark "(")
  | argument {earlier later : List Constant} {c : Constant} {args : List Lexeme} {j : Nat} {l : Lexeme}
      (split : cs = earlier ++ c :: later) (arguments : args ∈ c.arguments) (here : args[j]? = some l) :
      Place cs ((lead earlier).length + 2 + j) l

theorem Place.cons (c : Constant) (place : Place cs k l) :
    Place (c :: cs) (c.lexemes.length + 1 + k) l := by
  have length (earlier : List Constant) :
      (lead (c :: earlier)).length = c.lexemes.length + 1 + (lead earlier).length := by
    simp only [lead, List.flatMap_cons, List.length_append, List.length_singleton]
  cases place with
  | plain type sign round => exact .plain type sign round
  | @opening earlier later c' args split arguments =>
    rw [← Nat.add_assoc, ← length]
    exact .opening (congrArg _ split) arguments
  | @argument earlier later c' args j l split arguments here =>
    rw [← Nat.add_assoc, ← Nat.add_assoc, ← length]
    exact .argument (congrArg _ split) arguments here

theorem place_constant (cs : List Constant) (here : c.lexemes[k]? = some l) : Place (c :: cs) k l := by
  have name : Place (c :: cs) 0 c.name := by
    have kind := eq_of_beq c.named
    exact .plain (by simp [Lexeme.isTypeKeyword, kind]) (by simp [Lexeme.isSeparator, kind])
      (by simp [Lexeme.opens, Lexeme.isSeparator, kind])
  cases arguments : c.arguments with
  | none =>
    simp only [Constant.lexemes, arguments] at here
    cases k with
    | zero =>
      cases Option.some.inj here
      exact name
    | succ k => cases here
  | some args =>
    rw [Constant.lexemes_of_arguments arguments] at here
    rcases k with _ | _ | j
    · cases Option.some.inj here
      exact name
    · cases Option.some.inj here
      have place : Place (c :: cs) ((lead []).length + 1) (mark "(") := .opening rfl arguments
      exact place
    · rw [List.getElem?_cons_succ, group, List.getElem?_cons_succ] at here
      by_cases inside : j < args.length
      · rw [List.getElem?_append_left inside] at here
        have place : Place (c :: cs) ((lead []).length + 2 + j) l := .argument rfl arguments here
        rwa [show (lead []).length + 2 + j = j + 2 from Nat.add_comm 2 j] at place
      · rw [List.getElem?_append_right (by omega)] at here
        cases List.mem_singleton.1 (List.mem_of_getElem? here)
        exact .plain rfl rfl rfl

theorem place_of (here : (listing cs)[k]? = some l) : Place cs k l := by
  induction cs generalizing k with
  | nil =>
    cases List.mem_singleton.1 (List.mem_of_getElem? here)
    exact .plain rfl rfl rfl
  | cons c cs ih =>
    rw [listing] at here
    by_cases inside : k < c.lexemes.length
    · rw [List.getElem?_append_left inside] at here
      exact place_constant cs here
    · obtain ⟨j, rfl⟩ := Nat.exists_eq_add_of_le (Nat.le_of_not_lt inside)
      rw [List.getElem?_append_right (by omega), Nat.add_sub_cancel_left] at here
      cases cs with
      | nil =>
        cases List.mem_singleton.1 (List.mem_of_getElem? here)
        exact .plain rfl rfl rfl
      | cons c' cs =>
        cases j with
        | zero =>
          cases Option.some.inj here
          exact .plain rfl rfl rfl
        | succ j =>
          have place := (ih here).cons c
          rwa [show c.lexemes.length + 1 + j = c.lexemes.length + (j + 1) by omega] at place

theorem typeless_listing (place : Place cs k l) : l.isTypeKeyword = false := by
  cases place with
  | plain type => exact type
  | opening => rfl
  | @argument _ _ c _ _ _ _ arguments here => exact c.typeless _ arguments _ (List.mem_of_getElem? here)

end Listing

section Scans

variable {lexemes rest : List Lexeme} {i s : Nat} {c : Constant} {cs earlier later : List Constant}

theorem eq_mark {l : Lexeme} {text : String} (here : l.isSeparator text) : l = mark text := by
  obtain ⟨kind, text'⟩ := l
  obtain ⟨rfl, rfl⟩ := Lexeme.isSeparator_iff.1 here
  rfl

theorem methodLast?_refused {bare : Bool} (refused : Refused rest) (here : At lexemes i rest) :
    methodLast? (.ofLexemes lexemes) bare false i = none := by
  induction refused generalizing i with
  | comma comma =>
    cases eq_mark comma
    rw [methodLast?_of_some here.lexeme]
    rfl
  | @arrow l rest arrow =>
    have opens : l.opens .curly = false :=
      Lexeme.opened?_eq_none.1 (Lexeme.opened?_of_operator arrow) .curly
    have semicolon : l.isSeparator ";" = false := by
      simp [Lexeme.isSeparator, eq_of_beq (Bool.and_eq_true_iff.1 arrow).1]
    simp [methodLast?_of_some here.lexeme, opens, semicolon, arrow]
  | @plain l rest opened semicolon throws _ ih =>
    have opens := Lexeme.opened?_eq_none.1 opened
    rw [methodLast?_of_some here.lexeme]
    simp only [opens, semicolon, throws, Bool.or_false, Bool.false_eq_true, if_false, ih here.tail]
    repeat' split
    all_goals rfl
  | @group b inner rest other nested _ ih =>
    have close := here.left.close?_of_group nested
    have after := here.right
    rw [length_group] at after
    have first : At lexemes i (mark b.openText :: (inner ++ mark b.closeText :: rest)) := by
      simpa [group] using here
    rw [methodLast?_of_some first.lexeme, close, Option.bind_some,
      show i + inner.length + 1 + 1 = i + (inner.length + 2) by omega, ih after]
    cases b with
    | curly => exact absurd rfl other
    | round => rfl
    | square => rfl

theorem methodLast?_behind (here : At lexemes i (behind cs)) :
    methodLast? (.ofLexemes lexemes) true false i = none := by
  cases cs with
  | nil =>
    rw [methodLast?_of_some (At.lexeme (l := mark ";") here)]
    rfl
  | cons c cs =>
    rw [methodLast?_of_some (At.lexeme (l := mark ",") here)]
    rfl

section Constants

variable (separated : separates (.ofLexemes lexemes) s)
  (here : At lexemes (s + 1) (listing (earlier ++ c :: later)))

include here

theorem arguments_at {args : List Lexeme} (arguments : args ∈ c.arguments) :
    At lexemes (s + 1 + (lead earlier).length + 1) (mark "(" :: (args ++ mark ")" :: behind later)) := by
  rw [listing_append, Constant.lexemes_of_arguments arguments] at here
  have there := here.right.tail
  simp only [group, List.append_eq, List.cons_append, List.append_assoc] at there
  exact there

theorem close?_arguments {args : List Lexeme} (arguments : args ∈ c.arguments) :
    (Bracketed.ofLexemes lexemes).close? (s + 1 + (lead earlier).length + 1) =
      some (s + 1 + (lead earlier).length + 1 + args.length + 1) :=
  (arguments_at here arguments).close? (b := .round) (by decide) (by decide) (c.nested args arguments)

include separated

theorem separates_lead : separates (.ofLexemes lexemes) (s + (lead earlier).length) := by
  rcases List.eq_nil_or_concat earlier with rfl | ⟨before, c', rfl⟩
  · exact separated
  · rw [listing_append] at here
    have ends : (lead (before.concat c')).getLast? = some (mark ",") := by simp [lead]
    have comma := here.left.has_last ends
    rw [Nat.add_right_comm, Nat.add_sub_cancel] at comma
    exact (comma _).trans rfl

theorem methodHeader?_constant {args : List Lexeme} (arguments : args ∈ c.arguments) :
    methodHeader? (.ofLexemes lexemes) (s + 1 + (lead earlier).length + 1) = none := by
  have separated' := separates_lead separated here
  have after := (arguments_at here arguments).tail.right.tail
  rw [Nat.add_right_comm _ 1 args.length] at after
  have bare : (s + 1 + (lead earlier).length + 1 == 1 ||
      separates (.ofLexemes lexemes) (s + 1 + (lead earlier).length + 1 - 2)) = true := by
    rw [show s + 1 + (lead earlier).length + 1 - 2 = s + (lead earlier).length by omega, separated',
      Bool.or_true]
  rw [methodHeader?_eq, close?_arguments here arguments, bare]
  cases nameBefore? _ _ with
  | none => rfl
  | some l => simp only [Option.bind_some, methodLast?_behind after, Option.map_none, ite_self]

end Constants

variable {low high k : Nat} (paired : Paired (.ofLexemes lexemes) low high)
  (skims : Skims (.ofLexemes lexemes) low i) (below : i ≤ high)

include paired skims below

theorem outside_braces {first body more : List Lexeme}
    (here : At lexemes s (first ++ (group .curly body ++ more))) (above : low ≤ s) (nested : Nested body)
    (name : (Bracketed.ofLexemes lexemes).has Lexeme.isIdentifier (s + k)) (next : s + k + 1 = i) :
    k < first.length ∨ first.length + body.length + 2 ≤ k := by
  have braces := here.right.left
  have pair := braces.close?_of_group nested
  have opens : (Bracketed.ofLexemes lexemes).has (·.opens .curly) (s + first.length) :=
    (braces.has _).trans (by decide)
  have apart {family : String} (there : (Bracketed.ofLexemes lexemes).has (·.isSeparator family) (s + k)) :
      False := by
    rw [Bracketed.not_identifier there] at name
    cases name
  by_cases before : k < first.length
  · exact .inl before
  · have less : s + first.length < s + k := by
      refine Nat.lt_of_le_of_ne (by omega) fun same => apart (same ▸ opens)
    have closed := skims.close_lt paired (Nat.le_refl _) below (by omega) (by omega) opens pair
    have other : s + first.length + body.length + 1 ≠ s + k := fun same =>
      apart (same ▸ paired.sound.closes_of_opens opens pair)
    omega

theorem exposed_of_header {args after : List Lexeme} {l : Lexeme} {header : MethodHeader}
    (here : At lexemes s (mark "(" :: (args ++ mark ")" :: after))) (above : low ≤ s)
    (nested : Nested args) (index : s + 1 + k = i) (argument : args[k]? = some l) (opens : l.opens .round)
    (found : methodHeader? (.ofLexemes lexemes) i = some header) :
    ∃ before name inner rest, before.length + 1 = k ∧ name.text = header.name ∧
      Exposed args after before name inner rest := by
  obtain ⟨name, close, rfl, isName, plain, pair, ends⟩ := methodHeader?_cases found
  obtain ⟨front, inner, last, rest, split, length, closes, inside⟩ := nested.group_at argument opens
  cases eq_mark opens
  cases eq_mark closes
  rcases List.eq_nil_or_concat front with rfl | ⟨before, word, rfl⟩
  · -- What stands before the first argument is a bracket, and no name.
    have bracket : name = s := by
      rw [List.length_nil] at length
      omega
    rw [bracket, here.has] at isName
    cases isName
  have split' : args = before ++ word :: (group .round inner ++ rest) := by
    rw [split]
    simp [group]
  rw [List.concat_eq_append, List.length_append, List.length_singleton] at length
  have arguments : At lexemes (s + 1) (args ++ mark ")" :: after) := here.tail
  have index : name = s + 1 + before.length := by omega
  -- The method is a call among the arguments: its name, and the group behind the name.
  have call : At lexemes name (word :: (group .round inner ++ (rest ++ mark ")" :: after))) := by
    have there := arguments
    rw [split', List.append_assoc, List.cons_append, List.append_assoc] at there
    rw [index]
    exact there.right
  rw [call.has, Bool.and_eq_true] at isName
  cases Option.some.inj (pair.symm.trans (call.tail.left.close?_of_group inside))
  have behind := call.tail.right
  rw [length_group, ← Nat.add_assoc] at behind
  refine ⟨before, word, inner, rest, length, eq_of_beq isName.2, split', isName.1, inside, ?_, ?_, ?_⟩
  · intro first body more braces nested'
    refine outside_braces paired skims below (braces ▸ arguments.left) (by omega) nested' ?_
      (congrArg Nat.succ index.symm)
    rw [← index, call.has, isName.1]
  · intro comma
    rw [split', List.append_assoc] at arguments
    rw [index, arguments.left.has_last comma, Bool.and_eq_false_imp] at plain
    exact absurd (plain (decide_eq_true (by omega))) (by decide)
  · intro refused
    rw [methodLast?_refused refused behind] at ends
    cases ends

end Scans

section Walks

variable {lexemes : List Lexeme} {rules : Rules} {s k high : Nat} {cs : List Constant} {w : Walk}
  {l : Lexeme} (here : At lexemes (s + 1) (listing cs))
  (paired : Paired (.ofLexemes lexemes) (s + 1) high)

include here paired

theorem annotationEnd_listing (below : s + 1 + k ≤ high) (place : Place cs k l)
    (sign : l.isSeparator "@") :
    annotationEnd (.ofLexemes lexemes) (s + 1 + k) ≤ high := by
  cases place with
  | plain _ other => exact absurd sign (Bool.eq_false_iff.1 other)
  | opening => cases sign
  | @argument earlier later c args j _ split arguments argument =>
    subst split
    have opens : (Bracketed.ofLexemes lexemes).has (·.opens .round) (s + 1 + (lead earlier).length + 1) :=
      ((arguments_at here arguments).has _).trans rfl
    obtain ⟨close, pair, within⟩ := paired.closed (by omega) (by omega) opens
    cases Option.some.inj (pair.symm.trans (close?_arguments here arguments))
    have length := (List.getElem?_eq_some_iff.1 argument).1
    have le := annotationEnd_le (paired.sound.closes_of_opens opens pair)
      (fun after before => paired.inside (by omega) (by omega) pair after before)
      (i := s + 1 + ((lead earlier).length + 2 + j)) (by omega) (by omega)
    omega

theorem stray_of_header {header : MethodHeader} (separated : separates (.ofLexemes lexemes) s)
    (skims : Skims (.ofLexemes lexemes) (s + 1) (s + 1 + k)) (below : s + 1 + k ≤ high)
    (place : Place cs k l) (opens : l.opens .round)
    (found : methodHeader? (.ofLexemes lexemes) (s + 1 + k) = some header)
    (within : header.last < s + 1 + (listing cs).length) :
    Stray (s + 1) cs (.mk .method header.name ⟨s + 1 + k - 1, some header.last⟩ []) := by
  cases place with
  | plain _ _ other => exact absurd opens (Bool.eq_false_iff.1 other)
  | @opening earlier later c args split arguments =>
    subst split
    have refused := methodHeader?_constant separated here arguments
    rw [← Nat.add_assoc, refused] at found
    cases found
  | @argument earlier later c args j _ split arguments argument =>
    subst split
    obtain ⟨before, name, inner, rest, length, named, exposed⟩ :=
      exposed_of_header paired skims below (arguments_at here arguments) (by omega)
        (c.nested args arguments) (by omega) argument opens found
    have stray : Stray (s + 1) (earlier ++ c :: later) (.mk .method name.text
        ⟨s + 1 + (lead earlier).length + 2 + before.length, some header.last⟩ []) :=
      .mk arguments exposed within
    rw [named] at stray
    rwa [show s + 1 + ((lead earlier).length + 2 + j) - 1 =
      s + 1 + (lead earlier).length + 2 + before.length by omega]

variable (separated : separates (.ofLexemes lexemes) s)
  (length : s + 1 + (listing cs).length = high + 1)
  (semicolon : (Bracketed.ofLexemes lexemes).has (·.isSeparator ";") high)

include separated length semicolon

variable (rules)

theorem step_listing (inside : w.frames ≠ [])
    (skims : Skims (.ofLexemes lexemes) (s + 1) (s + 1 + k)) (below : s + 1 + k ≤ high)
    (found : (Bracketed.ofLexemes lexemes).lexemes[s + 1 + k]? = some l) :
    ∃ ds, (step (.ofLexemes lexemes) rules (s + 1 + k) l w).2 = addAll w ds ∧
      (∀ d ∈ ds, Stray (s + 1) cs d) ∧
      Skims (.ofLexemes lexemes) (s + 1) (step (.ofLexemes lexemes) rules (s + 1 + k) l w).1 ∧
      (step (.ofLexemes lexemes) rules (s + 1 + k) l w).1 ≤ high + 1 := by
  have above := skims_le skims
  have lexeme := here.lexeme_at above (by omega)
  rw [found, Nat.add_sub_cancel_left] at lexeme
  have place := place_of lexeme.symm
  have less (other : ¬ l.isSeparator ";") : s + 1 + k < high := by
    refine Nat.lt_of_le_of_ne below fun same => other ?_
    rwa [← same, Bracketed.has_eq found] at semicolon
  have closes : l.closes .curly = false := by
    rcases Nat.lt_or_eq_of_le below with less | same
    · have open' := skims.not_closes paired less
      rwa [Bracketed.has_eq found] at open'
    · rw [← same, Bracketed.has_eq found] at semicolon
      cases eq_mark semicolon
      rfl
  -- Whatever the step passes over declares nothing; what it declares is a stray call.
  have pass {next : Nat} (on : Skims (.ofLexemes lexemes) (s + 1 + k) next) (le : next ≤ high + 1) :
      ∃ ds, w = addAll w ds ∧ (∀ d ∈ ds, Stray (s + 1) cs d) ∧
        Skims (.ofLexemes lexemes) (s + 1) next ∧ next ≤ high + 1 :=
    ⟨[], rfl, by simp, skims.trans on, le⟩
  have passing : Passing (.ofLexemes lexemes) (s + 1 + k) l w
      (memberStep (.ofLexemes lexemes) rules (s + 1 + k) l w) :=
    memberStep_passing closes (typeless_listing place)
  rw [step_inside inside]
  generalize memberStep (.ofLexemes lexemes) rules (s + 1 + k) l w = next at passing
  cases passing with
  | initializer equals =>
    have kind : l.kind = .operator := eq_of_beq (Bool.and_eq_true_iff.1 equals).1
    have before := less fun ends => by cases kind.symm.trans (Lexeme.isSeparator_iff.1 ends).1
    obtain ⟨value, le⟩ := skims_initializerEnd paired (.inr semicolon) (Nat.le_succ_of_le above) before
    exact pass ((Skims.of_kind found (by rw [kind]; decide)).trans value) le
  | tag sign =>
    exact pass (skims_annotationEnd ((Bracketed.has_eq found _).trans sign))
      (Nat.le_succ_of_le (annotationEnd_listing here paired below place sign))
  | @method header round header' =>
    have before := less fun ends => absurd (Lexeme.isSeparator_unique round ends) (by decide)
    have le := methodHeader?_le paired semicolon above before header'
    have stray := stray_of_header here paired separated skims below place round header' (by omega)
    exact ⟨[_], rfl, by simpa using stray, skims.trans (skims_methodHeader? header'),
      Nat.succ_le_succ le⟩
  | braces curly =>
    have before := less fun ends => absurd (Lexeme.isSeparator_unique curly ends) (by decide)
    obtain ⟨close, pair, within⟩ := paired.closed above before ((Bracketed.has_eq found _).trans curly)
    rw [pair]
    exact pass (.past pair .here) (Nat.le_of_lt (Nat.succ_lt_succ within))
  | lexeme curly => exact pass (.one found curly closes) (Nat.succ_le_succ below)

theorem leads_listing {i : Nat} (inside : w.frames ≠ [])
    (skims : Skims (.ofLexemes lexemes) (s + 1) i) (below : i ≤ high + 1) :
    ∃ ds, Leads (.ofLexemes lexemes) rules i w (high + 1) (addAll w ds) ∧
      ∀ d ∈ ds, Stray (s + 1) cs d := by
  -- By induction on what is left of the constants: a step may end anywhere in it.
  induction left : high + 1 - i using Nat.strongRecOn generalizing i w with
  | ind _ shorter =>
    rcases Nat.eq_or_lt_of_le below with rfl | before
    · exact ⟨[], .here, by simp⟩
    · obtain ⟨k, rfl⟩ := Nat.exists_eq_add_of_le (skims_le skims)
      have index : k < (listing cs).length := by omega
      have found := here.lexeme_at (Nat.le_add_right (s + 1) k) (by omega)
      rw [Nat.add_sub_cancel_left, List.getElem?_eq_getElem index] at found
      obtain ⟨ds, same, strays, skims', below'⟩ := step_listing rules here paired separated length
        semicolon inside skims (Nat.le_of_lt_succ before) found
      have later : s + 1 + k < (step (.ofLexemes lexemes) rules (s + 1 + k) (listing cs)[k] w).1 :=
        lt_step_of_getElem? found
      have inside' : (addAll w ds).frames ≠ [] := by
        rw [← List.length_pos_iff, length_addAll]
        exact List.length_pos_iff.2 inside
      obtain ⟨ds', leads, strays'⟩ := shorter _ (by omega) inside' skims' below' rfl
      refine ⟨ds ++ ds', ?_, fun d mem => (List.mem_append.1 mem).elim (strays d) (strays' d)⟩
      rw [addAll_append]
      exact .step found (same ▸ leads)

omit paired length semicolon in
theorem leads_constants (inside : w.frames ≠ []) :
    ∃ ds, Leads (.ofLexemes lexemes) rules (s + 1) w (s + 1 + (listing cs).length) (addAll w ds) ∧
      ∀ d ∈ ds, Stray (s + 1) cs d := by
  obtain ⟨inner, split, nested⟩ := exists_nested_listing cs
  have length : s + 1 + (listing cs).length = s + 1 + inner.length + 1 := by
    rw [split, List.length_append]
    rfl
  have parts := split ▸ here
  have paired := paired_of_at parts.left nested
  rw [length]
  exact leads_listing rules here paired separated length ((parts.right.has _).trans rfl) inside .here
    (by omega)

end Walks

section Enumerations

variable {lexemes : List Lexeme} {i : Nat} {l : Lexeme} {rules : Rules} {w : Walk}

theorem bodyBrace?_leading {header rest : List Lexeme} (leading : Leading header)
    (here : At lexemes i (header ++ mark "\x7b" :: rest)) :
    bodyBrace? (.ofLexemes lexemes) i = some (i + header.length) := by
  induction leading generalizing i with
  | nil =>
    rw [bodyBrace?_of_some (At.lexeme (l := mark "\x7b") here)]
    rfl
  | @plain l header opened semicolon brace _ ih =>
    have opens := Lexeme.opened?_eq_none.1 opened
    rw [bodyBrace?_of_some (At.lexeme (l := l) here), ih here.tail]
    simp only [opens, semicolon, brace, Bool.or_false, Bool.false_eq_true, if_false, List.length_cons]
    congr 1
    omega
  | @group family part header other group _ ih =>
    obtain @⟨first, last, inner, opens, nested, closes⟩ := group
    cases eq_mark opens
    have whole : At lexemes i (mark family.openText ::
        (inner ++ last :: (header ++ mark "\x7b" :: rest))) := by
      simpa using here
    have after := whole.tail.right.tail
    rw [bodyBrace?_of_some whole.lexeme, whole.close? opens closes nested, Option.bind_some,
      show i + inner.length + 1 + 1 = i + 1 + inner.length + 1 by omega, ih after]
    have length : i + 1 + inner.length + 1 + header.length =
        i + (mark family.openText :: (inner ++ [last]) ++ header).length := by
      simp only [List.length_append, List.length_cons, List.length_nil]
      omega
    rw [length]
    cases family with
    | curly => exact absurd rfl other
    | round => rfl
    | square => rfl

theorem step_typeKeyword (type : l.isTypeKeyword) :
    step (.ofLexemes lexemes) rules i l w = typeStep (.ofLexemes lexemes) rules i w := by
  obtain ⟨kind, word⟩ := Bool.and_eq_true_iff.1 type
  have package : l.isKeyword "package" = false := by
    have other : l.text ≠ "package" := fun same => absurd (same ▸ word) (by decide)
    simp [Lexeme.isKeyword, other]
  have closes : l.closes .curly = false := by
    simp [Lexeme.closes, Lexeme.isSeparator, eq_of_beq kind]
  unfold step fileStep memberStep
  simp only [package, closes, type, Bool.false_and, Bool.false_eq_true, if_false, if_true, ite_self]

theorem walk_enumeration {k : Nat} {keyword name : Lexeme} {header : List Lexeme} {cs : List Constant}
    (here : At lexemes k (keyword :: name :: (header ++ mark "\x7b" :: listing cs)))
    (type : keyword.isTypeKeyword) (named : name.isIdentifier) (leading : Leading header)
    (clear : Clear lexemes k) (shallow : rules.limit.any (· ≤ w.frames.length) = false) :
    ∃ ds, walk (.ofLexemes lexemes) rules k w =
        walk (.ofLexemes lexemes) rules (k + header.length + 3 + (listing cs).length)
          (w.enter ⟨name.text, k, k + header.length + 3, ds⟩) ∧
      ∀ d ∈ ds, Stray (k + header.length + 3) cs d := by
  have body := here.tail.tail.right
  have brace := bodyBrace?_leading leading here.tail.tail
  rw [show k + 1 + 1 + header.length = k + header.length + 2 by omega] at body brace
  have separated : separates (.ofLexemes lexemes) (k + header.length + 2) := (body.has _).trans rfl
  have header' : typeHeader? (.ofLexemes lexemes) k = some ⟨name.text, k + header.length + 2⟩ := by
    have clear' : (0 < k && (Bracketed.ofLexemes lexemes).has (·.isSeparator ".") (k - 1)) = false :=
      clear
    simp only [typeHeader?, here.tail.lexeme, named, clear', brace, Bool.not_false, Bool.and_self, if_true,
      Option.map_some]
  have entered : typeStep (.ofLexemes lexemes) rules k w =
      (k + header.length + 3, w.enter ⟨name.text, k, k + header.length + 3, []⟩) := by
    simp only [typeStep, header', shallow, Bool.false_eq_true, if_false]
  obtain ⟨ds, leads, strays⟩ := leads_constants rules body.tail separated
    (w := w.enter ⟨name.text, k, k + header.length + 3, []⟩) (List.cons_ne_nil _ _)
  refine ⟨ds.reverse, ?_, fun d mem => strays d (List.mem_reverse.1 mem)⟩
  rw [walk_of_getElem? here.lexeme, step_typeKeyword type, entered, walk_eq_of_leads leads,
    addAll_of_cons rfl, List.append_nil]
  rfl

theorem walk_enumeration_calls :
    let lexemes := Token.lexemes
      ("enum E implements I \x7b A(1, f(2)), B(g(3)); int m(); \x7d".toList.map Piece.byte)
    let rules : Rules := ⟨.merge, some 2⟩
    ∃ (cs : List Constant) (ds : List Sketch),
      At lexemes 0 (keyword "enum" :: ⟨.identifier, "E"⟩ ::
        ([keyword "implements", ⟨.identifier, "I"⟩] ++ mark "\x7b" :: listing cs)) ∧
      walk (.ofLexemes lexemes) rules 0 {} = walk (.ofLexemes lexemes) rules 23
        (Walk.enter {} ⟨"E", 0, 5, ds⟩) ∧
      ∀ d ∈ ds, Stray 5 cs d := by
  intro lexemes rules
  let a : Constant := ⟨⟨.identifier, "A"⟩,
    some [⟨.literal, "1"⟩, mark ",", ⟨.identifier, "f"⟩, mark "(", ⟨.literal, "2"⟩, mark ")"],
    rfl, by decide, by decide⟩
  let b : Constant := ⟨⟨.identifier, "B"⟩,
    some [⟨.identifier, "g"⟩, mark "(", ⟨.literal, "3"⟩, mark ")"], rfl, by decide, by decide⟩
  have here : At lexemes 0 (keyword "enum" :: ⟨.identifier, "E"⟩ ::
      ([keyword "implements", ⟨.identifier, "I"⟩] ++ mark "\x7b" :: listing [a, b])) := by
    unfold At
    decide +kernel
  have leading : Leading [keyword "implements", ⟨.identifier, "I"⟩] :=
    .plain (by decide) rfl rfl (.plain (by decide) rfl rfl .nil)
  have shallow : rules.limit.any (· ≤ (Walk.frames {}).length) = false := by decide
  obtain ⟨ds, walked, strays⟩ := walk_enumeration here rfl rfl leading rfl shallow
  exact ⟨[a, b], ds, here, walked, strays⟩

theorem ofSource_call_reported :
    let source := "enum E \x7b A(g(1)); \x7d".toList.map Piece.byte
    (∃ cs : List Constant, Token.lexemes source =
        keyword "enum" :: ⟨.identifier, "E"⟩ :: group .curly (listing cs)) ∧
      (Outline.ofSource {} none source).1.rows = [(.unit, "<default>", ⟨0, 19⟩), (.type, "E", ⟨0, 19⟩),
        (.method, "g", ⟨11, 17⟩)] ∧
      (Outline.ofSource {} none source).1.nodes.toList.map Outline.Node.children = [[1], [2], []] := by
  intro source
  let a : Constant := ⟨⟨.identifier, "A"⟩,
    some [⟨.identifier, "g"⟩, mark "(", ⟨.literal, "1"⟩, mark ")"], rfl, by decide, by decide⟩
  exact ⟨⟨[a], by decide +kernel⟩, by decide +kernel, by decide +kernel⟩

end Enumerations

end EditScope.Grammar

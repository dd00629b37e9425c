import EditScope.Proofs.Grammar.Walked
import EditScope.Proofs.Sketch.Fence
import EditScope.Proofs.Sketch.Shape

set_option autoImplicit false

namespace EditScope.Sketch

open EditScope.Bracket
open Grammar (At)

variable (b : Bracketed)

inductive Skims : Nat → Nat → Prop where
  | here {i : Nat} : Skims i i
  | next {i j : Nat} (plain : b.has (fun l => !l.opens .curly && !l.closes .curly) i)
      (rest : Skims (i + 1) j) : Skims i j
  | past {i j close : Nat} (pair : b.close? i = some close) (rest : Skims (close + 1) j) : Skims i j

inductive Passes : Nat → Nat → Prop where
  | here {i : Nat} : Passes i i
  | next {i j : Nat}
      (plain : b.has (fun l => l.opened?.isNone && !l.isSeparator ";" && !l.closes .curly) i)
      (rest : Passes (i + 1) j) : Passes i j
  | past {i j close : Nat} (opens : b.has (fun l => l.opens .round || l.opens .square) i)
      (pair : b.close? i = some close) (rest : Passes (close + 1) j) : Passes i j

variable {b} {i j k : Nat} {l : Lexeme}

theorem lt_of_has {p q : Lexeme → Bool} (le : i ≤ j) (here : b.has p i) (there : b.has q j)
    (apart : ∀ l, p l → q l → False) : i < j := by
  refine Nat.lt_of_le_of_ne le ?_
  rintro rfl
  obtain ⟨l, found, first⟩ := (Option.any_eq_true _ _).1 here
  rw [Bracketed.has_eq found] at there
  exact apart l first there

theorem Skims.trans (first : Skims b i j) (second : Skims b j k) : Skims b i k := by
  induction first with
  | here => exact second
  | next plain _ ih => exact .next plain (ih second)
  | past pair _ ih => exact .past pair (ih second)

theorem skims_le (skims : Skims b i j) : i ≤ j := by
  induction skims with
  | here => exact Nat.le_refl _
  | next _ _ ih => omega
  | past pair _ ih =>
    have := Bracketed.close?_bounds pair
    omega

theorem Skims.one (here : b.lexemes[i]? = some l) (opens : l.opens .curly = false)
    (closes : l.closes .curly = false) : Skims b i (i + 1) := by
  refine .next ?_ .here
  rw [Bracketed.has_eq here, opens, closes]
  rfl

theorem Skims.of_kind (here : b.lexemes[i]? = some l) (other : l.kind ≠ .separator) :
    Skims b i (i + 1) :=
  .one here (by simp [Lexeme.opens, Lexeme.isSeparator, other])
    (by simp [Lexeme.closes, Lexeme.isSeparator, other])

theorem Skims.of_identifier (here : b.lexemes[i]? = some l) (identifier : l.isIdentifier) :
    Skims b i (i + 1) :=
  .of_kind here (by rw [eq_of_beq identifier]; decide)

theorem Skims.of_separator {mark : String} (here : b.has (·.isSeparator mark) i)
    (other : mark ≠ Bracket.openText .curly ∧ mark ≠ Bracket.closeText .curly) :
    Skims b i (i + 1) := by
  obtain ⟨l, here, separator⟩ := (Option.any_eq_true _ _).1 here
  have text := (Lexeme.isSeparator_iff.1 separator).2
  exact .one here (by simp [Lexeme.opens, Lexeme.isSeparator, text, other])
    (by simp [Lexeme.closes, Lexeme.isSeparator, text, other])

theorem Passes.skims (passes : Passes b i j) : Skims b i j := by
  induction passes with
  | here => exact .here
  | next plain _ ih =>
    obtain ⟨l, here, plain⟩ := (Option.any_eq_true _ _).1 plain
    simp only [Bool.and_eq_true, Option.isNone_iff_eq_none, Bool.not_eq_true'] at plain
    exact (Skims.one here (Lexeme.opened?_eq_none.1 plain.1.1 .curly) plain.2).trans ih
  | past _ pair _ ih => exact .past pair ih

theorem passes_of_reaches {brace : Nat} (reaches : Reaches b brace i) : Passes b i brace := by
  induction reaches with
  | here => exact .here
  | past opens pair _ ih => exact .past opens pair ih
  | next plain _ ih => exact .next plain ih

theorem passes_of_methodLast? {bare throws : Bool} {last : Nat}
    (found : methodLast? b bare throws i = some last) :
    ∃ j, Passes b i j ∧ (b.has (·.isSeparator ";") j ∧ last = j ∨
      b.has (·.opens .curly) j ∧ b.close? j = some last) := by
  fun_induction methodLast? b bare throws i with
  | case1 throws i inside l opens =>
    exact ⟨i, .here, .inr ⟨by simpa [Bracketed.has, inside] using opens, found⟩⟩
  | case3 throws i inside l _ semicolon =>
    exact ⟨i, .here, .inl ⟨by simpa [Bracketed.has, inside] using semicolon, (Option.some.inj found).symm⟩⟩
  | case6 throws i inside l _ _ _ _ group close pair _ ih =>
    obtain ⟨j, passes, ends⟩ := ih found
    exact ⟨j, .past (by simpa [Bracketed.has, inside] using group) pair passes, ends⟩
  | case8 throws i inside l brace semicolon other _ group ih =>
    obtain ⟨j, passes, ends⟩ := ih found
    simp only [Bool.or_eq_true, not_or, Bool.not_eq_true] at brace semicolon other group
    have opened : l.opened? = none := by
      rw [Lexeme.opened?_eq_none]
      rintro (_ | _ | _)
      · exact group.1
      · exact group.2
      · exact brace
    refine ⟨j, .next ?_ passes, ends⟩
    rw [Bracketed.has_eq (Array.getElem?_eq_getElem inside)]
    change (l.opened?.isNone && !l.isSeparator ";" && !l.closes .curly) = true
    rw [opened, semicolon, other.1.1]
    rfl
  | _ => cases found

theorem skims_nameTail (i : Nat) (name : String) : Skims b i (nameTail b i name).2 := by
  fun_induction nameTail b i name with
  | case1 i name dot part here there point _ ih =>
    obtain ⟨point, identifier⟩ := Bool.and_eq_true_iff.1 point
    have first : b.has (·.isSeparator ".") i := (Bracketed.has_eq here _).trans point
    exact ((Skims.of_separator first (by decide)).trans (.of_identifier there identifier)).trans ih
  | _ => exact .here

theorem skims_nameAt? {name : String} (found : nameAt? b i = some (name, j)) : Skims b i j := by
  unfold nameAt? at found
  split at found
  · cases found
  · rename_i head here
    split at found
    · rename_i identifier
      cases found
      refine ((Skims.of_identifier here identifier).trans (skims_nameTail (i + 1) head.text)).trans ?_
      split
      · rename_i semicolon
        exact .of_separator semicolon (by decide)
      · exact .here
    · cases found

theorem skims_annotationEnd (sign : b.has (·.isSeparator "@") i) : Skims b i (annotationEnd b i) := by
  have first : Skims b i (i + 1) := .of_separator sign (by decide)
  unfold annotationEnd
  split
  · exact first
  · split
    · exact first
    · rename_i name next found
      have named := first.trans (skims_nameAt? found)
      split
      · cases pair : b.close? next with
        | none => exact named
        | some close => exact named.trans (.past pair .here)
      · exact named

theorem skims_methodHeader? {header : MethodHeader} (found : methodHeader? b i = some header) :
    Skims b i (header.last + 1) := by
  obtain ⟨name, close, rfl, _, _, pair, ends⟩ := methodHeader?_cases found
  obtain ⟨j, passes, ⟨semicolon, same⟩ | ⟨_, body⟩⟩ := passes_of_methodLast? ends
  · rw [same]
    exact .past pair (passes.skims.trans (.of_separator semicolon (by decide)))
  · exact .past pair (passes.skims.trans (.past body .here))

variable (b) in
inductive Passing (i : Nat) (l : Lexeme) (w : Walk) : Nat × Walk → Prop where
  | initializer (equals : l.isOperator "=") : Passing i l w (initializerEnd b (i + 1), w)
  | tag (sign : l.isSeparator "@") : Passing i l w (annotationEnd b i, w)
  | method {header : MethodHeader} (opens : l.opens .round) (found : methodHeader? b i = some header) :
      Passing i l w
        (header.last + 1, w.add (.mk .method header.name ⟨i - 1, some header.last⟩ []))
  | braces (opens : l.opens .curly) : Passing i l w ((b.close? i).getD i + 1, w)
  | lexeme (opens : l.opens .curly = false) : Passing i l w (i + 1, w)

theorem memberStep_passing {rules : Rules} {w : Walk} (closes : l.closes .curly = false)
    (keyword : l.isTypeKeyword = false) : Passing b i l w (memberStep b rules i l w) := by
  rw [memberStep, closes, keyword]
  simp only [Bool.false_eq_true, if_false]
  split
  · rename_i equals
    exact .initializer equals
  split
  · rename_i sign
    exact .tag sign
  split
  · rename_i round
    cases found : methodHeader? b i with
    | none =>
      refine .lexeme (Bool.eq_false_iff.2 fun curly => ?_)
      exact absurd (Lexeme.isSeparator_unique round curly) (by decide)
    | some header => exact .method round found
  split
  · rename_i curly
    exact .braces curly
  · rename_i curly
    exact .lexeme (by simpa using curly)

theorem TypeAt.skims {first brace close : Nat} {name : String} (here : TypeAt b first name brace)
    (pair : b.close? brace = some close) : Skims b first (close + 1) := by
  obtain ⟨keyword, atFirst, isKeyword⟩ := (Option.any_eq_true _ _).1 here.keyword
  obtain ⟨word, atName, isName⟩ := (Option.any_eq_true _ _).1 here.name
  have kind : keyword.kind ≠ .separator := by
    rw [eq_of_beq (Bool.and_eq_true_iff.1 isKeyword).1]
    decide
  have named := Skims.of_identifier atName (Bool.and_eq_true_iff.1 isName).1
  have header := (passes_of_reaches here.body).skims
  exact ((Skims.of_kind atFirst kind).trans named).trans (header.trans (.past pair .here))

structure Paired (b : Bracketed) (low high : Nat) : Prop where
  sound : b.Sound
  closed {i : Nat} {family : Bracket} : low ≤ i → i < high → b.has (·.opens family) i →
    ∃ close, b.close? i = some close ∧ close < high
  opened {i : Nat} {family : Bracket} : low ≤ i → i < high → b.has (·.closes family) i →
    ∃ o, low ≤ o ∧ b.has (·.opens family) o ∧ b.close? o = some i
  inside {i j c d : Nat} : low ≤ i → i < high → b.close? i = some c → i < j → j < c →
    b.close? j = some d → d < c

section At

variable {lexemes part : List Lexeme} {low : Nat}

theorem paired_of_at (here : At lexemes low part) (nested : Nested part) :
    Paired (.ofLexemes lexemes) low (low + part.length) where
  sound := Bracketed.ofLexemes_sound lexemes
  closed above below opens := by
    obtain ⟨inner, pair, inside, _⟩ := here.group_at above below nested opens
    exact ⟨_, pair, inside⟩
  opened {i family} above below closes := by
    obtain ⟨l, found, closes⟩ := (Option.any_eq_true _ _).1 closes
    rw [here.lexeme_at above below] at found
    obtain ⟨before, first, inner, after, rfl, length, opens, inside⟩ := nested.group_before found closes
    have there := here.right
    have index : low + before.length + inner.length + 1 = i := by omega
    exact ⟨low + before.length, Nat.le_add_right _ _, by rw [there.has, opens],
      index ▸ there.close? opens closes inside⟩
  inside {i j c d} above below outer after before found := by
    obtain ⟨family, opens, _⟩ := (Bracketed.ofLexemes_sound lexemes).pair outer
    obtain ⟨inner, pair, _, there, nested'⟩ := here.group_at above below nested opens
    cases Option.some.inj (outer.symm.trans pair)
    obtain ⟨family', opens', _⟩ := (Bracketed.ofLexemes_sound lexemes).pair found
    obtain ⟨inner', pair', inside', _⟩ := there.group_at after (by omega) nested' opens'
    cases Option.some.inj (found.symm.trans pair')
    omega

theorem paired_of_nested (nested : Nested lexemes) :
    Paired (.ofLexemes lexemes) 0 (Bracketed.ofLexemes lexemes).lexemes.size := by
  have whole : At lexemes 0 lexemes := List.prefix_rfl
  have paired := paired_of_at whole nested
  rw [Nat.zero_add] at paired
  exact paired

end At

section Paired

variable {low high brace close : Nat} (paired : Paired b low high)

include paired

theorem Skims.close_lt {o c : Nat} (skims : Skims b i j) (first : low ≤ i) (last : j ≤ high)
    (above : i ≤ o) (below : o < j) (opens : b.has (·.opens .curly) o) (pair : b.close? o = some c) :
    c < j := by
  induction skims with
  | here => omega
  | @next i j plain _ ih =>
    rcases Nat.eq_or_lt_of_le above with rfl | above
    · obtain ⟨l, here, plain⟩ := (Option.any_eq_true _ _).1 plain
      rw [Bracketed.has_eq here] at opens
      simp [opens] at plain
    · exact ih (by omega) last above below
  | @past i j c' pair' rest ih =>
    have later := (Bracketed.close?_bounds pair').1
    have le := skims_le rest
    rcases Nat.lt_trichotomy o c' with less | rfl | more
    · rcases Nat.eq_or_lt_of_le above with rfl | above
      · cases Option.some.inj (pair.symm.trans pair')
        exact le
      · have := paired.inside first (by omega) pair' above less pair
        omega
    · obtain ⟨family, _, closes⟩ := paired.sound.pair pair'
      obtain ⟨l, here, closes⟩ := (Option.any_eq_true _ _).1 closes
      rw [Bracketed.has_eq here, Lexeme.not_opens_of_closes closes] at opens
      cases opens
    · exact ih (by omega) last more below

theorem Skims.not_closes (skims : Skims b low i) (below : i < high) :
    b.has (·.closes .curly) i = false := by
  refine Bool.eq_false_iff.2 fun closes => ?_
  obtain ⟨o, above, opens, pair⟩ := paired.opened (skims_le skims) below closes
  have before := (Bracketed.close?_bounds pair).1
  have := skims.close_lt paired (Nat.le_refl _) (Nat.le_of_lt below) above before opens pair
  omega

section Body

variable (body : Body b brace close) (first : low ≤ brace) (last : brace < high)

include body first last

theorem Skims.le_close (skims : Skims b i j) (above : brace < i) (le : i ≤ close) : j ≤ close := by
  have closes := paired.sound.closes_of_opens body.opens body.pair
  induction skims with
  | here => exact le
  | @next i j plain _ ih =>
    refine ih (by omega) (lt_of_has le plain closes fun l plain closes => ?_)
    simp [closes] at plain
  | @past i j c inner _ ih =>
    obtain ⟨family, opens, _⟩ := paired.sound.pair inner
    have less : i < close := lt_of_has le opens closes fun l opens closes => by
      rw [Lexeme.not_opens_of_closes closes] at opens
      cases opens
    have later := (Bracketed.close?_bounds inner).1
    exact ih (by omega) (paired.inside first last body.pair above less inner)

theorem Skims.eq_close (skims : Skims b (brace + 1) i) (closes : b.has (·.closes .curly) i) :
    i = close := by
  obtain ⟨close', pair, within⟩ := paired.closed first last body.opens
  cases Option.some.inj (body.pair.symm.trans pair)
  have later := skims_le skims
  have inside := skims.le_close paired body first last (Nat.lt_succ_self _)
    (Bracketed.close?_bounds pair).1
  -- The opening brace of the closing one stands neither in the way to it nor before the body.
  obtain ⟨o, above, opens, partner⟩ := paired.opened (by omega) (by omega) closes
  have before := (Bracketed.close?_bounds partner).1
  rcases Nat.lt_trichotomy o brace with less | rfl | more
  · have := paired.inside above (by omega) partner less later pair
    omega
  · exact Option.some.inj (partner.symm.trans pair)
  · have := skims.close_lt paired (by omega) (by omega) more before opens partner
    omega

end Body

theorem skims_initializerEnd (bound : b.lexemes.size ≤ high ∨ b.has (·.isSeparator ";") high)
    (above : low ≤ i) (below : i ≤ high) :
    Skims b i (initializerEnd b i) ∧ initializerEnd b i ≤ high + 1 := by
  -- What ends the stretch is a semicolon, so any other lexeme stands before it.
  have less {i : Nat} (inside : i < b.lexemes.size) (below : i ≤ high)
      (other : ¬ b.lexemes[i].isSeparator ";") : i < high := by
    refine Nat.lt_of_le_of_ne below ?_
    rintro rfl
    rcases bound with size | semicolon
    · omega
    · rw [Bracketed.has_eq (Array.getElem?_eq_getElem inside)] at semicolon
      exact other semicolon
  fun_induction initializerEnd b i with
  | case1 i inside l semicolon =>
    have here : b.has (·.isSeparator ";") i :=
      (Bracketed.has_eq (Array.getElem?_eq_getElem inside) _).trans semicolon
    exact ⟨.of_separator here (by decide), by omega⟩
  | case2 => exact ⟨.here, by omega⟩
  | case3 i inside l semicolon _ opened close pair _ ih =>
    have below := less inside below semicolon
    obtain ⟨family, opens, _⟩ := paired.sound.pair pair
    obtain ⟨close', pair', within⟩ := paired.closed above below opens
    cases Option.some.inj (pair.symm.trans pair')
    have later := (Bracketed.close?_bounds pair).1
    obtain ⟨skims, le⟩ := ih (by omega) within
    exact ⟨.past pair skims, le⟩
  | case4 i inside l semicolon _ opened pair =>
    obtain ⟨family, opens⟩ := Option.isSome_iff_exists.1 opened
    have here : b.has (·.opens family) i :=
      (Bracketed.has_eq (Array.getElem?_eq_getElem inside) _).trans (Lexeme.opened?_eq_some.1 opens)
    obtain ⟨close, found, _⟩ := paired.closed above (less inside below semicolon) here
    rw [pair] at found
    cases found
  | case5 i inside l semicolon closes opened ih =>
    have opens := Lexeme.opened?_eq_none.1 (Option.not_isSome_iff_eq_none.1 opened) .curly
    obtain ⟨skims, le⟩ := ih (by omega) (less inside below semicolon)
    exact ⟨(Skims.one (Array.getElem?_eq_getElem inside) opens (by simpa using closes)).trans skims, le⟩
  | case6 => exact ⟨.here, by omega⟩

variable (semicolon : b.has (·.isSeparator ";") high)

include semicolon

theorem Passes.le_high (passes : Passes b i j) (above : low ≤ i) (below : i ≤ high) : j ≤ high := by
  induction passes with
  | here => exact below
  | @next i j plain _ ih =>
    refine ih (by omega) (lt_of_has below plain semicolon fun l plain ends => ?_)
    simp [ends] at plain
  | @past i j close opens pair _ ih =>
    have less := lt_of_has below opens semicolon fun l opens ends => by
      rcases Bool.or_eq_true_iff.1 opens with opens | opens <;>
        exact absurd (Lexeme.isSeparator_unique opens ends) (by decide)
    obtain ⟨family, opens, _⟩ := paired.sound.pair pair
    obtain ⟨close', pair', within⟩ := paired.closed above less opens
    cases Option.some.inj (pair.symm.trans pair')
    have later := (Bracketed.close?_bounds pair).1
    exact ih (by omega) within

theorem methodHeader?_le {header : MethodHeader} (above : low ≤ i) (below : i < high)
    (found : methodHeader? b i = some header) : header.last ≤ high := by
  obtain ⟨name, close, _, _, _, pair, ends⟩ := methodHeader?_cases found
  obtain ⟨family, opens, _⟩ := paired.sound.pair pair
  obtain ⟨close', pair', within⟩ := paired.closed above below opens
  cases Option.some.inj (pair.symm.trans pair')
  have later := (Bracketed.close?_bounds pair).1
  obtain ⟨j, passes, ends⟩ := passes_of_methodLast? ends
  have start := skims_le passes.skims
  have le := passes.le_high paired semicolon (by omega) within
  rcases ends with ⟨_, rfl⟩ | ⟨brace, body⟩
  · exact le
  · have less := lt_of_has le brace semicolon fun l brace ends =>
      absurd (Lexeme.isSeparator_unique brace ends) (by decide)
    obtain ⟨last, pair', within⟩ := paired.closed (by omega) less brace
    cases Option.some.inj (body.symm.trans pair')
    exact Nat.le_of_lt within

end Paired

section Group

variable {o c : Nat} {family : Bracket} (closes : b.has (·.closes family) c)

include closes

theorem nameTail_le (le : i ≤ c) (name : String) : (nameTail b i name).2 ≤ c := by
  fun_induction nameTail b i name with
  | case1 i name dot part here there point _ ih =>
    obtain ⟨point, identifier⟩ := Bool.and_eq_true_iff.1 point
    have first : b.has (·.isSeparator ".") i := (Bracketed.has_eq here _).trans point
    have second : b.has Lexeme.isIdentifier (i + 1) := (Bracketed.has_eq there _).trans identifier
    have less := lt_of_has le first closes fun l point closes => by
      have same := Lexeme.isSeparator_unique point closes
      cases family <;> exact absurd same (by decide)
    refine ih (lt_of_has less second closes fun l identifier closes => ?_)
    cases (eq_of_beq identifier).symm.trans (Lexeme.isSeparator_iff.1 closes).1
  | _ => exact le

theorem nameAt?_le {name : String} (le : i ≤ c) (found : nameAt? b i = some (name, j)) : j ≤ c := by
  unfold nameAt? at found
  split at found
  · cases found
  · rename_i head here
    split at found
    · rename_i identifier
      cases found
      have first : b.has Lexeme.isIdentifier i := (Bracketed.has_eq here _).trans identifier
      have less : i < c := lt_of_has le first closes fun l identifier closes => by
        cases (eq_of_beq identifier).symm.trans (Lexeme.isSeparator_iff.1 closes).1
      have tail := nameTail_le closes less head.text
      split
      · rename_i semicolon
        refine lt_of_has tail semicolon closes fun l semicolon closes => ?_
        have same := Lexeme.isSeparator_unique semicolon closes
        cases family <;> exact absurd same (by decide)
      · exact tail
    · cases found

theorem annotationEnd_le (inside : ∀ {j d}, o < j → j < c → b.close? j = some d → d < c)
    (above : o < i) (below : i < c) : annotationEnd b i ≤ c := by
  unfold annotationEnd
  split
  · exact below
  · split
    · exact below
    · rename_i name next found
      have le := nameAt?_le closes below found
      have later := lt_nameAt? found
      split
      · rename_i round
        cases pair : b.close? next with
        | none => exact le
        | some d =>
          have less := lt_of_has le round closes fun l opens closes => by
            rw [Lexeme.not_opens_of_closes closes] at opens
            cases opens
          exact inside (by omega) less pair
      · exact le

end Group

end EditScope.Sketch

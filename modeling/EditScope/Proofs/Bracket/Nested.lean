import EditScope.Proofs.Bracket.Splice

set_option autoImplicit false

namespace EditScope

namespace Bracket

theorem found_at {lexemes : List Lexeme} {i : Nat} {l : Lexeme} (here : lexemes[i]? = some l) :
    (passFrom 0 lexemes).found[i]? =
      ((passFrom (i + 1) (lexemes.drop (i + 1))).lexeme l i).found[0]? := by
  obtain ⟨inside, rfl⟩ := List.getElem?_eq_some_iff.1 here
  have split : lexemes = lexemes.take i ++ lexemes[i] :: lexemes.drop (i + 1) := by simp
  have length : (lexemes.take i).length = i := by
    rw [List.length_take]
    omega
  have found := getElem?_passOnto 0 (lexemes.take i)
    (passFrom i (lexemes[i] :: lexemes.drop (i + 1))) 0
  rw [length, Nat.add_zero] at found
  rw [← passFrom_cons, ← found]
  conv => lhs; rw [split, passFrom_eq_passOnto, passOnto_append, length, Nat.zero_add]
  rfl

theorem Nested.group_at {lexemes : List Lexeme} (nested : Nested lexemes) {i : Nat} {l : Lexeme}
    {b : Bracket} (here : lexemes[i]? = some l) (opens : l.opens b) :
    ∃ before inner close after, lexemes = before ++ l :: (inner ++ close :: after) ∧
      before.length = i ∧ close.closes b ∧ Nested inner := by
  induction nested generalizing i with
  | nil => simp at here
  | @plain head rest opened closed _ ih =>
    cases i with
    | zero =>
      cases Option.some.inj here
      simp [Lexeme.opened?_eq_none.1 opened] at opens
    | succ i =>
      obtain ⟨before, inner, close, after, rfl, rfl, closes, nested⟩ := ih here
      exact ⟨head :: before, inner, close, after, rfl, rfl, closes, nested⟩
  | @group family head last inner rest opens' closes' nested _ ihInner ihRest =>
    cases i with
    | zero =>
      cases Option.some.inj here
      rw [Lexeme.opens_unique opens opens']
      exact ⟨[], inner, last, rest, rfl, rfl, closes', nested⟩
    | succ i =>
      rw [List.getElem?_cons_succ] at here
      -- In the group, at its close, or behind it.
      rcases Nat.lt_trichotomy i inner.length with less | same | more
      · rw [List.getElem?_append_left less] at here
        obtain ⟨before, inner', close, after, rfl, rfl, closes, nested'⟩ := ihInner here
        exact ⟨head :: before, inner', close, after ++ last :: rest, by simp, rfl, closes, nested'⟩
      · simp only [same, List.getElem?_append_right (Nat.le_refl _), Nat.sub_self,
          List.getElem?_cons_zero] at here
        cases Option.some.inj here
        rw [Lexeme.not_opens_of_closes closes'] at opens
        cases opens
      · obtain ⟨k, rfl⟩ : ∃ k, i = inner.length + 1 + k := Nat.exists_eq_add_of_le more
        rw [List.getElem?_append_right (by omega), Nat.add_assoc, Nat.add_sub_cancel_left,
          Nat.add_comm 1, List.getElem?_cons_succ] at here
        obtain ⟨before, inner', close, after, rfl, rfl, closes, nested'⟩ := ihRest here
        refine ⟨head :: (inner ++ last :: before), inner', close, after, by simp, ?_, closes, nested'⟩
        simp
        omega

theorem Nested.append {first second : List Lexeme} (nested : Nested first) (nested' : Nested second) :
    Nested (first ++ second) := by
  induction nested with
  | nil => exact nested'
  | plain opened closed _ ih => exact .plain opened closed ih
  | group opens closes inner _ _ ih =>
    rw [List.cons_append, List.append_assoc]
    exact .group opens closes inner ih

/-- Whether the lexemes close the groups open before them, innermost first, and their own. -/
def closesAll : List Bracket → List Lexeme → Bool
  | stack, [] => stack.isEmpty
  | stack, l :: rest =>
    match l.opened?, l.closed?, stack with
    | some b, _, stack => closesAll (b :: stack) rest
    | none, some b, c :: stack => b == c && closesAll stack rest
    | none, some _, [] => false
    | none, none, stack => closesAll stack rest

def Closing : List Bracket → List Lexeme → Prop
  | [], lexemes => Nested lexemes
  | b :: stack, lexemes => ∃ inner l rest, lexemes = inner ++ l :: rest ∧ Nested inner ∧ l.closes b ∧
      Closing stack rest

theorem Closing.plain {l : Lexeme} (opened : l.opened? = none) (closed : l.closed? = none)
    {stack : List Bracket} {lexemes : List Lexeme} (closing : Closing stack lexemes) :
    Closing stack (l :: lexemes) := by
  cases stack with
  | nil => exact Nested.plain opened closed closing
  | cons b stack =>
    obtain ⟨inner, l', rest, rfl, nested, closes, more⟩ := closing
    exact ⟨l :: inner, l', rest, rfl, .plain opened closed nested, closes, more⟩

theorem Closing.group {l : Lexeme} {b : Bracket} (opens : l.opens b) {stack : List Bracket}
    {lexemes : List Lexeme} (closing : Closing (b :: stack) lexemes) : Closing stack (l :: lexemes) := by
  obtain ⟨inner, l', rest, rfl, nested, closes, more⟩ := closing
  cases stack with
  | nil => exact Nested.group opens closes nested more
  | cons c stack =>
    obtain ⟨inner', last, rest', rfl, nested', closes', more'⟩ := more
    refine ⟨l :: (inner ++ l' :: inner'), last, rest', by simp, ?_, closes', more'⟩
    exact .group opens closes nested nested'

theorem closing_of_closesAll {stack : List Bracket} {lexemes : List Lexeme}
    (all : closesAll stack lexemes) : Closing stack lexemes := by
  fun_induction closesAll stack lexemes with
  | case1 stack =>
    cases List.isEmpty_iff.1 all
    exact Nested.nil
  | case2 stack l rest b opened ih => exact (ih all).group (Lexeme.opened?_eq_some.1 opened)
  | case3 l rest b c stack closed opened ih =>
    obtain ⟨same, more⟩ := Bool.and_eq_true_iff.1 all
    cases eq_of_beq same
    exact ⟨[], l, rest, rfl, .nil, Lexeme.closed?_eq_some.1 closed, ih more⟩
  | case4 => cases all
  | case5 l rest stack closed opened ih => exact (ih all).plain opened closed

theorem closesAll_append {lexemes : List Lexeme} (nested : Nested lexemes) (stack : List Bracket)
    (rest : List Lexeme) : closesAll stack (lexemes ++ rest) = closesAll stack rest := by
  induction nested generalizing stack rest with
  | nil => rfl
  | plain opened closed _ ih =>
    simp only [List.cons_append, closesAll, opened, closed, ih]
  | @group b l l' inner more opens closes _ _ ih ih' =>
    have opened := Lexeme.opened?_eq_some.2 opens
    have closed := Lexeme.closed?_eq_some.2 closes
    have plain := Lexeme.opened?_of_closes closes
    simp only [List.cons_append, List.append_assoc, closesAll, opened, ih, plain, closed,
      beq_self_eq_true, Bool.true_and, ih']

instance (lexemes : List Lexeme) : Decidable (Nested lexemes) :=
  decidable_of_iff (closesAll [] lexemes) ⟨closing_of_closesAll, fun nested => by
    have all := closesAll_append nested [] []
    rw [List.append_nil] at all
    exact all⟩

theorem Nested.group_before {lexemes : List Lexeme} (nested : Nested lexemes) {i : Nat} {l : Lexeme}
    {b : Bracket} (here : lexemes[i]? = some l) (closes : l.closes b) :
    ∃ before first inner after, lexemes = before ++ first :: (inner ++ l :: after) ∧
      before.length + inner.length + 1 = i ∧ first.opens b ∧ Nested inner := by
  induction nested generalizing i with
  | nil => simp at here
  | @plain head rest opened closed _ ih =>
    cases i with
    | zero =>
      cases Option.some.inj here
      simp [Lexeme.closed?_eq_none.1 closed] at closes
    | succ i =>
      obtain ⟨before, first, inner, after, rfl, rfl, opens, nested⟩ := ih here
      exact ⟨head :: before, first, inner, after, rfl, by simp; omega, opens, nested⟩
  | @group family head last inner rest opens' closes' nested _ ihInner ihRest =>
    cases i with
    | zero =>
      cases Option.some.inj here
      rw [Lexeme.not_closes_of_opens opens'] at closes
      cases closes
    | succ i =>
      rw [List.getElem?_cons_succ] at here
      rcases Nat.lt_trichotomy i inner.length with less | same | more
      · rw [List.getElem?_append_left less] at here
        obtain ⟨before, first, inner', after, rfl, rfl, opens, nested'⟩ := ihInner here
        exact ⟨head :: before, first, inner', after ++ last :: rest, by simp, by simp; omega, opens,
          nested'⟩
      · simp only [same, List.getElem?_append_right (Nat.le_refl _), Nat.sub_self,
          List.getElem?_cons_zero] at here
        cases Option.some.inj here
        rw [Lexeme.closes_unique closes closes']
        exact ⟨[], head, inner, rest, rfl, by simp [same], opens', nested⟩
      · obtain ⟨k, rfl⟩ : ∃ k, i = inner.length + 1 + k := Nat.exists_eq_add_of_le more
        rw [List.getElem?_append_right (by omega), Nat.add_assoc, Nat.add_sub_cancel_left,
          Nat.add_comm 1, List.getElem?_cons_succ] at here
        obtain ⟨before, first, inner', after, rfl, rfl, opens, nested'⟩ := ihRest here
        refine ⟨head :: (inner ++ last :: before), first, inner', after, by simp, ?_, opens, nested'⟩
        simp
        omega

theorem Waiting.close?_of_first {w : Waiting} {b : Bracket} {i : Nat}
    (within : ∀ b, ∀ j ∈ w.get b, i < j) : (w.set (i :: w.get b) b).close? b = some i := by
  unfold Waiting.close?
  rw [Waiting.get_set, if_pos rfl, List.head?_cons]
  cases brace : (w.set (i :: w.get b) b).curly.head? with
  | none => rfl
  | some j =>
    have le : i ≤ j := by
      have mem : j ∈ (w.set (i :: w.get b) b).get .curly := List.mem_of_head? brace
      rw [Waiting.get_set] at mem
      split at mem
      · rcases List.mem_cons.1 mem with rfl | mem
        · exact Nat.le_refl _
        · exact Nat.le_of_lt (within b j mem)
      · exact Nat.le_of_lt (within .curly j mem)
    simp [Nat.not_lt.2 le]

end Bracket

namespace Bracketed

open EditScope.Bracket

theorem close?_group {before inner after : List Lexeme} {l close : Lexeme} {b : Bracket}
    (opens : l.opens b) (closes : close.closes b) (nested : Nested inner) :
    (ofLexemes (before ++ l :: (inner ++ close :: after))).close? before.length =
      some (before.length + inner.length + 1) := by
  have here : (before ++ l :: (inner ++ close :: after))[before.length]? = some l := by simp
  have behind : (before ++ l :: (inner ++ close :: after)).drop (before.length + 1) =
      inner ++ close :: after := by
    simp [List.drop_append]
  rw [close?_eq_join, found_at here, behind, Pass.lexeme_opens opens, passFrom_eq_passOnto,
    passOnto_append, waiting_nested nested, passOnto_cons, Pass.lexeme_closes closes]
  simp only [List.getElem?_cons_zero, Option.join_some]
  rw [Waiting.close?_of_first]
  · congr 1
    omega
  · intro b j mem
    rw [← passFrom_eq_passOnto] at mem
    exact (passFrom_within _ after b j mem).1

theorem opens_of_close? {lexemes : List Lexeme} {i c : Nat}
    (found : (ofLexemes lexemes).close? i = some c) :
    ∃ l b, lexemes[i]? = some l ∧ l.opens b := by
  obtain ⟨b, opens, _⟩ := (ofLexemes_sound lexemes).pair found
  obtain ⟨l, here, opens⟩ := (Option.any_eq_true _ _).1 opens
  exact ⟨l, b, by simpa [ofLexemes] using here, opens⟩

section Nested

variable {lexemes : List Lexeme} (nested : Nested lexemes) {i j c d : Nat} {l : Lexeme} {b : Bracket}

include nested

theorem group_of_close? (found : (ofLexemes lexemes).close? i = some c) :
    ∃ before l inner close after b, lexemes = before ++ l :: (inner ++ close :: after) ∧
      before.length = i ∧ c = i + inner.length + 1 ∧ l.opens b ∧ close.closes b ∧ Nested inner := by
  obtain ⟨l, b, here, opens⟩ := opens_of_close? found
  obtain ⟨before, inner, close, after, rfl, rfl, closes, inside⟩ := nested.group_at here opens
  rw [close?_group opens closes inside] at found
  exact ⟨before, l, inner, close, after, b, rfl, rfl, (Option.some.inj found).symm, opens, closes, inside⟩

theorem exists_close (here : lexemes[i]? = some l) (opens : l.opens b) :
    ∃ c, (ofLexemes lexemes).close? i = some c := by
  obtain ⟨before, inner, close, after, rfl, rfl, closes, inside⟩ := nested.group_at here opens
  exact ⟨_, close?_group opens closes inside⟩

theorem close?_append (after : List Lexeme) (inside : i < lexemes.length) :
    (ofLexemes (lexemes ++ after)).close? i = (ofLexemes lexemes).close? i := by
  have here := List.getElem?_eq_getElem inside
  cases opened : lexemes[i].opened? with
  | none =>
    have plain (more : List Lexeme) : (ofLexemes (lexemes ++ more)).close? i = none := by
      refine (ofLexemes_sound _).close?_eq_none (l := lexemes[i]) ?_ opened
      simp [ofLexemes, List.getElem?_append_left inside]
    have alone := plain []
    rw [List.append_nil] at alone
    rw [plain, alone]
  | some b =>
    have opens := Lexeme.opened?_eq_some.1 opened
    obtain ⟨before, inner, close, rest, split, rfl, closes, inner'⟩ := nested.group_at here opens
    rw [split, close?_group opens closes inner', List.append_assoc, List.cons_append,
      List.append_assoc, List.cons_append, close?_group opens closes inner']

theorem close?_inside (outer : (ofLexemes lexemes).close? i = some c) (after : i < j) (before : j < c)
    (found : (ofLexemes lexemes).close? j = some d) : d < c := by
  obtain ⟨first, l, inner, last, rest, _, rfl, rfl, rfl, _, _, inside⟩ := group_of_close? nested outer
  obtain ⟨k, rfl⟩ : ∃ k, j = first.length + 1 + k := Nat.exists_eq_add_of_le after
  obtain ⟨m, b, here, opens⟩ := opens_of_close? found
  -- What opens inside the group opens among its nested lexemes, and so closes among them.
  have here : inner[k]? = some m := by
    rw [List.getElem?_append_right (by omega), Nat.add_assoc, Nat.add_sub_cancel_left,
      Nat.add_comm 1, List.getElem?_cons_succ, List.getElem?_append_left (by omega)] at here
    exact here
  obtain ⟨before', inner', close, after', rfl, rfl, closes, inside'⟩ := inside.group_at here opens
  have close? : (ofLexemes ((first ++ l :: before') ++ m ::
      (inner' ++ close :: (after' ++ last :: rest)))).close? (first ++ l :: before').length = _ :=
    close?_group opens closes inside'
  simp only [List.append_assoc, List.cons_append, List.length_append, List.length_cons] at close? found ⊢
  rw [show first.length + (before'.length + 1) = first.length + 1 + before'.length by omega, found]
    at close?
  have := Option.some.inj close?
  omega

end Nested

end Bracketed

end EditScope

import EditScope.Bracket

set_option autoImplicit false

namespace EditScope

namespace Bracket

theorem openText_inj {b c : Bracket} (same : b.openText = c.openText) : b = c := by
  revert same
  cases b <;> cases c <;> decide

theorem closeText_inj {b c : Bracket} (same : b.closeText = c.closeText) : b = c := by
  revert same
  cases b <;> cases c <;> decide

theorem openText_ne_closeText (b c : Bracket) : b.openText ≠ c.closeText := by
  cases b <;> cases c <;> decide

theorem mem_all (b : Bracket) : b ∈ all := by
  cases b <;> simp [all]

end Bracket

namespace Lexeme

theorem isSeparator_iff {l : Lexeme} {mark : String} :
    l.isSeparator mark = true ↔ l.kind = .separator ∧ l.text = mark := by
  simp [isSeparator]

theorem isSeparator_unique {l : Lexeme} {mark mark' : String} (first : l.isSeparator mark)
    (second : l.isSeparator mark') : mark = mark' :=
  (isSeparator_iff.1 first).2.symm.trans (isSeparator_iff.1 second).2

theorem opens_unique {l : Lexeme} {b c : Bracket} (first : l.opens b) (second : l.opens c) :
    b = c :=
  Bracket.openText_inj (isSeparator_unique first second)

theorem closes_unique {l : Lexeme} {b c : Bracket} (first : l.closes b) (second : l.closes c) :
    b = c :=
  Bracket.closeText_inj (isSeparator_unique first second)

theorem any_closes_unique {l : Option Lexeme} {b c : Bracket} (first : l.any (·.closes b))
    (second : l.any (·.closes c)) : b = c := by
  obtain ⟨l, rfl, first⟩ := (Option.any_eq_true _ _).1 first
  exact closes_unique first second

theorem not_opens_of_closes {l : Lexeme} {b c : Bracket} (closes : l.closes c) :
    l.opens b = false := by
  cases opens : l.opens b with
  | false => rfl
  | true =>
    exact absurd (isSeparator_unique opens closes) (Bracket.openText_ne_closeText b c)

theorem not_closes_of_opens {l : Lexeme} {b : Bracket} (opens : l.opens b) (c : Bracket) :
    l.closes c = false := by
  cases closes : l.closes c with
  | false => rfl
  | true => exact absurd opens (by simp [not_opens_of_closes closes])

theorem opened?_eq_some {l : Lexeme} {b : Bracket} : l.opened? = some b ↔ l.opens b := by
  constructor
  · intro found
    exact List.find?_some found
  · intro opens
    cases found : l.opened? with
    | none =>
      have := List.find?_eq_none.1 found b (Bracket.mem_all b)
      exact absurd opens this
    | some c =>
      rw [opens_unique opens (List.find?_some found)]

theorem closed?_eq_some {l : Lexeme} {b : Bracket} : l.closed? = some b ↔ l.closes b := by
  constructor
  · intro found
    exact List.find?_some found
  · intro closes
    cases found : l.closed? with
    | none =>
      have := List.find?_eq_none.1 found b (Bracket.mem_all b)
      exact absurd closes this
    | some c =>
      rw [closes_unique closes (List.find?_some found)]

theorem opened?_eq_none {l : Lexeme} : l.opened? = none ↔ ∀ b, l.opens b = false := by
  simp [opened?, List.find?_eq_none, Bracket.mem_all]

theorem closed?_eq_none {l : Lexeme} : l.closed? = none ↔ ∀ b, l.closes b = false := by
  simp [closed?, List.find?_eq_none, Bracket.mem_all]

theorem opened?_of_kind {l : Lexeme} (other : l.kind ≠ .separator) : l.opened? = none := by
  simp [opened?_eq_none, opens, isSeparator, other]

theorem opened?_of_identifier {l : Lexeme} (identifier : l.isIdentifier) : l.opened? = none := by
  apply opened?_of_kind
  rw [eq_of_beq identifier]
  decide

theorem opened?_of_keyword {l : Lexeme} {word : String} (keyword : l.isKeyword word) :
    l.opened? = none := by
  apply opened?_of_kind
  rw [eq_of_beq (Bool.and_eq_true_iff.1 keyword).1]
  decide

theorem opened?_of_typeKeyword {l : Lexeme} (keyword : l.isTypeKeyword) : l.opened? = none := by
  apply opened?_of_kind
  rw [eq_of_beq (Bool.and_eq_true_iff.1 keyword).1]
  decide

theorem opened?_of_operator {l : Lexeme} {mark : String} (operator : l.isOperator mark) :
    l.opened? = none := by
  apply opened?_of_kind
  rw [eq_of_beq (Bool.and_eq_true_iff.1 operator).1]
  decide

theorem opened?_of_separator {l : Lexeme} {mark : String} (separator : l.isSeparator mark)
    (other : mark ∉ Bracket.all.map Bracket.openText) : l.opened? = none := by
  rw [opened?_eq_none]
  intro b
  have text := (isSeparator_iff.1 separator).2
  have apart : b.openText ≠ mark := by
    rintro rfl
    exact other (List.mem_map_of_mem (Bracket.mem_all b))
  simpa [opens, isSeparator, text] using fun _ => apart.symm

theorem opened?_of_closes {l : Lexeme} {b : Bracket} (closes : l.closes b) : l.opened? = none := by
  cases found : l.opened? with
  | none => rfl
  | some c =>
    have := not_opens_of_closes (b := c) closes
    simp [opened?_eq_some.1 found] at this

theorem bracket_cases (l : Lexeme) :
    (∃ b, l.opens b = true) ∨ (∃ b, l.closes b = true) ∨ l.opened? = none ∧ l.closed? = none := by
  cases opened : l.opened? with
  | some b => exact .inl ⟨b, opened?_eq_some.1 opened⟩
  | none =>
    cases closed : l.closed? with
    | some b => exact .inr (.inl ⟨b, closed?_eq_some.1 closed⟩)
    | none => exact .inr (.inr ⟨rfl, rfl⟩)

end Lexeme

namespace Bracket

theorem Pass.lexeme_opens {l : Lexeme} {b : Bracket} (opens : l.opens b) (i : Nat) (pass : Pass) :
    pass.lexeme l i =
      ⟨pass.waiting.set (pass.waiting.get b).tail b, pass.waiting.close? b :: pass.found⟩ := by
  simp only [Pass.lexeme, Lexeme.opened?_eq_some.2 opens]

theorem Pass.lexeme_closes {l : Lexeme} {b : Bracket} (closes : l.closes b) (i : Nat)
    (pass : Pass) :
    pass.lexeme l i = ⟨pass.waiting.set (i :: pass.waiting.get b) b, none :: pass.found⟩ := by
  simp only [Pass.lexeme, Lexeme.opened?_of_closes closes, Lexeme.closed?_eq_some.2 closes]

theorem Pass.lexeme_plain {l : Lexeme} (opened : l.opened? = none) (closed : l.closed? = none)
    (i : Nat) (pass : Pass) : pass.lexeme l i = ⟨pass.waiting, none :: pass.found⟩ := by
  simp only [Pass.lexeme, opened, closed]

theorem Pass.mem_lexeme {l : Lexeme} {i j : Nat} {pass : Pass} {b : Bracket}
    (mem : j ∈ (pass.lexeme l i).waiting.get b) :
    j ∈ pass.waiting.get b ∨ j = i ∧ l.closes b := by
  -- An opening bracket only takes one away; a closing one adds itself, and only to its family.
  obtain ⟨c, opens⟩ | ⟨c, closes⟩ | ⟨opened, closed⟩ := Lexeme.bracket_cases l
  · rw [Pass.lexeme_opens opens, Waiting.get_set] at mem
    split at mem
    · rename_i same
      exact .inl (same ▸ List.mem_of_mem_tail mem)
    · exact .inl mem
  · rw [Pass.lexeme_closes closes, Waiting.get_set] at mem
    split at mem
    · rename_i same
      rcases List.mem_cons.1 mem with here | mem
      · exact .inr ⟨here, same ▸ closes⟩
      · exact .inl (same ▸ mem)
    · exact .inl mem
  · rw [Pass.lexeme_plain opened closed] at mem
    exact .inl mem

-- Indices count from the start of the source, so the lexemes before the pass are kept in sight.
theorem mem_waiting (before lexemes : List Lexeme) {b : Bracket} {j : Nat}
    (mem : j ∈ (passFrom before.length lexemes).waiting.get b) :
    (before ++ lexemes)[j]?.any (·.closes b) := by
  induction lexemes generalizing before with
  | nil => cases b <;> simp [passFrom, Waiting.get] at mem
  | cons l lexemes ih =>
    rw [passFrom_cons] at mem
    rcases Pass.mem_lexeme mem with mem | ⟨rfl, closes⟩
    · simpa using ih (before ++ [l]) (by simpa using mem)
    · simp [closes]

theorem waiting_ascending (first : Nat) (lexemes : List Lexeme) (b : Bracket) :
    ((passFrom first lexemes).waiting.get b).Pairwise (· < ·) := by
  induction lexemes generalizing first with
  | nil => cases b <;> simp [passFrom, Waiting.get]
  | cons l lexemes ih =>
    have rest := ih (first + 1)
    rw [passFrom_cons]
    obtain ⟨c, opens⟩ | ⟨c, closes⟩ | ⟨opened, closed⟩ := Lexeme.bracket_cases l
    · rw [Pass.lexeme_opens opens, Waiting.get_set]
      split
      · rename_i same
        exact same ▸ rest.tail
      · exact rest
    · rw [Pass.lexeme_closes closes, Waiting.get_set]
      split
      · rename_i same
        refine List.pairwise_cons.2 ⟨?_, same ▸ rest⟩
        intro j mem
        have := passFrom_within (first + 1) lexemes c j mem
        omega
      · exact rest
    · rw [Pass.lexeme_plain opened closed]
      exact rest

theorem Waiting.close?_head {w : Waiting} {b : Bracket} {close : Nat}
    (found : w.close? b = some close) : (w.get b).head? = some close := by
  unfold Waiting.close? at found
  split at found
  · simp at found
  · rename_i first _
    simpa [first] using found
  · rename_i first _
    split at found <;> simp at found
    rw [first, found]

structure Paired (before lexemes : List Lexeme) (i close : Nat) (b : Bracket) : Prop where
  opens : lexemes[i]?.any (·.opens b)
  closes : (before ++ lexemes)[close]?.any (·.closes b)
  taken : close ∉ (passFrom before.length lexemes).waiting.get b

theorem found_paired (before lexemes : List Lexeme) {i close : Nat}
    (found : (passFrom before.length lexemes).found[i]? = some (some close)) :
    ∃ b, Paired before lexemes i close b := by
  induction lexemes generalizing before i with
  | nil => simp [passFrom] at found
  | cons l lexemes ih =>
    rw [passFrom_cons] at found
    cases i with
    | zero =>
      obtain ⟨c, opens⟩ | ⟨c, closes⟩ | ⟨opened, closed⟩ := Lexeme.bracket_cases l
      · rw [Pass.lexeme_opens opens] at found
        have head := Waiting.close?_head (by simpa using found)
        have mem := mem_waiting (before ++ [l]) lexemes
          (by simpa using List.mem_of_head? head)
        refine ⟨c, by simpa using opens, by simpa using mem, ?_⟩
        rw [passFrom_cons, Pass.lexeme_opens opens, Waiting.get_set, if_pos rfl]
        -- The waiting ones ascend, so what is taken off does not come again behind it.
        intro again
        obtain ⟨rest, cons⟩ := List.head?_eq_some_iff.1 head
        have sorted := waiting_ascending (before.length + 1) lexemes c
        rw [cons, List.pairwise_cons] at sorted
        rw [cons, List.tail_cons] at again
        exact Nat.lt_irrefl _ (sorted.1 close again)
      · simp [Pass.lexeme_closes closes] at found
      · simp [Pass.lexeme_plain opened closed] at found
    | succ i =>
      have tail : (passFrom (before.length + 1) lexemes).found[i]? = some (some close) := by
        unfold Pass.lexeme at found
        split at found <;> simpa using found
      obtain ⟨b, pair⟩ := ih (before ++ [l]) (by simpa using tail)
      have bounds := passFrom_bounds (before.length + 1) lexemes i close tail
      refine ⟨b, by simpa using pair.opens, by simpa using pair.closes, ?_⟩
      rw [passFrom_cons]
      intro mem
      rcases Pass.mem_lexeme mem with mem | ⟨here, _⟩
      · exact pair.taken (by simpa using mem)
      · omega

theorem found_inj (before lexemes : List Lexeme) {i j close : Nat} (less : i < j)
    (first : (passFrom before.length lexemes).found[i]? = some (some close))
    (second : (passFrom before.length lexemes).found[j]? = some (some close)) : False := by
  induction lexemes generalizing before i j with
  | nil => simp [passFrom] at first
  | cons l lexemes ih =>
    obtain ⟨j, rfl⟩ : ∃ k, j = k + 1 := ⟨j - 1, by omega⟩
    rw [passFrom_cons] at first second
    have later : (passFrom (before ++ [l]).length lexemes).found[j]? = some (some close) := by
      unfold Pass.lexeme at second
      split at second <;> simpa using second
    cases i with
    | zero =>
      -- The close of the later bracket was taken off, and so is not there for the earlier one.
      obtain ⟨b, pair⟩ := found_paired (before ++ [l]) lexemes later
      obtain ⟨c, opens⟩ | ⟨c, closes⟩ | ⟨opened, closed⟩ := Lexeme.bracket_cases l
      · rw [Pass.lexeme_opens opens] at first
        have mem := Waiting.close?_mem (by simpa using first)
        have closes := mem_waiting (before ++ [l]) lexemes (by simpa using mem)
        exact pair.taken (Lexeme.any_closes_unique closes pair.closes ▸ by simpa using mem)
      · simp [Pass.lexeme_closes closes] at first
      · simp [Pass.lexeme_plain opened closed] at first
    | succ i =>
      refine ih (before ++ [l]) (Nat.lt_of_succ_lt_succ less) ?_ later
      unfold Pass.lexeme at first
      split at first <;> simpa using first

end Bracket

namespace Bracketed

structure Sound (b : Bracketed) : Prop where
  pair {i close : Nat} : b.close? i = some close →
    ∃ family, b.has (·.opens family) i ∧ b.has (·.closes family) close
  inj {i j close : Nat} : b.close? i = some close → b.close? j = some close → i = j

theorem close?_ofLexemes {lexemes : List Lexeme} {i close : Nat} :
    (ofLexemes lexemes).close? i = some close ↔
      (Bracket.passFrom 0 lexemes).found[i]? = some (some close) := by
  simp [close?, ofLexemes, Bracket.closes, Option.join_eq_some_iff]

theorem ofLexemes_sound (lexemes : List Lexeme) : (ofLexemes lexemes).Sound where
  pair found := by
    obtain ⟨family, pair⟩ := Bracket.found_paired [] lexemes (close?_ofLexemes.1 found)
    exact ⟨family, by simpa [has, ofLexemes] using pair.opens,
      by simpa [has, ofLexemes] using pair.closes⟩
  inj {i j close} first second := by
    rcases Nat.lt_trichotomy i j with less | same | more
    · exact (Bracket.found_inj [] lexemes less (close?_ofLexemes.1 first)
        (close?_ofLexemes.1 second)).elim
    · exact same
    · exact (Bracket.found_inj [] lexemes more (close?_ofLexemes.1 second)
        (close?_ofLexemes.1 first)).elim

variable {b : Bracketed}

theorem has_eq {i : Nat} {l : Lexeme} (here : b.lexemes[i]? = some l) (p : Lexeme → Bool) :
    b.has p i = p l := by
  rw [has, here, Option.any_some]

theorem not_identifier {i : Nat} {mark : String} (here : b.has (·.isSeparator mark) i) :
    b.has Lexeme.isIdentifier i = false := by
  obtain ⟨l, here, separator⟩ := (Option.any_eq_true _ _).1 here
  simp [has, here, Lexeme.isIdentifier, (Lexeme.isSeparator_iff.1 separator).1]

theorem Sound.close?_eq_none (sound : b.Sound) {i : Nat} {l : Lexeme}
    (here : b.lexemes[i]? = some l) (plain : l.opened? = none) : b.close? i = none := by
  cases found : b.close? i with
  | none => rfl
  | some close =>
    obtain ⟨family, opens, _⟩ := sound.pair found
    simp [has, here, Lexeme.opened?_eq_none.1 plain] at opens

theorem Sound.closes_of_opens (sound : b.Sound) {i close : Nat} {family : Bracket}
    (opens : b.has (·.opens family) i) (found : b.close? i = some close) :
    b.has (·.closes family) close := by
  obtain ⟨other, opens', closes⟩ := sound.pair found
  obtain ⟨l, here, opens⟩ := (Option.any_eq_true _ _).1 opens
  rw [has, here] at opens'
  rw [Lexeme.opens_unique opens opens']
  exact closes

end Bracketed

end EditScope

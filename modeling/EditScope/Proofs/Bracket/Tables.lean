import EditScope.Bracket.Tables
import EditScope.Proofs.Bracket.Nested

set_option autoImplicit false

namespace EditScope

section Entries

variable {α : Type} {table : Array α} {i : Nat}

theorem entry_of_lt (inside : i < table.size) : entry table i = .ok table[i] := dif_pos inside

theorem entry_of_getElem? {x : α} (there : table[i]? = some x) : entry table i = .ok x := by
  obtain ⟨inside, rfl⟩ := Array.getElem?_eq_some_iff.1 there
  exact entry_of_lt inside

theorem overwrite_of_lt (inside : i < table.size) (x : α) :
    overwrite table i x = .ok (table.setIfInBounds i x) := by
  rw [overwrite, dif_pos inside, Array.setIfInBounds, dif_pos inside]

end Entries

namespace Bracket

namespace Forward

variable {s s' t : Forward} {l : Lexeme} {b : Bracket} {i size : Nat} {rest : List Lexeme}

structure Ready (s : Forward) (i size : Nat) : Prop where
  closes_size : s.closes.size = size
  braces_size : s.braces.size = size
  opened_lt : ∀ b, ∀ j ∈ s.opened.get b, j < i
  strays_lt : ∀ j ∈ s.strays, j < i
  nodup : ∀ b, (s.opened.get b).Nodup
  apart : ∀ b c j, j ∈ s.opened.get b → j ∈ s.opened.get c → b = c
  unclosed : ∀ j < size, (i ≤ j ∨ ∃ b, j ∈ s.opened.get b) → s.closes[j]? = some none
  bare : ∀ j < size, i ≤ j → s.braces[j]? = some none

/-- The tables `t` are `s` once the lexemes from `i` on have told of the brackets before them. -/
structure Completes (s t : Forward) (i : Nat) (rest : List Lexeme) : Prop where
  opened : ∀ (b : Bracket) (depth j : Nat), (s.opened.get b)[depth]? = some j →
    t.closes[j]? = some ((passFrom i rest).waiting.get b)[depth]?
  settled : ∀ j < i, (∀ b, j ∉ s.opened.get b) → t.closes[j]? = s.closes[j]?
  braces : ∀ j < i, t.braces[j]? = s.braces[j]?
  strays : t.strays =
    s.strays ++ ((passFrom i rest).waiting.get .curly).drop (s.opened.get .curly).length

structure Tells (t : Forward) (i : Nat) (l : Lexeme) (w : Waiting) : Prop where
  close : t.closes[i]? = some (l.opened?.bind fun b => (w.get b).head?)
  barrier : ∃ brace, t.braces[i]? = some brace ∧ t.barrier i brace =
    .ok ((l.opened?.filter (· ≠ .curly)).bind fun _ => w.curly.head?)

structure Advances (s s' : Forward) (i size : Nat) (l : Lexeme) : Prop where
  ready : s'.Ready (i + 1) size
  back : ∀ t rest, s'.Completes t (i + 1) rest →
    s.Completes t i (l :: rest) ∧ t.Tells i l (passFrom (i + 1) rest).waiting

theorem lexeme_opens (opens : l.opens b) (inside : i < s.braces.size) :
    s.lexeme l i = .ok
      { s with
        braces := if b = .curly then s.braces else s.braces.setIfInBounds i (some s.opened.curly.head?)
        opened := s.opened.set (i :: s.opened.get b) b } := by
  simp only [lexeme, Lexeme.opened?_eq_some.2 opens, overwrite_of_lt inside]
  split <;> rfl

theorem lexeme_closes (closes : l.closes b) {first : Nat} {opened : List Nat}
    (stack : s.opened.get b = first :: opened) (inside : first < s.closes.size) :
    s.lexeme l i = .ok
      { s with
        closes := s.closes.setIfInBounds first (some i)
        opened := s.opened.set opened b } := by
  simp only [lexeme, Lexeme.opened?_of_closes closes, Lexeme.closed?_eq_some.2 closes, stack,
    overwrite_of_lt inside]
  rfl

theorem lexeme_stray (closes : l.closes b) (stack : s.opened.get b = []) :
    s.lexeme l i = .ok { s with strays := if b = .curly then s.strays ++ [i] else s.strays } := by
  simp only [lexeme, Lexeme.opened?_of_closes closes, Lexeme.closed?_eq_some.2 closes, stack]
  rfl

theorem lexeme_plain (opened : l.opened? = none) (closed : l.closed? = none) :
    s.lexeme l i = .ok s := by
  simp only [lexeme, opened, closed]
  rfl

theorem ready_start (size : Nat) : Ready (.start size) 0 size := by
  have empty (b : Bracket) : (Forward.start size).opened.get b = [] := by cases b <;> rfl
  exact {
    closes_size := by simp [start]
    braces_size := by simp [start]
    opened_lt := by simp [empty]
    strays_lt := by simp [start]
    nodup := by simp [empty]
    apart := by simp [empty]
    unclosed := by simp +contextual [start]
    bare := by simp +contextual [start] }

theorem Ready.later (ready : s.Ready i size) : s.Ready (i + 1) size where
  closes_size := ready.closes_size
  braces_size := ready.braces_size
  opened_lt b j mem := Nat.lt_succ_of_lt (ready.opened_lt b j mem)
  strays_lt j mem := Nat.lt_succ_of_lt (ready.strays_lt j mem)
  nodup := ready.nodup
  apart := ready.apart
  unclosed j inside here := ready.unclosed j inside (here.imp_left Nat.le_of_succ_le)
  bare j inside le := ready.bare j inside (Nat.le_of_succ_le le)

theorem completes_nil (ready : s.Ready size size) : s.Completes s size [] where
  opened b depth j there := by
    have mem := List.mem_of_getElem? there
    rw [ready.unclosed j (ready.opened_lt b j mem) (.inr ⟨b, mem⟩)]
    cases b <;> rfl
  settled _ _ _ := rfl
  braces _ _ := rfl
  strays := by
    have empty : (passFrom size []).waiting.get .curly = [] := rfl
    simp [empty]

section Steps

variable (ready : s.Ready i size) (inside : i < size)

include ready inside

theorem tells_of_bare (opened : l.opened? = none) (here : t.closes[i]? = s.closes[i]?)
    (braces : t.braces[i]? = s.braces[i]?) (w : Waiting) : t.Tells i l w where
  close := by
    rw [here, opened]
    exact ready.unclosed i inside (.inl (Nat.le_refl i))
  barrier := ⟨none, braces.trans (ready.bare i inside (Nat.le_refl i)), by rw [opened]; rfl⟩

theorem advances_plain (opened : l.opened? = none) (closed : l.closed? = none) :
    s.Advances s i size l where
  ready := ready.later
  back t rest completes := by
    have waiting : (passFrom i (l :: rest)).waiting = (passFrom (i + 1) rest).waiting := by
      rw [passFrom_cons, Pass.lexeme_plain opened closed]
    have before (b : Bracket) : i ∉ s.opened.get b :=
      fun mem => Nat.lt_irrefl i (ready.opened_lt b i mem)
    exact ⟨{
        opened := waiting ▸ completes.opened
        settled := fun j less => completes.settled j (Nat.lt_succ_of_lt less)
        braces := fun j less => completes.braces j (Nat.lt_succ_of_lt less)
        strays := waiting ▸ completes.strays },
      tells_of_bare ready inside opened (completes.settled i (Nat.lt_succ_self i) before)
        (completes.braces i (Nat.lt_succ_self i)) _⟩

theorem advances_stray (closes : l.closes b) (stack : s.opened.get b = []) :
    s.Advances { s with strays := if b = .curly then s.strays ++ [i] else s.strays } i size l where
  ready := by
    have strays := ready.strays_lt
    exact { ready.later with strays_lt := by grind }
  back t rest completes := by
    have before (b : Bracket) : i ∉ s.opened.get b :=
      fun mem => Nat.lt_irrefl i (ready.opened_lt b i mem)
    refine ⟨{
        opened := fun c depth j there => ?_
        settled := fun j less => completes.settled j (Nat.lt_succ_of_lt less)
        braces := fun j less => completes.braces j (Nat.lt_succ_of_lt less)
        strays := ?_ },
      tells_of_bare ready inside (Lexeme.opened?_of_closes closes)
        (completes.settled i (Nat.lt_succ_self i) before) (completes.braces i (Nat.lt_succ_self i)) _⟩
    · have other : c ≠ b := by
        rintro rfl
        simp [stack] at there
      rw [passFrom_cons, Pass.lexeme_closes closes, Waiting.get_set, if_neg other]
      exact completes.opened c depth j there
    · rw [completes.strays, passFrom_cons, Pass.lexeme_closes closes, Waiting.get_set]
      by_cases curly : b = .curly
      · subst curly
        simp [stack]
      · simp [curly, Ne.symm curly]

theorem advances_closes (closes : l.closes b) {first : Nat} {opened : List Nat}
    (stack : s.opened.get b = first :: opened) :
    s.Advances
      { s with
        closes := s.closes.setIfInBounds first (some i)
        opened := s.opened.set opened b } i size l := by
  have mem : first ∈ s.opened.get b := stack ▸ List.mem_cons_self ..
  have before : first < i := ready.opened_lt b first mem
  obtain ⟨new, nodup⟩ := List.nodup_cons.1 (stack ▸ ready.nodup b)
  have kept (c : Bracket) (j : Nat) (there : j ∈ (s.opened.set opened b).get c) :
      j ∈ s.opened.get c ∧ j ≠ first := by
    rw [Waiting.get_set] at there
    split at there
    · rename_i same
      exact ⟨same ▸ stack ▸ List.mem_cons_of_mem _ there, fun eq => new (eq ▸ there)⟩
    · rename_i other
      exact ⟨there, fun eq => other (ready.apart c b first (eq ▸ there) mem)⟩
  have elsewhere {j : Nat} (other : j ≠ first) :
      (s.closes.setIfInBounds first (some i))[j]? = s.closes[j]? :=
    Array.getElem?_setIfInBounds_ne other.symm
  refine ⟨{ ready.later with
      closes_size := by simp [ready.closes_size]
      opened_lt := fun c j there => ready.later.opened_lt c j (kept c j there).1
      nodup := fun c => ?_
      apart := fun c d j here there => ready.apart c d j (kept c j here).1 (kept d j there).1
      unclosed := fun j inside here => ?_ }, fun t rest completes => ⟨{
        opened := fun c depth j there => ?_
        settled := fun j less away => ?_
        braces := fun j less => completes.braces j (Nat.lt_succ_of_lt less)
        strays := ?_ },
      tells_of_bare ready inside (Lexeme.opened?_of_closes closes) ?_
        (completes.braces i (Nat.lt_succ_self i)) _⟩⟩
  · rw [Waiting.get_set]
    split
    · exact nodup
    · exact ready.nodup c
  · have other : j ≠ first := by
      rcases here with later | ⟨c, there⟩
      · omega
      · exact (kept c j there).2
    rw [elsewhere other]
    exact ready.later.unclosed j inside (here.imp_right fun ⟨c, there⟩ => ⟨c, (kept c j there).1⟩)
  · have later := completes.opened c
    rw [Waiting.get_set] at later
    rw [passFrom_cons, Pass.lexeme_closes closes, Waiting.get_set]
    split
    · rename_i same
      rw [same, stack] at there
      rw [if_pos same] at later
      cases depth with
      | zero =>
        -- The innermost bracket of the family is the one that is closed here.
        cases Option.some.inj there
        rw [completes.settled first (by omega) fun c there => (kept c first there).2 rfl,
          Array.getElem?_setIfInBounds_self_of_lt (by rw [ready.closes_size]; omega)]
        rfl
      | succ depth =>
        rw [later depth j (by simpa using there), same, List.getElem?_cons_succ]
    · rename_i other
      rw [if_neg other] at later
      exact later depth j there
  · rw [completes.settled j (Nat.lt_succ_of_lt less) fun c there => away c (kept c j there).1]
    exact elsewhere fun eq => away b (eq ▸ mem)
  · rw [completes.strays, passFrom_cons, Pass.lexeme_closes closes, Waiting.get_set, Waiting.get_set]
    split
    · rename_i same
      rw [same, stack, List.length_cons, List.drop_succ_cons]
    · rfl
  · rw [completes.settled i (Nat.lt_succ_self i) fun c there =>
      Nat.lt_irrefl i (ready.opened_lt c i (kept c i there).1)]
    exact elsewhere (Nat.ne_of_gt before)

omit inside in
theorem barrier_of_completes (completes : s.Completes t i (l :: rest)) :
    t.barrier i (some s.opened.curly.head?) =
      .ok ((passFrom i (l :: rest)).waiting.get .curly).head? := by
  rw [List.head?_eq_getElem?, List.head?_eq_getElem?]
  cases stack : s.opened.curly with
  | cons brace outer =>
    exact entry_of_getElem? (completes.opened .curly 0 brace (by simp [Waiting.get, stack]))
  | nil =>
    -- No brace is open, so the first that closes none from here on is in the way.
    have before : s.strays.find? (i ≤ ·) = none := by
      simpa using fun j mem => ready.strays_lt j mem
    have empty : (s.opened.get .curly).length = 0 := by simp [Waiting.get, stack]
    have behind := passFrom_within i (l :: rest) .curly
    simp only [List.getElem?_nil, barrier, completes.strays, List.find?_append, before, empty,
      List.drop_zero, Option.none_or]
    cases waiting : (passFrom i (l :: rest)).waiting.get .curly with
    | nil => rfl
    | cons brace _ => simp [(behind brace (by simp [waiting])).1]

theorem advances_opens (opens : l.opens b) :
    s.Advances
      { s with
        braces := if b = .curly then s.braces else s.braces.setIfInBounds i (some s.opened.curly.head?)
        opened := s.opened.set (i :: s.opened.get b) b } i size l := by
  have below := ready.opened_lt
  refine ⟨{ ready.later with
      braces_size := by split <;> simp [ready.braces_size]
      opened_lt := ?_
      nodup := ?_
      apart := ?_
      unclosed := ?_
      bare := ?_ }, fun t rest completes => ?_⟩
  · simp only [Waiting.get_set]
    grind
  · simp only [Waiting.get_set]
    grind [ready.nodup]
  · simp only [Waiting.get_set]
    grind [ready.apart]
  · simp only [Waiting.get_set]
    grind [ready.unclosed]
  · grind [ready.bare]
  · obtain ⟨opened, settled, braces, strays⟩ := completes
    simp only [Waiting.get_set] at opened settled strays
    have back : s.Completes t i (l :: rest) := by
      refine ⟨?_, by grind, by grind, ?_⟩
      · rw [passFrom_cons, Pass.lexeme_opens opens]
        simp only [Waiting.get_set]
        grind
      · rw [strays, passFrom_cons, Pass.lexeme_opens opens, Waiting.get_set]
        split
        · rename_i same
          rw [← same, List.length_cons, List.drop_tail]
        · rfl
    -- Later lexemes only write behind `i`, so what is entered for it now stays.
    have here := braces i (Nat.lt_succ_self i)
    refine ⟨back, ?_, ?_⟩
    · rw [Lexeme.opened?_eq_some.2 opens, Option.bind_some, List.head?_eq_getElem?]
      exact opened b 0 i (by simp)
    · rw [Lexeme.opened?_eq_some.2 opens]
      by_cases curly : b = .curly
      · rw [if_pos curly] at here
        exact ⟨none, here.trans (ready.bare i inside (Nat.le_refl i)), by simp [Option.filter_some, curly, barrier]⟩
      · rw [if_neg curly, Array.getElem?_setIfInBounds_self_of_lt (ready.braces_size ▸ inside)] at here
        refine ⟨_, here, ?_⟩
        rw [barrier_of_completes ready back, passFrom_cons, Pass.lexeme_opens opens, Waiting.get_set,
          if_neg (Ne.symm curly)]
        simp [Option.filter_some, curly, Waiting.get]

end Steps

theorem exists_advances (ready : s.Ready i size) (inside : i < size) (l : Lexeme) :
    ∃ s', s.lexeme l i = .ok s' ∧ s.Advances s' i size l := by
  obtain ⟨b, opens⟩ | ⟨b, closes⟩ | ⟨opened, closed⟩ := Lexeme.bracket_cases l
  · exact ⟨_, lexeme_opens opens (ready.braces_size ▸ inside), advances_opens ready inside opens⟩
  · cases stack : s.opened.get b with
    | nil => exact ⟨_, lexeme_stray closes stack, advances_stray ready inside closes stack⟩
    | cons first opened =>
      have before : first < s.closes.size := by
        rw [ready.closes_size]
        exact Nat.lt_trans (ready.opened_lt b first (stack ▸ List.mem_cons_self ..)) inside
      exact ⟨_, lexeme_closes closes stack before, advances_closes ready inside closes stack⟩
  · exact ⟨s, lexeme_plain opened closed, advances_plain ready inside opened closed⟩

theorem exists_completes (ready : s.Ready i size) (length : i + rest.length = size) :
    ∃ t, lexemes i rest s = .ok t ∧ t.closes.size = size ∧ t.braces.size = size ∧
      s.Completes t i rest ∧ ∀ j l, rest[j]? = some l →
        t.Tells (i + j) l (passFrom (i + j + 1) (rest.drop (j + 1))).waiting := by
  induction rest generalizing s i with
  | nil =>
    obtain rfl : i = size := length
    exact ⟨s, rfl, ready.closes_size, ready.braces_size, completes_nil ready, by simp⟩
  | cons l rest ih =>
    have inside : i < size := by
      rw [← length, List.length_cons]
      omega
    obtain ⟨s', step, ready', back⟩ := exists_advances ready inside l
    obtain ⟨t, run, closes, braces, completes, tells⟩ :=
      ih ready' (by rw [← length, List.length_cons]; omega)
    obtain ⟨completes, here⟩ := back t rest completes
    refine ⟨t, by rw [lexemes, step]; exact run, closes, braces, completes, fun j l' there => ?_⟩
    cases j with
    | zero =>
      cases Option.some.inj there
      exact here
    | succ j =>
      have later := tells j l' there
      rwa [show i + 1 + j = i + (j + 1) by omega] at later

end Forward

theorem mapM_ok {α β : Type} {f : α → Checked β} {g : α → β} {items : List α}
    (ok : ∀ x ∈ items, f x = .ok (g x)) : items.mapM f = .ok (items.map g) := by
  induction items with
  | nil => rfl
  | cons x items ih =>
    rw [List.mapM_cons, ok x (List.mem_cons_self ..), ih fun y mem => ok y (List.mem_cons_of_mem _ mem)]
    rfl

def barrierAt (lexemes : List Lexeme) (i : Nat) : Option Nat :=
  ((lexemes[i]?.bind Lexeme.opened?).filter (· ≠ .curly)).bind fun _ =>
    (passFrom (i + 1) (lexemes.drop (i + 1))).waiting.curly.head?

theorem barrierAt_of_opens {lexemes : List Lexeme} {i : Nat} {l : Lexeme} {b : Bracket}
    (here : lexemes[i]? = some l) (opens : l.opens b) :
    barrierAt lexemes i = if b = .curly then none else
      (passFrom (i + 1) (lexemes.drop (i + 1))).waiting.curly.head? := by
  rw [barrierAt, here, Option.bind_some, Lexeme.opened?_eq_some.2 opens]
  by_cases curly : b = .curly <;> simp [Option.filter_some, curly]

theorem exists_tables (lexemes : List Lexeme) :
    ∃ t, tables lexemes = .ok t ∧ t.closes.size = lexemes.length ∧
      ∀ i l, lexemes[i]? = some l → t.barriers[i]? = some (barrierAt lexemes i) ∧
        t.closes[i]? = some (l.opened?.bind fun b =>
          ((passFrom (i + 1) (lexemes.drop (i + 1))).waiting.get b).head?) := by
  obtain ⟨s, run, closes, braces, -, tells⟩ :=
    Forward.exists_completes (Forward.ready_start lexemes.length) (Nat.zero_add _)
  simp only [Nat.zero_add] at tells
  have barriers : s.braces.toList.zipIdx.mapM (fun brace => s.barrier brace.2 brace.1) =
      .ok (s.braces.toList.zipIdx.map fun brace => barrierAt lexemes brace.2) := by
    refine mapM_ok fun x mem => ?_
    obtain ⟨brace, i⟩ := x
    have here : s.braces[i]? = some brace := by simpa using List.mem_zipIdx_iff_getElem?.1 mem
    have inside : i < lexemes.length := braces ▸ (Array.getElem?_eq_some_iff.1 here).1
    obtain ⟨brace', here', barrier⟩ := (tells i _ (List.getElem?_eq_getElem inside)).barrier
    cases Option.some.inj (here.symm.trans here')
    rw [barrierAt, List.getElem?_eq_getElem inside]
    exact barrier
  refine ⟨_, by rw [tables, run]; dsimp only [bind, Except.bind]; rw [barriers]; rfl, closes,
    fun i l here => ⟨?_, (tells i l here).close⟩⟩
  have inside : i < s.braces.size := braces ▸ (List.getElem?_eq_some_iff.1 here).1
  simp [inside]

theorem close_of_opened {t : Tables} {b : Bracket} {w : Waiting} {i : Nat}
    (close : t.closes[i]? = some (w.get b).head?)
    (barrier : t.barriers[i]? = some (if b = .curly then none else w.curly.head?)) :
    t.close i = .ok (w.close? b) := by
  rw [Tables.close, close, Option.join_some, Waiting.close?]
  cases first : (w.get b).head? with
  | none => rfl
  | some close =>
    dsimp only
    rw [entry_of_getElem? barrier]
    by_cases curly : b = .curly
    · have same : w.curly.head? = some close := by rw [← first, curly, Waiting.get]
      simp only [curly, same, Nat.lt_irrefl, if_false]
      rfl
    · rw [if_neg curly]
      cases w.curly.head? with
      | none => rfl
      | some brace =>
        refine congrArg Except.ok (?_ : (if (some brace).any (· < close) then none else some close) = _)
        by_cases less : brace < close <;> simp [less]

theorem tables_close (lexemes : List Lexeme) :
    ∃ t, tables lexemes = .ok t ∧ ∀ i, t.close i = .ok ((Bracketed.ofLexemes lexemes).close? i) := by
  obtain ⟨t, run, size, told⟩ := exists_tables lexemes
  refine ⟨t, run, fun i => ?_⟩
  rw [Bracketed.close?_eq_join]
  cases here : lexemes[i]? with
  | none =>
    have outside : lexemes.length ≤ i := List.getElem?_eq_none_iff.1 here
    have outside' : (passFrom 0 lexemes).found[i]? = none := by simpa [passFrom_length] using outside
    rw [Tables.close, Array.getElem?_eq_none (size ▸ outside), outside']
    rfl
  | some l =>
    obtain ⟨barrier, close⟩ := told i l here
    rw [found_at here]
    obtain ⟨b, opens⟩ | ⟨b, closes⟩ | ⟨opened, closed⟩ := Lexeme.bracket_cases l
    · rw [Lexeme.opened?_eq_some.2 opens] at close
      rw [barrierAt_of_opens here opens] at barrier
      rw [Pass.lexeme_opens opens]
      exact close_of_opened close barrier
    · rw [Pass.lexeme_closes closes, Tables.close, close, Lexeme.opened?_of_closes closes]
      rfl
    · rw [Pass.lexeme_plain opened closed, Tables.close, close, opened]
      rfl

end Bracket

end EditScope

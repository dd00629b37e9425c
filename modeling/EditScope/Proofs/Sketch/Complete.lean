import EditScope.Proofs.Sketch.Fence
import EditScope.Proofs.Sketch.Origin

set_option autoImplicit false

namespace EditScope.Sketch

variable {b b' : Bracketed} {rules : Rules} {i low low' high high' : Nat} {l : Lexeme} {w v : Walk}

variable (b) in
/-- The bodies of the frames open before `low`, close from `high` on, and lie one in another. -/
def Enclosed : Nat → Nat → List Frame → Prop
  | _, high, [] => high ≤ b.lexemes.size
  | low, high, _ :: frames => ∃ brace close, Body b brace close ∧ brace < low ∧ high ≤ close ∧
      Enclosed brace (close + 1) frames

theorem Enclosed.mono {frames : List Frame} (enclosed : Enclosed b low high frames)
    (above : low ≤ low') (below : high' ≤ high) : Enclosed b low' high' frames := by
  cases frames with
  | nil => exact Nat.le_trans below enclosed
  | cons f frames =>
    obtain ⟨brace, close, body, before, after, rest⟩ := enclosed
    exact ⟨brace, close, body, by omega, by omega, rest⟩

theorem Enclosed.le_size {frames : List Frame} (enclosed : Enclosed b low high frames) :
    high ≤ b.lexemes.size := by
  cases frames with
  | nil => exact enclosed
  | cons f frames =>
    obtain ⟨_, _, body, _, after, _⟩ := enclosed
    have := (Bracketed.close?_bounds body.pair).2
    omega

theorem Enclosed.leave {f : Frame} {frames : List Frame} (enclosed : Enclosed b i i (f :: frames)) :
    Enclosed b (i + 1) (i + 1) frames := by
  obtain ⟨brace, close, _, before, after, rest⟩ := enclosed
  exact rest.mono (by omega) (by omega)

theorem Enclosed.enter {f : Frame} {brace close : Nat} (body : Body b brace close)
    (around : Enclosed b brace (close + 1) w.frames) :
    Enclosed b (brace + 1) (brace + 1) (w.enter f).frames :=
  ⟨brace, close, body, Nat.lt_succ_self brace, (Bracketed.close?_bounds body.pair).1, around⟩

theorem frames_add (w : Walk) (d : Sketch) : Enclosed b low high (w.add d).frames ↔
    Enclosed b low high w.frames := by
  obtain ⟨package, types, frames, notes⟩ := w
  cases frames <;> exact Iff.rfl

section Step

variable (resumes : Resumes b b') (here : b.lexemes[i]? = some l)

include resumes here

theorem typeStep_enclosed {fence reach : Nat} (bound : Fence b low fence) (above : low ≤ i)
    (le : i ≤ fence) (keyword : l.isTypeKeyword)
    (room : ∀ {brace close}, low ≤ brace → brace < fence → b.close? brace = some close → close < reach)
    (inside : i < reach)
    (around : ∀ {low' high'}, i ≤ low' → high' ≤ reach → Enclosed b low' high' w.frames) :
    typeStep b' rules i w = typeStep b rules i w ∧
      Enclosed b (typeStep b rules i w).1 (typeStep b rules i w).1 (typeStep b rules i w).2.frames := by
  obtain ⟨header, within⟩ := bound.typeHeader? resumes le above here keyword
  unfold typeStep
  rw [header]
  cases found : typeHeader? b i with
  | none => exact ⟨rfl, around (Nat.le_succ i) inside⟩
  | some h =>
    have below := within h found
    have later := (lt_typeHeader? found).1
    have opens := bodyBrace?_opens (typeHeader?_cases found).2.2
    obtain ⟨close, pair⟩ := resumes.closed opens
    have after := (Bracketed.close?_bounds pair).1
    have before := room (by omega) below pair
    simp only [resumes.close (lt_typeHeader? found).2, pair]
    refine ⟨trivial, ?_⟩
    split
    · exact (frames_add _ _).2 (around (by omega) before)
    · exact Enclosed.enter ⟨opens, pair⟩ (around (by omega) before)

theorem fileStep_enclosed {last : Nat} (bound : Fence b 0 last) (size : b.lexemes.size = last + 1)
    (outside : w.frames = []) :
    fileStep b' rules i l w = fileStep b rules i l w ∧
      Enclosed b (fileStep b rules i l w).1 (fileStep b rules i l w).1
        (fileStep b rules i l w).2.frames := by
  have inside := lt_size_of_getElem? here
  have le : i ≤ last := by omega
  have around {low' high' : Nat} (within : high' ≤ last + 1) : Enclosed b low' high' w.frames := by
    rw [outside, Enclosed, size]
    exact within
  unfold fileStep
  by_cases clause : l.isKeyword "package" && w.package.isNone
  · have keyword := (Bool.and_eq_true_iff.1 (Bool.and_eq_true_iff.1 clause).1).1
    have below := bound.lt_of_kind le here (by rw [eq_of_beq keyword]; decide)
    obtain ⟨name, within⟩ := bound.nameAt? resumes (show i + 1 ≤ last from below)
    rw [if_pos clause, if_pos clause, name]
    cases found : nameAt? b (i + 1) with
    | none => exact ⟨rfl, around (Nat.succ_le_succ le)⟩
    | some p =>
      have reach : p.2 ≤ last + 1 := by
        have := within p found
        omega
      exact ⟨rfl, around reach⟩
  rw [if_neg clause, if_neg clause]
  by_cases keyword : l.isTypeKeyword
  · rw [if_pos keyword, if_pos keyword]
    refine typeStep_enclosed resumes here bound (Nat.zero_le i) le keyword ?_ (Nat.lt_succ_of_le le)
      (fun _ => around)
    intro brace close _ below found
    have := bound.inside (Nat.zero_le brace) below found
    omega
  rw [if_neg keyword, if_neg keyword, bound.has_eq resumes (by omega)]
  refine ⟨rfl, ?_⟩
  split <;> exact around (by omega)

theorem memberStep_enclosed (inside : w.frames ≠ []) (enclosed : Enclosed b i i w.frames) :
    memberStep b' rules i l w = memberStep b rules i l w ∧
      Enclosed b (memberStep b rules i l w).1 (memberStep b rules i l w).1
        (memberStep b rules i l w).2.frames := by
  obtain ⟨f, frames, cons⟩ := List.exists_cons_of_ne_nil inside
  unfold memberStep
  by_cases closes : l.closes .curly
  · rw [if_pos closes, if_pos closes]
    refine ⟨rfl, ?_⟩
    simp only [Walk.leave, cons, frames_add]
    exact Enclosed.leave (cons ▸ enclosed)
  rw [if_neg closes, if_neg closes]
  obtain ⟨brace, close, body, above, le, rest⟩ := cons ▸ enclosed
  -- A step that stays in the innermost body leaves all the bodies as they are.
  have around {low' high' : Nat} (later : i ≤ low') (within : high' ≤ close) :
      Enclosed b low' high' w.frames := by
    rw [cons]
    exact ⟨brace, close, body, by omega, within, rest⟩
  have below := body.lt_of_other resumes le here (by simpa using closes)
  by_cases keyword : l.isTypeKeyword
  · rw [if_pos keyword, if_pos keyword]
    exact typeStep_enclosed resumes here (body.bound resumes) above le keyword
      (fun above' below' => body.close_lt resumes above' (Nat.le_of_lt below')) below around
  rw [if_neg keyword, if_neg keyword]
  by_cases equals : l.isOperator "="
  · obtain ⟨same, within⟩ := body.initializerEnd resumes (show i + 1 ≤ close from below) (by omega)
    rw [if_pos equals, if_pos equals, same]
    exact ⟨rfl, around (Nat.le_of_succ_le (le_initializerEnd (i + 1))) within⟩
  rw [if_neg equals, if_neg equals]
  by_cases sign : l.isSeparator "@"
  · obtain ⟨same, within⟩ := body.annotationEnd resumes below (Nat.le_of_lt above)
    rw [if_pos sign, if_pos sign, same]
    exact ⟨rfl, around (Nat.le_of_lt (lt_annotationEnd i)) within⟩
  rw [if_neg sign, if_neg sign]
  by_cases round : l.opens .round
  · obtain ⟨same, within⟩ := body.methodHeader? resumes le above
    rw [if_pos round, if_pos round, same]
    refine ⟨rfl, ?_⟩
    cases found : methodHeader? b i with
    | none => exact around (Nat.le_succ i) below
    | some header =>
      have later := (lt_methodHeader? found).1
      exact (frames_add _ _).2 (around (by simp only; omega) (within header found))
  rw [if_neg round, if_neg round, resumes.close (lt_size_of_getElem? here)]
  refine ⟨rfl, ?_⟩
  split
  · cases found : b.close? i with
    | none => exact around (Nat.le_succ i) below
    | some c =>
      have later := (Bracketed.close?_bounds found).1
      exact around (by simp only [Option.getD_some]; omega) (body.close_lt resumes above le found)
  · exact around (Nat.le_succ i) below

variable (rules) in
theorem step_enclosed {last : Nat} (bound : Fence b 0 last) (size : b.lexemes.size = last + 1)
    (enclosed : Enclosed b i i w.frames) :
    step b' rules i l w = step b rules i l w ∧
      Enclosed b (step b rules i l w).1 (step b rules i l w).1 (step b rules i l w).2.frames := by
  unfold step
  by_cases outside : w.frames.isEmpty
  · rw [if_pos outside, if_pos outside]
    exact fileStep_enclosed resumes here bound size (List.isEmpty_iff.1 outside)
  · rw [if_neg outside, if_neg outside]
    exact memberStep_enclosed resumes here (by simpa using outside) enclosed

end Step

variable (rules) in
theorem exists_leads_size (resumes : Resumes b b') {last : Nat} (bound : Fence b 0 last)
    (size : b.lexemes.size = last + 1) (enclosed : Enclosed b i i w.frames) :
    ∃ v, v.frames = [] ∧ Leads b rules i w b.lexemes.size v ∧
      Leads b' rules i w b.lexemes.size v := by
  induction left : b.lexemes.size - i using Nat.strongRecOn generalizing i w with
  | ind _ shorter =>
    rcases Nat.eq_or_lt_of_le enclosed.le_size with rfl | inside
    · refine ⟨w, ?_, .here, .here⟩
      cases frames : w.frames with
      | nil => rfl
      | cons f frames' =>
        obtain ⟨_, _, body, _, after, _⟩ := frames ▸ enclosed
        have := (Bracketed.close?_bounds body.pair).2
        omega
    · have here := Array.getElem?_eq_getElem inside
      have here' := (resumes.lexeme inside).trans here
      have later : i < (step b rules i b.lexemes[i] w).1 := lt_step_of_getElem? here
      obtain ⟨same, next⟩ := step_enclosed rules resumes here bound size enclosed
      obtain ⟨v, outside, leads, leads'⟩ := shorter _ (by omega) next rfl
      exact ⟨v, outside, .step here leads, .step here' (by rwa [same])⟩

def EndsWithin (size : Nat) (d : Sketch) : Prop := ∃ last ∈ d.place.last, last < size

theorem endsWithin_of_leads (resumes : Resumes b b') (leads : Leads b rules 0 {} i w) :
    w.Everywhere (EndsWithin b.lexemes.size) := by
  refine leads_keeps (P := fun _ w => w.Everywhere (EndsWithin b.lexemes.size)) ?_ leads
    ⟨trivial, by simp⟩
  intro i w next w' _ inside all move
  refine everywhere_move (fun d name ends => ends) ?_ ?_ ?_ all move
  · exact fun f _ members _ => ⟨i, rfl, inside⟩
  · intro header _ found
    obtain ⟨close, pair⟩ := resumes.closed (bodyBrace?_opens (typeHeader?_cases found).2.2)
    exact ⟨close, pair, (Bracketed.close?_bounds pair).2⟩
  · exact fun header _ _ found => ⟨header.last, rfl, (lt_methodHeader? found).2⟩

structure Complete (lexemes : List Lexeme) : Prop where
  nested : Bracket.Nested lexemes
  ends : ∃ last ∈ lexemes.getLast?, last.isSeparator ";" ∨ last.closes .curly

namespace Complete

variable {lexemes : List Lexeme} (complete : Complete lexemes)

include complete

theorem length_pos : 0 < lexemes.length := by
  obtain ⟨last, ends, _⟩ := complete.ends
  rw [List.length_pos_iff]
  rintro rfl
  cases ends

theorem fence : Fence (.ofLexemes lexemes) 0 (lexemes.length - 1) where
  mark := by
    obtain ⟨last, ends, mark⟩ := complete.ends
    have here : (Bracketed.ofLexemes lexemes).lexemes[lexemes.length - 1]? = some last := by
      simpa [Bracketed.ofLexemes, List.getLast?_eq_getElem?] using ends
    rw [Bracketed.has_eq here]
    exact Bool.or_eq_true_iff.2 mark
  inside _ _ found := by
    have inside := (Bracketed.close?_bounds found).2
    rw [Bracketed.ofLexemes, List.size_toArray] at inside
    exact Nat.le_sub_one_of_lt inside

theorem exists_leads (rules : Rules) (after : List Lexeme) : ∃ w, w.frames = [] ∧
    Leads (.ofLexemes lexemes) rules 0 {} lexemes.length w ∧
    Leads (.ofLexemes (lexemes ++ after)) rules 0 {} lexemes.length w ∧
    w.Everywhere (EndsWithin lexemes.length) := by
  have resumes := resumes_append complete.nested after
  have size : (Bracketed.ofLexemes lexemes).lexemes.size = lexemes.length := List.size_toArray
  have ends : lexemes.length = lexemes.length - 1 + 1 := by
    have := complete.length_pos
    omega
  obtain ⟨w, outside, leads, leads'⟩ := exists_leads_size rules (w := {}) resumes complete.fence
    (size.trans ends) (Nat.zero_le _)
  have all := endsWithin_of_leads resumes leads
  rw [size] at leads leads' all
  exact ⟨w, outside, leads, leads', all⟩

end Complete

end EditScope.Sketch

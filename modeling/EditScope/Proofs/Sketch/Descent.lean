import EditScope.Declaration.Descent
import EditScope.Proofs.Bracket.Tables
import EditScope.Proofs.Grammar.Walked
import EditScope.Proofs.Sketch.Shape

set_option autoImplicit false

namespace EditScope.Descent

open Sketch
open Grammar (addAll addAll_append addAll_of_cons addAll_of_nil)

variable {b : Bracketed} {i : Nat} {l : Lexeme}

section Checks

theorem previous_succ (here : b.lexemes[i]? = some l) : previous b (i + 1) = .ok l :=
  entry_of_getElem? here

theorem follows_eq (p : Lexeme → Bool) (le : i ≤ b.lexemes.size) :
    follows b p i = .ok (0 < i && b.has p (i - 1)) := by
  cases i with
  | zero => rfl
  | succ i =>
    have here := Array.getElem?_eq_getElem le
    rw [follows, if_neg (Nat.succ_ne_zero i), previous_succ here, Nat.add_sub_cancel,
      Bracketed.has_eq here]
    rfl

theorem follows_succ (p : Lexeme → Bool) (le : i < b.lexemes.size) :
    follows b p (i + 1) = .ok (b.has p i) := by
  rw [follows_eq p le]
  simp

end Checks

section Headers

theorem not_keyword {mark : String} (separator : l.isSeparator mark) (word : String) :
    l.isKeyword word = false := by
  simp [Lexeme.isKeyword, (Lexeme.isSeparator_iff.1 separator).1]

theorem methodEnd_of_none {bare throws : Bool} (outside : b.lexemes[i]? = none) :
    methodEnd b bare throws i = .ok none := by
  rw [methodEnd, dif_neg (by simpa using outside)]
  rfl

theorem methodEnd_of_some {bare throws : Bool} (here : b.lexemes[i]? = some l) :
    methodEnd b bare throws i =
      if l.opens .curly then do
        if (← previous b i).isOperator "->" then return none else return b.close? i
      else if l.isSeparator ";" then .ok (if bare then none else some i)
      else if l.closes .curly || l.isTypeKeyword then .ok none
      else if l.isSeparator "," && !throws then .ok none
      else if l.isOperator "->" && !b.has (·.opens .curly) (i + 1) then .ok none
      else if l.opens .round || l.opens .square then
        (b.close? i).elim (.ok none) fun close => methodEnd b bare throws (close + 1)
      else methodEnd b bare (throws || l.isKeyword "throws") (i + 1) := by
  obtain ⟨inside, rfl⟩ := Array.getElem?_eq_some_iff.1 here
  rw [methodEnd, dif_pos inside]
  dsimp only
  split
  · congr
    funext before
    split
    · rfl
    · split
      · simp [*]
      · rename_i close found
        rw [entry_of_lt (Bracketed.close?_bounds found).2, found]
        rfl
  split
  · rfl
  split
  · rfl
  split
  · rfl
  split
  · rfl
  split
  · rename_i opens
    have other : b.lexemes[i].isKeyword "throws" = false := by
      rcases Bool.or_eq_true_iff.1 opens with opens | opens <;> exact not_keyword opens "throws"
    rw [other, Bool.or_false]
    split <;> simp [*]
    rfl
  · rfl

theorem methodEnd_arrow {bare throws : Bool} (here : b.lexemes[i]? = some l)
    (arrow : l.isOperator "->") (brace : b.has (·.opens .curly) (i + 1)) :
    methodEnd b bare throws (i + 1) = .ok none := by
  obtain ⟨next, there, opens⟩ := (Option.any_eq_true _ _).1 brace
  rw [methodEnd_of_some there, if_pos opens, previous_succ here]
  simp only [bind, Except.bind, arrow]
  rfl

-- No arrow is passed, and so none stands before a brace that is come to.
theorem methodEnd_eq (sound : b.Sound) {bare throws : Bool} (inside : i < b.lexemes.size)
    (plain : b.has (·.isOperator "->") i = false) :
    methodEnd b bare throws (i + 1) = .ok (methodLast? b bare throws (i + 1)) := by
  induction left : b.lexemes.size - i using Nat.strongRecOn generalizing i throws with
  | ind _ shorter =>
    cases here : b.lexemes[i + 1]? with
    | none => rw [methodEnd_of_none here, methodLast?_of_none here]
    | some l =>
      have inside' := lt_size_of_getElem? here
      rw [methodEnd_of_some here, methodLast?_of_some here]
      by_cases opens : l.opens .curly
      · rw [Bracketed.has_eq (Array.getElem?_eq_getElem inside)] at plain
        rw [if_pos opens, if_pos opens, previous_succ (Array.getElem?_eq_getElem inside)]
        simp only [bind, Except.bind, plain]
        rfl
      rw [if_neg opens, if_neg opens]
      by_cases semicolon : l.isSeparator ";"
      · rw [if_pos semicolon, if_pos semicolon]
      rw [if_neg semicolon, if_neg semicolon]
      by_cases ends : (l.closes .curly || l.isTypeKeyword) = true
      · rw [if_pos ends, ends, Bool.true_or, if_pos rfl]
      rw [if_neg ends, Bool.eq_false_iff.2 ends, Bool.false_or]
      by_cases comma : (l.isSeparator "," && !throws) = true
      · rw [if_pos comma, if_pos comma, ite_self]
      rw [if_neg comma, if_neg comma]
      by_cases arrow : l.isOperator "->"
      · have opened := Lexeme.opened?_eq_none.1 (Lexeme.opened?_of_operator arrow)
        rw [if_pos arrow, arrow, Bool.true_and, opened .round, opened .square, Bool.false_or,
          if_neg Bool.false_ne_true]
        cases brace : b.has (·.opens .curly) (i + 2) with
        | false => rfl
        | true => exact methodEnd_arrow here arrow brace
      have arrow := Bool.eq_false_iff.2 arrow
      rw [arrow, Bool.false_and, if_neg Bool.false_ne_true, if_neg Bool.false_ne_true]
      split
      · cases found : b.close? (i + 1) with
        | none => rfl
        | some close =>
          have bounds := Bracketed.close?_bounds found
          obtain ⟨family, -, closes⟩ := sound.pair found
          exact shorter _ (by omega) bounds.2 (not_operator closes "->") rfl
      · exact shorter _ (by omega) inside' (by rw [Bracketed.has_eq here, arrow]) rfl

theorem isBare_succ (le : i ≤ b.lexemes.size) :
    isBare b (i + 1) = .ok (i == 0 || separates b (i - 1)) := by
  cases i with
  | zero => rfl
  | succ i =>
    rw [isBare, if_neg (by omega), Nat.add_sub_cancel, follows_succ _ le]
    rfl

theorem methodAttempt_eq (sound : b.Sound) (le : i ≤ b.lexemes.size) :
    methodAttempt b i = .ok ((methodHeader? b i).elim (pass i) fun header =>
      { next := header.last + 1
        found := some (.mk .method header.name ⟨i - 1, some header.last⟩ []) }) := by
  cases i with
  | zero => rfl
  | succ name =>
    have here : b.lexemes[name]? = some b.lexemes[name] := Array.getElem?_eq_getElem le
    rw [methodAttempt, follows_succ _ le, previous_succ here, Nat.add_sub_cancel,
      isBare_succ (Nat.le_of_succ_le le), follows_eq _ (Nat.le_of_succ_le le)]
    simp only [methodHeader?, here, bind, Except.bind, pure, Except.pure, Bracketed.has_eq here]
    cases found : b.close? (name + 1) with
    | none =>
      split
      · rfl
      · split <;> rfl
    | some close =>
      obtain ⟨family, -, closes⟩ := sound.pair found
      have ends (bare : Bool) : methodEnd b bare false (close + 1) =
          .ok (methodLast? b bare false (close + 1)) :=
        methodEnd_eq sound (Bracketed.close?_bounds found).2 (not_operator closes "->")
      simp only [ends]
      cases b.lexemes[name].isIdentifier with
      | false => rfl
      | true =>
        cases 0 < name && b.has (·.isSeparator ",") (name - 1) with
        | true => rfl
        | false =>
          cases methodLast? b (name == 0 || separates b (name - 1)) false (close + 1) <;> rfl

end Headers

section Ends

theorem has_lt {p : Lexeme → Bool} (here : b.has p i) : i < b.lexemes.size := by
  obtain ⟨l, here, -⟩ := (Option.any_eq_true _ _).1 here
  exact lt_size_of_getElem? here

theorem nameTail_le_size (le : i ≤ b.lexemes.size) (name : String) :
    (nameTail b i name).2 ≤ b.lexemes.size := by
  fun_induction nameTail b i name with
  | case1 i name dot part _ there _ _ ih => exact ih (lt_size_of_getElem? there)
  | _ => exact le

theorem nameAt?_le_size {name : String} {next : Nat} (found : nameAt? b i = some (name, next)) :
    next ≤ b.lexemes.size := by
  unfold nameAt? at found
  split at found
  · simp at found
  · rename_i head here
    have tail := nameTail_le_size (lt_size_of_getElem? here) head.text
    split at found <;> simp at found
    obtain ⟨_, rfl⟩ := found
    split
    · rename_i semicolon
      exact has_lt semicolon
    · exact tail

theorem annotationEnd_le_size (inside : i < b.lexemes.size) : annotationEnd b i ≤ b.lexemes.size := by
  unfold annotationEnd
  split
  · exact inside
  · split
    · exact inside
    · rename_i next found
      have le := nameAt?_le_size found
      split
      · cases close : b.close? next with
        | none => exact le
        | some c => exact (Bracketed.close?_bounds close).2
      · exact le

theorem initializerEnd_le_size (le : i ≤ b.lexemes.size) : initializerEnd b i ≤ b.lexemes.size := by
  fun_induction initializerEnd b i with
  | case3 i _ _ _ _ _ close _ bounds ih => exact ih bounds.2
  | case5 i inside _ _ _ _ ih => exact ih inside
  | _ => omega

end Ends

section Gains

def gain (w : Walk) (ds : List Sketch) (notes : List Note) : Walk :=
  { addAll w ds with notes := notes.reverse ++ w.notes }

variable {w : Walk}

theorem gain_of_cons {f : Frame} {frames : List Frame} (inside : w.frames = f :: frames)
    (ds : List Sketch) (notes : List Note) :
    gain w ds notes =
      { w with
        frames := { f with members := ds.reverse ++ f.members } :: frames
        notes := notes.reverse ++ w.notes } := by
  rw [gain, addAll_of_cons inside]

theorem frames_gain {f : Frame} {frames : List Frame} (inside : w.frames = f :: frames)
    (ds : List Sketch) (notes : List Note) :
    (gain w ds notes).frames = { f with members := ds.reverse ++ f.members } :: frames := by
  rw [gain_of_cons inside]

theorem gain_of_nil (outside : w.frames = []) (ds : List Sketch) (notes : List Note) :
    gain w ds notes =
      { w with types := ds.reverse ++ w.types, notes := notes.reverse ++ w.notes } := by
  rw [gain, addAll_of_nil outside]

theorem gain_nil (w : Walk) : gain w [] [] = w := rfl

theorem gain_gain (w : Walk) (ds more : List Sketch) (notes others : List Note) :
    gain (gain w ds notes) more others = gain w (ds ++ more) (notes ++ others) := by
  cases frames : w.frames with
  | nil =>
    rw [gain_of_nil frames, gain_of_nil frames, gain_of_nil (by exact frames)]
    simp
  | cons f frames' =>
    rw [gain_of_cons frames, gain_of_cons frames, gain_of_cons rfl]
    simp

theorem gain_add (w : Walk) (d : Sketch) (notes : List Note) :
    gain w [d] notes = (gain w [] notes).add d := by
  cases frames : w.frames with
  | nil => simp [gain_of_nil frames, Walk.add, frames]
  | cons f frames' => simp [gain_of_cons frames, Walk.add]

theorem leave_gain (policy : Overloads) (w : Walk) (name : String) (keyword start : Nat)
    (ds : List Sketch) (notes : List Note) (last : Option Nat) :
    (gain (w.enter ⟨name, keyword, start, []⟩) ds notes).leave policy last =
      gain w [.mk .type name ⟨keyword, last⟩ (policy.apply ds)] notes := by
  rw [gain_of_cons rfl]
  cases frames : w.frames with
  | nil =>
    rw [gain_of_nil frames]
    simp [Walk.leave, Walk.enter, Walk.add, frames]
  | cons f frames' =>
    rw [gain_of_cons frames]
    simp [Walk.leave, Walk.enter, Walk.add, frames]

theorem starts_leave (policy : Overloads) (w : Walk) (last : Option Nat) :
    (w.leave policy last).frames.map (·.start) = (w.frames.map (·.start)).tail := by
  obtain ⟨package, types, frames, notes⟩ := w
  rcases frames with _ | ⟨f, _ | ⟨g, frames⟩⟩ <;> rfl

theorem finish_of_cons {f : Frame} {frames : List Frame} (inside : w.frames = f :: frames)
    (policy : Overloads) :
    w.finish policy = ((w.note (.unclosed f.start)).leave policy none).finish policy := by
  have starts (v : Walk) (frames : List Frame) :
      frames.foldl (fun w f => (w.note (.unclosed f.start)).leave policy none) v =
        (frames.map (·.start)).foldl (fun w s => (w.note (.unclosed s)).leave policy none) v := by
    rw [List.foldl_map]
  have tail := starts_leave policy (w.note (.unclosed f.start)) none
  rw [show (w.note (.unclosed f.start)).frames = f :: frames from inside] at tail
  rw [Walk.finish, Walk.finish, inside, List.foldl_cons, starts, starts, tail]
  rfl

end Gains

variable (b) (rules : Rules)

structure Attempt.Read (depth i : Nat) (take : Walk → Nat × Walk) (a : Attempt) : Prop where
  later : i < a.next
  inside : a.next ≤ b.lexemes.size + 1
  walks : ∀ w, w.frames.length = depth →
    walk b rules (take w).1 (take w).2 = walk b rules a.next (gain w a.found.toList a.notes)

/-- The way of a walk from `i` on until it leaves the body that it stands in. -/
structure Body.Read (depth start i : Nat) (body : Body) : Prop where
  stops : body.close = b.lexemes.size ∨ i ≤ body.close ∧ b.has (·.closes .curly) body.close
  walks : ∀ {w f frames}, w.frames = f :: frames → w.frames.length = depth → f.start = start →
    walk b rules i w = walk b rules (body.close + 1)
      ((gain w body.members body.notes).leave rules.overloads
        (if body.close < b.lexemes.size then some body.close else none))

variable {b rules} {depth start : Nat}

theorem Attempt.read_of_skip {next : Nat} {take : Walk → Nat × Walk} (later : i < next)
    (inside : next ≤ b.lexemes.size + 1) (takes : ∀ w, take w = (next, w)) :
    ({ next } : Attempt).Read b rules depth i take where
  later := later
  inside := inside
  walks w _ := by rw [takes]; rfl

theorem Body.Read.close_le {body : Body} (read : body.Read b rules depth start i) :
    body.close ≤ b.lexemes.size := by
  rcases read.stops with ends | ⟨-, close⟩
  · exact Nat.le_of_eq ends
  · exact Nat.le_of_lt (has_lt close)

theorem typeAttempt_eq (inside : i < b.lexemes.size) :
    typeAttempt b rules depth i =
      match typeHeader? b i with
      | none => .ok (pass i)
      | some header =>
        if rules.limit.any (· ≤ depth) then .ok
          { next := (b.close? header.brace).elim b.lexemes.size (· + 1)
            found := some (.mk .type header.name ⟨i, b.close? header.brace⟩ [])
            notes := [.nestedTooDeep i header.name] }
        else do
          let body ← members b rules (depth + 1) (header.brace + 1) (header.brace + 1)
          return {
            next := body.close + 1
            found := some (.mk .type header.name
              ⟨i, if body.close < b.lexemes.size then some body.close else none⟩
              (rules.overloads.apply body.members))
            notes := body.notes } := by
  rw [typeAttempt, typeHeader?]
  cases b.lexemes[i + 1]? with
  | none => rfl
  | some name =>
    dsimp only
    rw [follows_eq _ (Nat.le_of_lt inside)]
    cases name.isIdentifier with
    | false => rfl
    | true =>
      cases 0 < i && b.has (·.isSeparator ".") (i - 1) with
      | true => rfl
      | false =>
        simp only [bind, Except.bind, pure, Except.pure, Bool.not_true, Bool.not_false,
          Bool.and_true, Bool.false_eq_true, if_false, if_true]
        split
        · rename_i none
          rw [none]
          rfl
        · rename_i brace found
          rw [found, entry_of_lt inside]
          dsimp only [Option.map]
          split
          · split
            · rename_i none
              rw [none]
              rfl
            · rename_i close found
              rw [found, entry_of_lt (Bracketed.close?_bounds found).2]
              rfl
          · rfl

theorem exists_typeAttempt (inside : i < b.lexemes.size)
    (bodies : ∀ j, i < j → ∀ depth, ∃ body,
      members b rules depth j j = .ok body ∧ body.Read b rules depth j j) (depth : Nat) :
    ∃ a, typeAttempt b rules depth i = .ok a ∧ a.Read b rules depth i (typeStep b rules i) := by
  rw [typeAttempt_eq inside]
  cases found : typeHeader? b i with
  | none =>
    exact ⟨_, rfl, Attempt.read_of_skip (Nat.lt_succ_self i) (Nat.le_succ_of_le inside)
      fun w => by rw [typeStep, found]⟩
  | some header =>
    have bounds := lt_typeHeader? found
    by_cases deep : rules.limit.any (· ≤ depth) = true
    · refine ⟨_, if_pos deep, ?_, ?_, fun w depth' => ?_⟩
      · cases close : b.close? header.brace with
        | none => exact inside
        | some c =>
          have := Bracketed.close?_bounds close
          exact Nat.lt_succ_of_lt (by omega)
      · cases close : b.close? header.brace with
        | none => exact Nat.le_succ _
        | some c => exact Nat.succ_le_succ (Nat.le_of_lt (Bracketed.close?_bounds close).2)
      · simp only [typeStep, found, depth', if_pos deep, Option.toList_some, gain_add]
        cases b.close? header.brace <;> rfl
    · obtain ⟨body, inner, read⟩ := bodies (header.brace + 1) (by omega) (depth + 1)
      dsimp only
      rw [if_neg deep, inner]
      refine ⟨_, rfl, ?_, Nat.succ_le_succ read.close_le, fun w depth' => ?_⟩
      · rcases read.stops with ends | ⟨le, -⟩
        · exact Nat.lt_succ_of_lt (ends ▸ inside)
        · exact Nat.lt_succ_of_lt (by omega)
      · have entered : typeStep b rules i w =
            (header.brace + 1, w.enter ⟨header.name, i, header.brace + 1, []⟩) := by
          simp only [typeStep, found, depth', if_neg deep]
        rw [entered, read.walks rfl (by rw [← depth']; rfl) rfl, leave_gain]
        rfl

theorem exists_memberAttempt (sound : b.Sound) (here : b.lexemes[i]? = some l)
    (other : l.closes .curly = false)
    (bodies : ∀ j, i < j → ∀ depth, ∃ body,
      members b rules depth j j = .ok body ∧ body.Read b rules depth j j) (depth : Nat) :
    ∃ a, memberAttempt b rules depth i l = .ok a ∧ a.Read b rules depth i (memberStep b rules i l) := by
  have inside := lt_size_of_getElem? here
  rw [memberAttempt]
  split
  · rename_i keyword
    have same : memberStep b rules i l = typeStep b rules i := by
      funext w
      simp [memberStep, other, keyword]
    rw [same]
    exact exists_typeAttempt inside bodies depth
  split
  · exact ⟨_, rfl, Attempt.read_of_skip (le_initializerEnd (i + 1))
      (Nat.le_succ_of_le (initializerEnd_le_size inside)) fun w => by simp [memberStep, *]⟩
  split
  · exact ⟨_, rfl, Attempt.read_of_skip (lt_annotationEnd i)
      (Nat.le_succ_of_le (annotationEnd_le_size inside)) fun w => by simp [memberStep, *]⟩
  split
  · refine ⟨_, methodAttempt_eq sound (Nat.le_of_lt inside), ?_⟩
    cases found : methodHeader? b i with
    | none =>
      exact Attempt.read_of_skip (Nat.lt_succ_self i) (Nat.le_succ_of_le inside)
        fun w => by simp [memberStep, *]
    | some header =>
      have bounds := lt_methodHeader? found
      refine ⟨Nat.lt_succ_of_lt bounds.1, Nat.le_succ_of_le bounds.2, fun w _ => ?_⟩
      have step : memberStep b rules i l w = (header.last + 1,
          w.add (.mk .method header.name ⟨i - 1, some header.last⟩ [])) := by
        simp [memberStep, *]
      rw [step, Option.elim_some, Option.toList_some, gain_add, gain_nil]
  split
  · cases close : b.close? i with
    | none =>
      exact ⟨_, rfl, Attempt.read_of_skip (Nat.lt_succ_self i) (Nat.le_succ_of_le inside)
        fun w => by simp [memberStep, *]⟩
    | some c =>
      have bounds := Bracketed.close?_bounds close
      exact ⟨_, rfl, Attempt.read_of_skip (Nat.lt_succ_of_lt bounds.1) (Nat.le_succ_of_le bounds.2)
        fun w => by simp [memberStep, *]⟩
  · exact ⟨_, rfl, Attempt.read_of_skip (Nat.lt_succ_self i) (Nat.le_succ_of_le inside)
      fun w => by simp [memberStep, *]⟩

theorem exists_members_of_some (sound : b.Sound) (here : b.lexemes[i]? = some l)
    (bodies : ∀ j, i < j → ∀ depth start, ∃ body,
      members b rules depth start j = .ok body ∧ body.Read b rules depth start j)
    (depth start : Nat) :
    ∃ body, members b rules depth start i = .ok body ∧ body.Read b rules depth start i := by
  have inside := lt_size_of_getElem? here
  rw [members, dif_pos inside, (Array.getElem?_eq_some_iff.1 here).2]
  dsimp only
  by_cases close : l.closes .curly
  · refine ⟨_, if_pos close, .inr ⟨Nat.le_refl i, ?_⟩, fun {w f frames} inner _ _ => ?_⟩
    · rw [Bracketed.has_eq here]
      exact close
    · have left : step b rules i l w = (i + 1, w.leave rules.overloads (some i)) := by
        simp [step, memberStep, inner, close]
      rw [walk_of_getElem? here, left, gain_nil, if_pos inside]
  · obtain ⟨a, ok, read⟩ := exists_memberAttempt sound here (Bool.eq_false_iff.2 close)
      (fun j later depth => bodies j later depth j) depth
    obtain ⟨rest, restOk, restRead⟩ := bodies a.next read.later depth start
    rw [if_neg close, ok]
    simp only [bind, Except.bind, dif_pos read.later, restOk]
    refine ⟨_, rfl, ?_, fun {w f frames} inner depth' first => ?_⟩
    · exact restRead.stops.imp_right (.imp_left (Nat.le_trans (Nat.le_of_lt read.later)))
    · have step : step b rules i l w = memberStep b rules i l w := by
        simp [Sketch.step, inner]
      have gained := frames_gain inner a.found.toList a.notes
      rw [walk_of_getElem? here, step, read.walks w depth', ← gain_gain]
      exact restRead.walks gained (by rw [gained, ← depth', inner]; rfl) first

-- On what is left of the source: a type needs its body, a body what stands behind each attempt.
theorem exists_members (sound : b.Sound) (depth start i : Nat) :
    ∃ body, members b rules depth start i = .ok body ∧ body.Read b rules depth start i := by
  induction left : b.lexemes.size - i using Nat.strongRecOn generalizing depth start i with
  | ind _ shorter =>
    cases here : b.lexemes[i]? with
    | none =>
      have outside : b.lexemes.size ≤ i := by simpa using here
      rw [members, dif_neg (by omega)]
      refine ⟨_, rfl, .inl rfl, fun {w f frames} inner _ first => ?_⟩
      rw [walk_of_size_le outside, walk_of_size_le (Nat.le_succ _), finish_of_cons inner, first,
        if_neg (Nat.lt_irrefl _)]
      rfl
    | some l =>
      have inside := lt_size_of_getElem? here
      exact exists_members_of_some sound here
        (fun j later depth start => shorter _ (by omega) depth start j rfl) depth start

theorem exists_typeAttempt_of_sound (sound : b.Sound) (rules : Rules) (inside : i < b.lexemes.size)
    (depth : Nat) :
    ∃ a, typeAttempt b rules depth i = .ok a ∧ a.Read b rules depth i (typeStep b rules i) :=
  exists_typeAttempt inside (fun j _ depth => exists_members sound depth j j) depth

theorem isStray_eq (le : i ≤ b.lexemes.size) :
    isStray b i l = .ok (l.opens .round && 0 < i && b.has Lexeme.isIdentifier (i - 1)) := by
  rw [isStray, follows_eq _ le]
  cases l.opens .round with
  | false => rfl
  | true => simp

variable (b rules) in
def Reads (package : Option String) (i : Nat) (file : SketchedFile) : Prop :=
  ∀ w : Walk, w.frames = [] → w.package = package →
    walk b rules i w = gain { w with package := file.package } file.types file.notes

section Files

variable {package : Option String} {file : SketchedFile}

theorem Reads.of_attempt {a : Attempt} (here : b.lexemes[i]? = some l)
    (steps : ∀ w : Walk, w.frames = [] → w.package = package →
      step b rules i l w = typeStep b rules i w)
    (read : a.Read b rules 0 i (typeStep b rules i)) (rest : Reads b rules package a.next file) :
    Reads b rules package i
      { file with types := a.found.toList ++ file.types, notes := a.notes ++ file.notes } := by
  intro w outside named
  have gained := gain_of_nil outside a.found.toList a.notes
  rw [walk_of_getElem? here, steps w outside named, read.walks w (by rw [outside]; rfl),
    rest _ (by rw [gained]; exact outside) (by rw [gained]; exact named), gained,
    gain_of_nil (by exact outside), gain_of_nil (by exact outside)]
  simp

theorem Reads.of_skip {next : Nat} {named : Option String} (here : b.lexemes[i]? = some l)
    (steps : ∀ w : Walk, w.frames = [] → w.package = package →
      step b rules i l w = (next, { w with package := named }))
    (rest : Reads b rules named next file) : Reads b rules package i file := by
  intro w outside before
  rw [walk_of_getElem? here, steps w outside before]
  exact rest _ outside rfl

theorem Reads.of_note {next : Nat} {n : Note} (here : b.lexemes[i]? = some l)
    (steps : ∀ w : Walk, w.frames = [] → w.package = package →
      step b rules i l w = (next, w.note n))
    (rest : Reads b rules package next file) :
    Reads b rules package i { file with notes := n :: file.notes } := by
  intro w outside named
  rw [walk_of_getElem? here, steps w outside named, rest _ (by exact outside) (by exact named),
    gain_of_nil (by exact outside), gain_of_nil (by exact outside)]
  simp [Walk.note]

end Files

theorem exists_fileFrom_of_some (sound : b.Sound) (here : b.lexemes[i]? = some l)
    (files : ∀ package j, i < j → ∃ file,
      fileFrom b rules package j = .ok file ∧ Reads b rules package j file)
    (package : Option String) :
    ∃ file, fileFrom b rules package i = .ok file ∧ Reads b rules package i file := by
  have inside := lt_size_of_getElem? here
  have outer {w : Walk} (outside : w.frames = []) :
      step b rules i l w = fileStep b rules i l w := by
    simp [step, outside]
  rw [fileFrom, dif_pos inside, (Array.getElem?_eq_some_iff.1 here).2]
  dsimp only
  -- A clause behind the first one is read as plain lexemes, and so falls to the other cases.
  by_cases clause : (l.isKeyword "package" && package.isNone) = true
  · rw [if_pos clause]
    cases found : nameAt? b (i + 1) with
    | none =>
      obtain ⟨file, ok, rest⟩ := files none (i + 1) (Nat.lt_succ_self i)
      refine ⟨file, ok, rest.of_skip here fun w outside named => ?_⟩
      have none : package = none := by simpa using (Bool.and_eq_true_iff.1 clause).2
      rw [outer outside, fileStep, named, if_pos clause, found, ← none, ← named]
    | some clauseEnd =>
      obtain ⟨name, after⟩ := clauseEnd
      have later : i < after := Nat.lt_of_succ_lt (lt_nameAt? found)
      obtain ⟨file, ok, rest⟩ := files (some name) after later
      dsimp only
      rw [dif_pos later]
      refine ⟨file, ok, rest.of_skip here fun w outside named => ?_⟩
      rw [outer outside, fileStep, named, if_pos clause, found]
  rw [if_neg clause]
  by_cases keyword : l.isTypeKeyword
  · obtain ⟨a, ok, read⟩ := exists_typeAttempt_of_sound sound rules inside 0
    obtain ⟨file, restOk, rest⟩ := files package a.next read.later
    rw [if_pos keyword, ok]
    simp only [bind, Except.bind, dif_pos read.later, restOk]
    refine ⟨_, rfl, rest.of_attempt here (fun w outside named => ?_) read⟩
    rw [outer outside, fileStep, named, if_neg clause, if_pos keyword]
  · obtain ⟨file, restOk, rest⟩ := files package (i + 1) (Nat.lt_succ_self i)
    rw [if_neg keyword, isStray_eq (Nat.le_of_lt inside)]
    simp only [bind, Except.bind, restOk]
    cases stray : l.opens .round && 0 < i && b.has Lexeme.isIdentifier (i - 1) with
    | false =>
      refine ⟨file, rfl, rest.of_skip here fun w outside named => ?_⟩
      rw [outer outside, fileStep, named, if_neg clause, if_neg keyword, stray, ← named]
      rfl
    | true =>
      refine ⟨_, rfl, rest.of_note here fun w outside named => ?_⟩
      rw [outer outside, fileStep, named, if_neg clause, if_neg keyword, stray]
      rfl

theorem exists_fileFrom (sound : b.Sound) (rules : Rules) (package : Option String) (i : Nat) :
    ∃ file, fileFrom b rules package i = .ok file ∧ Reads b rules package i file := by
  induction left : b.lexemes.size - i using Nat.strongRecOn generalizing package i with
  | ind _ shorter =>
    cases here : b.lexemes[i]? with
    | none =>
      have outside : b.lexemes.size ≤ i := by simpa using here
      rw [fileFrom, dif_neg (by omega)]
      refine ⟨_, rfl, fun w bare named => ?_⟩
      rw [walk_of_size_le outside, Walk.finish_of_nil bare, gain_nil, ← named]
    | some l =>
      have inside := lt_size_of_getElem? here
      exact exists_fileFrom_of_some sound here
        (fun package j later => shorter _ (by omega) package j rfl) package

theorem fileFrom_eq (rules : Rules) (lexemes : List Lexeme) :
    fileFrom (.ofLexemes lexemes) rules none 0 = .ok (SketchedFile.ofLexemes rules lexemes) := by
  obtain ⟨file, ok, reads⟩ :=
    exists_fileFrom (Bracketed.ofLexemes_sound lexemes) rules none 0
  rw [ok, SketchedFile.ofLexemes, reads {} rfl rfl, gain_of_nil rfl]
  simp

def Progresses (lexemes : List Lexeme) (i next : Nat) : Prop := i < next ∧ next ≤ lexemes.length + 1

theorem progresses_of_le {lexemes : List Lexeme} {next : Nat} (later : i < next)
    (le : next ≤ lexemes.length) : Progresses lexemes i next :=
  ⟨later, Nat.le_succ_of_le le⟩

theorem methodAttempt_progresses {lexemes : List Lexeme} (inside : i < lexemes.length) :
    ∃ a, methodAttempt (.ofLexemes lexemes) i = .ok a ∧ Progresses lexemes i a.next := by
  have sound := Bracketed.ofLexemes_sound lexemes
  refine ⟨_, methodAttempt_eq sound (Nat.le_of_lt inside), ?_⟩
  cases found : methodHeader? (.ofLexemes lexemes) i with
  | none => exact progresses_of_le (Nat.lt_succ_self i) inside
  | some header =>
    have bounds := lt_methodHeader? found
    exact progresses_of_le (Nat.lt_succ_of_lt bounds.1) bounds.2

theorem scanner_progresses (rules : Rules) (lexemes : List Lexeme) :
    let b := Bracketed.ofLexemes lexemes
    (∃ t, Bracket.tables lexemes = .ok t ∧ ∀ i, t.close i = .ok (b.close? i)) ∧
    (∀ i close, b.close? i = some close → i < close ∧ close < lexemes.length ∧
      ∃ family, b.has (·.opens family) i ∧ b.has (·.closes family) close) ∧
    (∀ i < lexemes.length,
      (∀ depth, ∃ a, typeAttempt b rules depth i = .ok a ∧ Progresses lexemes i a.next) ∧
      (∃ a, methodAttempt b i = .ok a ∧ Progresses lexemes i a.next) ∧
      Progresses lexemes i (annotationEnd b i) ∧
      Progresses lexemes i (initializerEnd b (i + 1))) ∧
    (∀ depth start, ∃ body, members b rules depth start start = .ok body ∧
      (body.close = lexemes.length ∨
        start ≤ body.close ∧ b.has (·.closes .curly) body.close)) ∧
    fileFrom b rules none 0 = .ok (SketchedFile.ofLexemes rules lexemes) := by
  intro b
  have sound : b.Sound := Bracketed.ofLexemes_sound lexemes
  refine ⟨Bracket.tables_close lexemes, fun i close found => ?_, fun i inside => ⟨fun depth => ?_,
    methodAttempt_progresses inside, ?_, ?_⟩, fun depth start => ?_, fileFrom_eq rules lexemes⟩
  · have bounds := Bracketed.close?_bounds found
    exact ⟨bounds.1, bounds.2, sound.pair found⟩
  · obtain ⟨a, ok, read⟩ := exists_typeAttempt_of_sound sound rules inside depth
    exact ⟨a, ok, read.later, read.inside⟩
  · exact progresses_of_le (lt_annotationEnd i) (annotationEnd_le_size inside)
  · exact progresses_of_le (le_initializerEnd (i + 1)) (initializerEnd_le_size inside)
  · obtain ⟨body, ok, read⟩ : ∃ body, members b rules depth start start = .ok body ∧
        body.Read b rules depth start start := exists_members sound depth start start
    exact ⟨body, ok, read.stops⟩

end EditScope.Descent

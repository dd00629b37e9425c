import EditScope.Declaration.Sketch

set_option autoImplicit false

namespace EditScope.Sketch

variable (b : Bracketed) (rules : Rules)

inductive Move (i : Nat) (w : Walk) : Nat → Walk → Prop where
  | pass {next : Nat} {w' : Walk} (later : i < next) (types : w'.types = w.types)
      (frames : w'.frames = w.frames) : Move i w next w'
  | leave {f : Frame} {frames : List Frame} (inside : w.frames = f :: frames)
      (close : b.has (·.closes .curly) i) :
      Move i w (i + 1) (w.leave rules.overloads (some i))
  | enter {header : TypeHeader} (keyword : b.has Lexeme.isTypeKeyword i)
      (found : typeHeader? b i = some header)
      (shallow : rules.limit.any (· ≤ w.frames.length) = false) :
      Move i w (header.brace + 1) (w.enter ⟨header.name, i, header.brace + 1, []⟩)
  | prune {header : TypeHeader} (keyword : b.has Lexeme.isTypeKeyword i)
      (found : typeHeader? b i = some header)
      (deep : rules.limit.any (· ≤ w.frames.length) = true) :
      Move i w ((b.close? header.brace).elim b.lexemes.size (· + 1))
        ((w.note (.nestedTooDeep i header.name)).add
          (.mk .type header.name ⟨i, b.close? header.brace⟩ []))
  | method {header : MethodHeader} (inside : w.frames ≠ []) (opens : b.has (·.opens .round) i)
      (found : methodHeader? b i = some header) :
      Move i w (header.last + 1) (w.add (.mk .method header.name ⟨i - 1, some header.last⟩ []))

variable {b rules} {i : Nat} {w : Walk}

theorem typeStep_move (keyword : b.has Lexeme.isTypeKeyword i) :
    Move b rules i w (typeStep b rules i w).1 (typeStep b rules i w).2 := by
  unfold typeStep
  split
  · exact .pass (Nat.lt_succ_self i) rfl rfl
  · rename_i header found
    by_cases deep : rules.limit.any (· ≤ w.frames.length) = true
    · have move := Move.prune (w := w) keyword found deep
      rw [if_pos deep]
      cases close : b.close? header.brace <;> simpa [close] using move
    · rw [if_neg deep]
      exact .enter keyword found (by simpa using deep)

theorem fileStep_move {l : Lexeme} (here : b.lexemes[i]? = some l) :
    Move b rules i w (fileStep b rules i l w).1 (fileStep b rules i l w).2 := by
  unfold fileStep
  split
  · split
    · rename_i found
      have := lt_nameAt? found
      exact .pass (by simp only; omega) rfl rfl
    · exact .pass (Nat.lt_succ_self i) rfl rfl
  · split
    · rename_i keyword
      exact typeStep_move (by simp [Bracketed.has, here, keyword])
    · split <;> exact .pass (Nat.lt_succ_self i) rfl rfl

theorem memberStep_move {l : Lexeme} (here : b.lexemes[i]? = some l) (inside : w.frames ≠ []) :
    Move b rules i w (memberStep b rules i l w).1 (memberStep b rules i l w).2 := by
  unfold memberStep
  split
  · rename_i close
    obtain ⟨f, frames, cons⟩ := List.exists_cons_of_ne_nil inside
    exact .leave cons (by simpa [Bracketed.has, here] using close)
  split
  · rename_i keyword
    exact typeStep_move (by simp [Bracketed.has, here, keyword])
  split
  · exact .pass (le_initializerEnd (i + 1)) rfl rfl
  split
  · exact .pass (lt_annotationEnd i) rfl rfl
  split
  · rename_i opens
    split
    · rename_i found
      exact .method inside (by simpa [Bracketed.has, here] using opens) found
    · exact .pass (Nat.lt_succ_self i) rfl rfl
  split
  · cases close : b.close? i with
    | none => exact .pass (by simp) rfl rfl
    | some c =>
      have := Bracketed.close?_bounds close
      exact .pass (by simp; omega) rfl rfl
  · exact .pass (Nat.lt_succ_self i) rfl rfl

theorem step_move {l : Lexeme} (here : b.lexemes[i]? = some l) :
    Move b rules i w (step b rules i l w).1 (step b rules i l w).2 := by
  unfold step
  split
  · exact fileStep_move here
  · rename_i inside
    exact memberStep_move here (by simpa using inside)

variable (b rules)

inductive Leads : Nat → Walk → Nat → Walk → Prop where
  | here {i : Nat} {w : Walk} : Leads i w i w
  | step {i j : Nat} {w v : Walk} {l : Lexeme} (here : b.lexemes[i]? = some l)
      (rest : Leads (Sketch.step b rules i l w).1 (Sketch.step b rules i l w).2 j v) : Leads i w j v

variable {b rules} {j k : Nat} {v u : Walk}

theorem lt_size_of_getElem? {l : Lexeme} (here : b.lexemes[i]? = some l) : i < b.lexemes.size :=
  (Array.getElem?_eq_some_iff.1 here).1

theorem lt_step_of_getElem? {l : Lexeme} (here : b.lexemes[i]? = some l) :
    i < (step b rules i l w).1 :=
  lt_step rules i l w (lt_size_of_getElem? here)

theorem walk_of_getElem? {l : Lexeme} (here : b.lexemes[i]? = some l) :
    walk b rules i w = walk b rules (step b rules i l w).1 (step b rules i l w).2 := by
  obtain ⟨inside, rfl⟩ := Array.getElem?_eq_some_iff.1 here
  rw [walk, dif_pos inside]

theorem walk_of_size_le (outside : b.lexemes.size ≤ i) :
    walk b rules i w = w.finish rules.overloads := by
  rw [walk, dif_neg (by omega)]

theorem walk_eq_of_leads (leads : Leads b rules i w j v) : walk b rules i w = walk b rules j v := by
  induction leads with
  | here => rfl
  | step here _ ih => rw [walk_of_getElem? here, ih]

theorem leads_le (leads : Leads b rules i w j v) : i ≤ j := by
  induction leads with
  | here => exact Nat.le_refl _
  | step here _ ih => exact Nat.le_trans (Nat.le_of_lt (lt_step_of_getElem? here)) ih

theorem Leads.trans (first : Leads b rules i w j v) (second : Leads b rules j v k u) :
    Leads b rules i w k u := by
  induction first with
  | here => exact second
  | step here _ ih => exact .step here (ih second)

theorem leads_linear (first : Leads b rules i w j v) (second : Leads b rules i w k u) :
    Leads b rules j v k u ∨ Leads b rules k u j v := by
  induction first with
  | here => exact .inl second
  | step here rest ih =>
    cases second with
    | here => exact .inr (.step here rest)
    | step here' rest' =>
      cases Option.some.inj (here.symm.trans here')
      exact ih rest'

theorem leads_keeps {P : Nat → Walk → Prop}
    (keeps : ∀ {i' w' next w''}, Leads b rules i w i' w' → i' < b.lexemes.size → P i' w' →
      Move b rules i' w' next w'' → P next w'')
    (leads : Leads b rules i w j v) (start : P i w) : P j v := by
  -- The induction is on the rest of the way; what was visited before it is carried along.
  have onwards {i' w' j' v'} (rest : Leads b rules i' w' j' v')
      (visited : Leads b rules i w i' w') (here : P i' w') : P j' v' := by
    induction rest with
    | here => exact here
    | step lexeme _ ih =>
      exact ih (visited.trans (.step lexeme .here))
        (keeps visited (lt_size_of_getElem? lexeme) here (step_move lexeme))
  exact onwards leads .here start

theorem exists_leads_until {R D : Nat → Walk → Prop}
    (steps : ∀ {i w l}, b.lexemes[i]? = some l → R i w →
      D i w ∨ R (step b rules i l w).1 (step b rules i l w).2)
    (ends : ∀ {i w}, b.lexemes.size ≤ i → R i w → D i w) (start : R i w) :
    ∃ j v, Leads b rules i w j v ∧ R j v ∧ D j v := by
  induction left : b.lexemes.size - i using Nat.strongRecOn generalizing i w with
  | ind _ shorter =>
    cases here : b.lexemes[i]? with
    | none => exact ⟨i, w, .here, start, ends (by simpa using here) start⟩
    | some l =>
      rcases steps here start with done | next
      · exact ⟨i, w, .here, start, done⟩
      · have inside := lt_size_of_getElem? here
        have later : i < (step b rules i l w).1 := lt_step_of_getElem? here
        obtain ⟨j, v, leads, there⟩ := shorter _ (by omega) next rfl
        exact ⟨j, v, .step here leads, there⟩

variable (b rules) in
theorem exists_leads_end (i : Nat) (w : Walk) :
    ∃ j v, Leads b rules i w j v ∧ b.lexemes.size ≤ j := by
  obtain ⟨j, v, leads, _, done⟩ := exists_leads_until (b := b) (R := fun _ _ => True)
    (D := fun j _ => b.lexemes.size ≤ j) (fun _ _ => .inr trivial) (fun ends _ => ends)
    (i := i) (w := w) trivial
  exact ⟨j, v, leads, done⟩

theorem walk_keeps {P : Nat → Walk → Prop}
    (keeps : ∀ {i' w' next w''}, Leads b rules i w i' w' → i' < b.lexemes.size → P i' w' →
      Move b rules i' w' next w'' → P next w'')
    (start : P i w) :
    ∃ j v, P j v ∧ b.lexemes.size ≤ j ∧ walk b rules i w = v.finish rules.overloads := by
  obtain ⟨j, v, leads, done⟩ := exists_leads_end b rules i w
  exact ⟨j, v, leads_keeps keeps leads start, done,
    (walk_eq_of_leads leads).trans (walk_of_size_le done)⟩

-- Of two walks one may need several steps for a step of the other.
theorem walk_simulates {rules' : Rules} {R : Nat → Walk → Walk → Prop} {P : Walk → Walk → Prop}
    (steps : ∀ {i w v l}, b.lexemes[i]? = some l → R i w v → ∃ w',
      Leads b rules i w (step b rules' i l v).1 w' ∧
        R (step b rules' i l v).1 w' (step b rules' i l v).2)
    (ends : ∀ {i w v}, b.lexemes.size ≤ i → R i w v →
      P (w.finish rules.overloads) (v.finish rules'.overloads))
    (start : R i w v) : P (walk b rules i w) (walk b rules' i v) := by
  induction left : b.lexemes.size - i using Nat.strongRecOn generalizing i w v with
  | ind _ shorter =>
    cases here : b.lexemes[i]? with
    | none =>
      have done : b.lexemes.size ≤ i := by simpa using here
      rw [walk_of_size_le done, walk_of_size_le done]
      exact ends done start
    | some l =>
      have inside := lt_size_of_getElem? here
      have later : i < (step b rules' i l v).1 := lt_step_of_getElem? here
      obtain ⟨w', leads, next⟩ := steps here start
      rw [walk_of_getElem? (w := v) here, walk_eq_of_leads leads]
      exact shorter _ (by omega) next rfl

namespace Walk

variable {policy : Overloads}

theorem leave_of_nil (none : w.frames = []) (last : Option Nat) : w.leave policy last = w := by
  simp only [leave, none]

theorem finish_of_nil (outside : w.frames = []) : w.finish policy = w := by
  rw [Walk.finish, outside, List.foldl_nil]

theorem frames_leave (w : Walk) (last : Option Nat) :
    (w.leave policy last).frames.length = w.frames.length - 1 := by
  obtain ⟨package, types, frames, notes⟩ := w
  rcases frames with _ | ⟨f, _ | ⟨g, frames⟩⟩ <;> rfl

-- The frames that are folded over only lend their starts to the notes; the walk holds its own.
theorem finish_keeps {P : Walk → Prop}
    (keeps : ∀ {w} start, P w → P ((w.note (.unclosed start)).leave policy none)) (start : P w) :
    P (w.finish policy) := by
  have fold (frames : List Frame) (w : Walk) (here : P w) :
      P (frames.foldl (fun w f => (w.note (.unclosed f.start)).leave policy none) w) := by
    induction frames generalizing w with
    | nil => exact here
    | cons f frames ih => exact ih _ (keeps f.start here)
  exact fold w.frames w start

theorem frames_finish (policy : Overloads) (w : Walk) : (w.finish policy).frames = [] := by
  have fold (frames : List Frame) (w : Walk) (few : w.frames.length ≤ frames.length) :
      (frames.foldl (fun w f => (w.note (.unclosed f.start)).leave policy none) w).frames = [] := by
    induction frames generalizing w with
    | nil => exact List.length_eq_zero_iff.1 (Nat.le_zero.1 few)
    | cons f frames ih =>
      apply ih
      rw [frames_leave]
      exact Nat.sub_le_iff_le_add.2 few
  exact fold w.frames w (Nat.le_refl _)

end Walk

end EditScope.Sketch

import EditScope.Proofs.Declaration.Pruned
import EditScope.Proofs.Sketch.Bodies

set_option autoImplicit false

namespace EditScope

namespace Sketch

open Declaration EditScope.Bracket

variable {b : Bracketed} {rules : Rules} {i j : Nat} {l : Lexeme} {w v : Walk}

section Within

variable {f : Frame}

/-- The walk stands in the body of the type, over what it had when it came there: in between only
the type has gained members. -/
def Within (f : Frame) (w v : Walk) : Prop :=
  ∃ inner members, v.frames = inner ++ { f with members } :: w.frames ∧ v.types = w.types ∧
    v.package = w.package

theorem Walk.package_add (w : Walk) (d : Sketch) : (w.add d).package = w.package := by
  unfold add
  split <;> rfl

theorem Walk.package_leave (policy : Overloads) (w : Walk) (last : Option Nat) :
    (w.leave policy last).package = w.package := by
  unfold leave
  split
  · rfl
  · exact package_add _ _

theorem package_typeStep (rules : Rules) (i : Nat) (w : Walk) :
    (typeStep b rules i w).2.package = w.package := by
  unfold typeStep
  split
  · rfl
  split
  · dsimp only
    split <;> exact Walk.package_add _ _
  · rfl

theorem package_step (inside : w.frames ≠ []) : (step b rules i l w).2.package = w.package := by
  rw [step, if_neg (by simpa using inside)]
  unfold memberStep
  split
  · exact Walk.package_leave _ _ _
  split
  · exact package_typeStep rules i w
  split
  · rfl
  split
  · rfl
  split
  · split
    · exact Walk.package_add _ _
    · rfl
  split <;> rfl

theorem Within.add (within : Within f w v) (d : Sketch) : Within f w (v.add d) := by
  obtain ⟨package, types, frames, notes⟩ := v
  obtain ⟨inner, members, rfl, rfl, rfl⟩ := within
  cases inner with
  | nil => exact ⟨[], d :: members, rfl, rfl, rfl⟩
  | cons g inner => exact ⟨{ g with members := d :: g.members } :: inner, members, rfl, rfl, rfl⟩

theorem Within.frames_ne_nil (within : Within f w v) : v.frames ≠ [] := by
  obtain ⟨inner, members, frames, _⟩ := within
  simp [frames]

variable (rules) in
theorem Within.step (within : Within f w v) (here : b.lexemes[i]? = some l) :
    Within f w (step b rules i l v).2 ∨
      b.has (·.closes .curly) i ∧ ∃ members, v.frames = { f with members } :: w.frames := by
  have package : (Sketch.step b rules i l v).2.package = v.package :=
    package_step within.frames_ne_nil
  have move : Move b rules i v (Sketch.step b rules i l v).1 (Sketch.step b rules i l v).2 :=
    step_move here
  obtain ⟨inner, members, frames, types, package'⟩ := id within
  generalize Sketch.step b rules i l v = next at package move
  obtain ⟨j, v'⟩ := next
  cases move with
  | pass _ types' frames' =>
    exact .inl ⟨inner, members, frames'.trans frames, types'.trans types, package.trans package'⟩
  | leave _ closes =>
    cases inner with
    | nil => exact .inr ⟨closes, members, frames⟩
    | cons g inner =>
      have left : Within f w { v with frames := inner ++ { f with members } :: w.frames } :=
        ⟨inner, members, rfl, types, package'⟩
      rw [frames]
      exact .inl (left.add _)
  | enter => exact .inl ⟨_ :: inner, members, congrArg (List.cons _) frames, types, package'⟩
  | prune => exact .inl (Within.add (v := v.note _) within _)
  | method => exact .inl (within.add _)

theorem step_of_closes (closes : l.closes .curly) (inside : w.frames ≠ []) :
    step b rules i l w = (i + 1, w.leave rules.overloads (some i)) := by
  rw [step, if_neg (by simpa using inside), memberStep, if_pos closes]

variable (rules) (paired : Paired b 0 b.lexemes.size) {brace close : Nat}
  (header : TypeAt b f.keyword f.name brace) (pair : b.close? brace = some close)

include paired header pair

theorem exists_leads_close (framed : Framed b i v.frames) (within : Within f w v) :
    ∃ u members, Leads b rules i v close u ∧ u.frames = { f with members } :: w.frames ∧
      u.types = w.types ∧ u.package = w.package ∧ b.has (·.closes .curly) close := by
  obtain ⟨j, u, leads, ⟨framed, _, _, _, types, package⟩, closes, members, frames⟩ :=
    exists_leads_until (b := b) (R := fun i v => Framed b i v.frames ∧ Within f w v)
      (D := fun i v => b.has (·.closes .curly) i ∧ ∃ members, v.frames = { f with members } :: w.frames)
      (fun here ⟨framed, within⟩ => (within.step rules here).symm.imp_right fun within' =>
        ⟨step_framed paired here framed, within'⟩)
      (fun ends ⟨framed, within⟩ =>
        absurd (frames_of_size_le paired framed ends) within.frames_ne_nil)
      ⟨framed, within⟩
  -- The body that closes here is the one of `f`, whose brace its header fixes.
  obtain ⟨⟨brace', header', pair'⟩, _⟩ := Framed.exists_close paired (frames ▸ framed) closes
  cases header.brace_unique header'
  cases pair.symm.trans pair'
  exact ⟨u, members, leads, frames, types, package, closes⟩

theorem exists_leads_behind (around : Framed b (close + 1) w.frames) :
    ∃ (u : Walk) (members : List Sketch), u.frames = w.frames ∧ u.types = w.types ∧ u.package = w.package ∧
      Leads b rules (brace + 1) (w.enter f) (close + 1)
        (u.add (.mk .type f.name ⟨f.keyword, some close⟩ members)) := by
  have framed : Framed b (brace + 1) (w.enter f).frames :=
    ⟨brace, close, header, pair, .here, around⟩
  obtain ⟨u, members, leads, frames, types, package, closes⟩ :=
    exists_leads_close rules paired header pair framed ⟨[], f.members, rfl, rfl, rfl⟩
  obtain ⟨last, there, closes⟩ := (Option.any_eq_true _ _).1 closes
  refine ⟨{ u with frames := w.frames }, rules.overloads.apply members.reverse, rfl, types, package, ?_⟩
  refine leads.trans (.step there ?_)
  rw [step_of_closes closes (by simp [frames]), Walk.leave, frames]
  exact .here

end Within

section Prunes

variable {limit : Nat} {policy : Overloads}

variable (limit) in
def prunedFrames : List Frame → List Frame
  | [] => []
  | f :: frames =>
    { f with members := f.members.map (prune (limit - (frames.length + 1))) } :: prunedFrames frames

theorem length_prunedFrames (frames : List Frame) :
    (prunedFrames limit frames).length = frames.length := by
  induction frames with
  | nil => rfl
  | cons f frames ih => rw [prunedFrames, List.length_cons, ih, List.length_cons]

structure Prunes (limit : Nat) (w v : Walk) : Prop where
  package : v.package = w.package
  types : v.types = w.types.map (prune limit)
  frames : v.frames = prunedFrames limit w.frames
  few : w.frames.length ≤ limit

namespace Prunes

variable (prunes : Prunes limit w v)

include prunes

theorem length_frames : v.frames.length = w.frames.length := by
  rw [prunes.frames, length_prunedFrames]

theorem add (d : Sketch) :
    Prunes limit (w.add d) (v.add (d.prune (limit - w.frames.length))) := by
  obtain ⟨package, types, frames, notes⟩ := w
  obtain ⟨package', types', frames', notes'⟩ := v
  obtain ⟨samePackage, sameTypes, sameFrames, few⟩ := prunes
  cases samePackage
  cases sameTypes
  cases sameFrames
  cases frames with
  | nil => exact ⟨rfl, rfl, rfl, few⟩
  | cons f frames => exact ⟨rfl, rfl, rfl, few⟩

theorem add_leaf (kind : Kind) (name : String) (place : Extent) :
    Prunes limit (w.add (.mk kind name place [])) (v.add (.mk kind name place [])) := by
  have added := prunes.add (.mk kind name place [])
  rwa [prune_leaf] at added

theorem leave (policy : Overloads) (last : Option Nat) :
    Prunes limit (w.leave policy last) (v.leave policy last) := by
  obtain ⟨package, types, frames, notes⟩ := w
  obtain ⟨package', types', frames', notes'⟩ := v
  obtain ⟨samePackage, sameTypes, sameFrames, few⟩ := prunes
  cases samePackage
  cases sameTypes
  cases sameFrames
  cases frames with
  | nil => exact ⟨rfl, rfl, rfl, few⟩
  | cons f frames =>
    have few : frames.length + 1 ≤ limit := few
    -- The frames around the type leave one level more to it than to its members.
    have level : limit - frames.length = limit - (frames.length + 1) + 1 := by omega
    have left : Prunes limit ⟨package, types, frames, notes⟩
        ⟨package, types.map (prune limit), prunedFrames limit frames, notes'⟩ :=
      ⟨rfl, rfl, rfl, Nat.le_of_succ_le few⟩
    have added := left.add (.mk .type f.name ⟨f.keyword, last⟩ (policy.apply f.members.reverse))
    simp only [level, prune, Declaration.kind, Declaration.name, Declaration.place,
      Declaration.members] at added
    rw [← (Overloads.keepsNames_prune _).apply_map, List.map_reverse] at added
    exact added

theorem enter (name : String) (keyword start : Nat) (shallow : w.frames.length < limit) :
    Prunes limit (w.enter ⟨name, keyword, start, []⟩) (v.enter ⟨name, keyword, start, []⟩) :=
  ⟨prunes.package, prunes.types, congrArg (List.cons _) prunes.frames, shallow⟩

section Step

variable (paired : Paired b 0 b.lexemes.size) (here : b.lexemes[i]? = some l)
  (framed : Framed b i w.frames)

include paired here framed

theorem typeStep (keyword : l.isTypeKeyword) :
    ∃ w', Leads b ⟨policy, none⟩ (typeStep b ⟨policy, none⟩ i w).1 (typeStep b ⟨policy, none⟩ i w).2
        (typeStep b ⟨policy, some limit⟩ i v).1 w' ∧
      Prunes limit w' (typeStep b ⟨policy, some limit⟩ i v).2 := by
  unfold Sketch.typeStep
  cases found : typeHeader? b i with
  | none => exact ⟨w, .here, prunes⟩
  | some h =>
    have header := typeAt_of_header ((Bracketed.has_eq here _).trans keyword) found
    obtain ⟨close, body⟩ := exists_body paired header
    simp only [Option.any_none, Option.any_some, prunes.length_frames, decide_eq_true_eq, body.pair,
      Bool.false_eq_true, if_false]
    split
    · rename_i deep
      have level : w.frames.length = limit := Nat.le_antisymm prunes.few deep
      obtain ⟨u, members, frames, types, package, leads⟩ :=
        exists_leads_behind (f := ⟨h.name, i, h.brace + 1, []⟩) ⟨policy, none⟩ paired header body.pair
          (framed.skims (header.skims body.pair))
      have around : Prunes limit u (v.note (.nestedTooDeep i h.name)) :=
        ⟨package ▸ prunes.package, types ▸ prunes.types, frames ▸ prunes.frames, frames ▸ prunes.few⟩
      have added := around.add (.mk .type h.name ⟨i, some close⟩ members)
      rw [frames, level, Nat.sub_self] at added
      exact ⟨_, leads, added⟩
    · rename_i shallow
      exact ⟨_, .here, prunes.enter h.name i (h.brace + 1) (Nat.lt_of_not_le shallow)⟩

theorem memberStep :
    ∃ w', Leads b ⟨policy, none⟩ (memberStep b ⟨policy, none⟩ i l w).1
        (memberStep b ⟨policy, none⟩ i l w).2 (memberStep b ⟨policy, some limit⟩ i l v).1 w' ∧
      Prunes limit w' (memberStep b ⟨policy, some limit⟩ i l v).2 := by
  unfold Sketch.memberStep
  split
  · exact ⟨_, .here, prunes.leave policy (some i)⟩
  split
  · rename_i keyword
    exact prunes.typeStep paired here framed keyword
  split
  · exact ⟨w, .here, prunes⟩
  split
  · exact ⟨w, .here, prunes⟩
  split
  · split
    · exact ⟨_, .here, prunes.add_leaf _ _ _⟩
    · exact ⟨w, .here, prunes⟩
  split <;> exact ⟨w, .here, prunes⟩

theorem fileStep :
    ∃ w', Leads b ⟨policy, none⟩ (fileStep b ⟨policy, none⟩ i l w).1
        (fileStep b ⟨policy, none⟩ i l w).2 (fileStep b ⟨policy, some limit⟩ i l v).1 w' ∧
      Prunes limit w' (fileStep b ⟨policy, some limit⟩ i l v).2 := by
  unfold Sketch.fileStep
  rw [prunes.package]
  split
  · split
    · exact ⟨_, .here, rfl, prunes.types, prunes.frames, prunes.few⟩
    · exact ⟨w, .here, prunes⟩
  split
  · rename_i keyword
    exact prunes.typeStep paired here framed keyword
  split
  · exact ⟨_, .here, prunes.package, prunes.types, prunes.frames, prunes.few⟩
  · exact ⟨w, .here, prunes⟩

variable (policy) in
theorem step :
    ∃ w', Leads b ⟨policy, none⟩ i w (step b ⟨policy, some limit⟩ i l v).1 w' ∧
      Prunes limit w' (step b ⟨policy, some limit⟩ i l v).2 := by
  have outside : v.frames.isEmpty = w.frames.isEmpty := by
    rw [Bool.eq_iff_iff, List.isEmpty_iff_length_eq_zero, List.isEmpty_iff_length_eq_zero,
      prunes.length_frames]
  have first : ∃ w', Leads b ⟨policy, none⟩ (Sketch.step b ⟨policy, none⟩ i l w).1
      (Sketch.step b ⟨policy, none⟩ i l w).2 (Sketch.step b ⟨policy, some limit⟩ i l v).1 w' ∧
        Prunes limit w' (Sketch.step b ⟨policy, some limit⟩ i l v).2 := by
    unfold Sketch.step
    rw [outside]
    split
    · exact prunes.fileStep paired here framed
    · exact prunes.memberStep paired here framed
  obtain ⟨w', leads, prunes'⟩ := first
  exact ⟨w', .step here leads, prunes'⟩

end Step

theorem finish (outside : w.frames = []) (policy : Overloads) :
    Prunes limit (w.finish policy) (v.finish policy) := by
  have outside' : v.frames = [] := by
    rw [prunes.frames, outside]
    rfl
  rw [Walk.finish_of_nil outside, Walk.finish_of_nil outside']
  exact prunes

theorem walk (policy : Overloads) (paired : Paired b 0 b.lexemes.size) (framed : Framed b i w.frames) :
    Prunes limit (walk b ⟨policy, none⟩ i w) (walk b ⟨policy, some limit⟩ i v) := by
  refine walk_simulates (R := fun i w v => Framed b i w.frames ∧ Prunes limit w v) ?_ ?_ ⟨framed, prunes⟩
  · rintro i w v l here ⟨framed, prunes⟩
    obtain ⟨w', leads, prunes'⟩ := prunes.step policy paired here framed
    exact ⟨w', leads, framed_of_leads paired framed leads, prunes'⟩
  · rintro i w v ends ⟨framed, prunes⟩
    exact prunes.finish (frames_of_size_le paired framed ends) policy

end Prunes

end Prunes

end Sketch

theorem SketchedFile.types_prune {lexemes : List Lexeme} (nested : Bracket.Nested lexemes)
    (policy : Overloads) (limit : Nat) :
    (ofLexemes ⟨policy, some limit⟩ lexemes).package = (ofLexemes ⟨policy, none⟩ lexemes).package ∧
      (ofLexemes ⟨policy, some limit⟩ lexemes).types =
        (ofLexemes ⟨policy, none⟩ lexemes).types.map (Declaration.prune limit) := by
  have start : Sketch.Prunes limit {} {} := ⟨rfl, rfl, rfl, Nat.zero_le _⟩
  have walked : Sketch.Prunes limit (Sketch.walk (.ofLexemes lexemes) ⟨policy, none⟩ 0 {})
      (Sketch.walk (.ofLexemes lexemes) ⟨policy, some limit⟩ 0 {}) :=
    start.walk policy (Sketch.paired_of_nested nested) trivial
  exact ⟨walked.package, by rw [ofLexemes, walked.types, ofLexemes, List.map_reverse]⟩

end EditScope

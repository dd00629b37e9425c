import EditScope.Proofs.Declaration.Numbered
import EditScope.Proofs.Sketch.Moves

set_option autoImplicit false

namespace EditScope

namespace Sketch

open Declaration Overloads

variable (policy : Overloads)

def Frame.numbered (f : Frame) : Frame := { f with members := f.members.map (throughout policy) }

def Walk.numbered (w : Walk) : Walk :=
  { w with types := w.types.map (throughout policy), frames := w.frames.map (Frame.numbered policy) }

theorem throughout_leaf (kind : Kind) (name : String) (place : Extent) :
    throughout policy (.mk kind name place []) = .mk kind name place [] := by
  cases policy <;> rfl

namespace Walk

theorem numbered_add (w : Walk) (d : Sketch) :
    (w.add d).numbered policy = (w.numbered policy).add (throughout policy d) := by
  obtain ⟨package, types, frames, notes⟩ := w
  cases frames <;> rfl

theorem numbered_leave (w : Walk) (last : Option Nat) :
    (w.leave .merge last).numbered policy = (w.numbered policy).leave policy last := by
  obtain ⟨package, types, frames, notes⟩ := w
  cases frames with
  | nil => rfl
  | cons f frames =>
    simp only [leave, numbered_add, throughout, throughoutAll_eq_map, apply, List.map_reverse]
    rfl

theorem numbered_finish (w : Walk) :
    (w.finish .merge).numbered policy = (w.numbered policy).finish policy := by
  have fold (frames : List Frame) (w : Walk) :
      (frames.foldl (fun w f => (w.note (.unclosed f.start)).leave .merge none) w).numbered policy =
        (frames.map (Frame.numbered policy)).foldl
          (fun w f => (w.note (.unclosed f.start)).leave policy none) (w.numbered policy) := by
    induction frames generalizing w with
    | nil => rfl
    | cons f frames ih =>
      rw [List.foldl_cons, ih, numbered_leave]
      rfl
  exact fold w.frames w

end Walk

variable (b : Bracketed) (limit : Option Nat) (i : Nat) (l : Lexeme) (w : Walk)

theorem typeStep_numbered : typeStep b ⟨policy, limit⟩ i (w.numbered policy) =
    ((typeStep b ⟨.merge, limit⟩ i w).1, (typeStep b ⟨.merge, limit⟩ i w).2.numbered policy) := by
  have frames : (w.numbered policy).frames.length = w.frames.length := by simp [Walk.numbered]
  unfold typeStep
  cases typeHeader? b i with
  | none => rfl
  | some header =>
    simp only [frames]
    by_cases deep : limit.any (· ≤ w.frames.length) = true
    · simp only [deep, if_true]
      cases b.close? header.brace <;> simp only [Walk.numbered_add, throughout_leaf] <;> rfl
    · simp only [deep, Bool.false_eq_true, if_false]
      rfl

theorem fileStep_numbered : fileStep b ⟨policy, limit⟩ i l (w.numbered policy) =
    ((fileStep b ⟨.merge, limit⟩ i l w).1, (fileStep b ⟨.merge, limit⟩ i l w).2.numbered policy) := by
  have package : (w.numbered policy).package = w.package := rfl
  unfold fileStep
  rw [package, typeStep_numbered]
  split
  · cases nameAt? b (i + 1) <;> rfl
  split
  · rfl
  split <;> rfl

theorem memberStep_numbered : memberStep b ⟨policy, limit⟩ i l (w.numbered policy) =
    ((memberStep b ⟨.merge, limit⟩ i l w).1,
      (memberStep b ⟨.merge, limit⟩ i l w).2.numbered policy) := by
  unfold memberStep
  rw [typeStep_numbered, ← Walk.numbered_leave]
  split
  · rfl
  split
  · rfl
  split
  · rfl
  split
  · rfl
  split
  · cases methodHeader? b i with
    | none => rfl
    | some header => simp only [Walk.numbered_add, throughout_leaf]
  split <;> rfl

theorem step_numbered : step b ⟨policy, limit⟩ i l (w.numbered policy) =
    ((step b ⟨.merge, limit⟩ i l w).1, (step b ⟨.merge, limit⟩ i l w).2.numbered policy) := by
  have frames : (w.numbered policy).frames.isEmpty = w.frames.isEmpty := by simp [Walk.numbered]
  unfold step
  rw [frames]
  split
  · exact fileStep_numbered policy b limit i l w
  · exact memberStep_numbered policy b limit i l w

theorem walk_numbered : walk b ⟨policy, limit⟩ i (w.numbered policy) =
    (walk b ⟨.merge, limit⟩ i w).numbered policy := by
  fun_induction walk b ⟨.merge, limit⟩ i w with
  | case1 i w inside next later ih =>
    rw [walk, dif_pos inside]
    dsimp only
    rw [step_numbered]
    exact ih
  | case2 i w outside => rw [walk, dif_neg outside, Walk.numbered_finish]

end Sketch

theorem SketchedFile.ofLexemes_numbered (policy : Overloads) (limit : Option Nat)
    (lexemes : List Lexeme) :
    ofLexemes ⟨policy, limit⟩ lexemes =
      let merged := ofLexemes ⟨.merge, limit⟩ lexemes
      ⟨merged.package, Overloads.throughoutAll policy merged.types, merged.notes⟩ := by
  have walked := Sketch.walk_numbered policy (.ofLexemes lexemes) limit 0 {}
  have start : ({} : Sketch.Walk).numbered policy = {} := rfl
  rw [start] at walked
  simp only [ofLexemes, walked, Sketch.Walk.numbered, Overloads.throughoutAll_eq_map, List.map_reverse]

end EditScope

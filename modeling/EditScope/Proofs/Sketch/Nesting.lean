import EditScope.Proofs.Declaration.Numbered
import EditScope.Proofs.Sketch.Moves

set_option autoImplicit false

namespace EditScope

namespace Declaration

variable {σ τ : Type}

mutual

def height : Declaration σ → Nat
  | mk _ _ _ members => heights members + 1

def heights : List (Declaration σ) → Nat
  | [] => 0
  | d :: ds => max d.height (heights ds)

end

theorem heights_le {ds : List (Declaration σ)} {n : Nat} :
    heights ds ≤ n ↔ ∀ d ∈ ds, d.height ≤ n := by
  induction ds with
  | nil => simp [heights]
  | cons d ds ih => rw [heights, Nat.max_le, ih, List.forall_mem_cons]

theorem height_eq (d : Declaration σ) : d.height = heights d.members + 1 := by
  cases d
  rfl

mutual

theorem height_mapPlace (f : σ → τ) : ∀ d : Declaration σ, (d.mapPlace f).height = d.height
  | mk _ _ _ members => by rw [mapPlace, height, height, heights_mapPlaces f members]

theorem heights_mapPlaces (f : σ → τ) :
    ∀ ds : List (Declaration σ), heights (mapPlaces f ds) = heights ds
  | [] => rfl
  | d :: ds => by
    rw [mapPlaces, heights, heights, height_mapPlace f d, heights_mapPlaces f ds]

end

theorem heights_reverse (ds : List (Declaration σ)) : heights ds.reverse = heights ds := by
  refine Nat.le_antisymm (heights_le.2 fun d mem => ?_) (heights_le.2 fun d mem => ?_)
  · exact heights_le.1 (Nat.le_refl _) d (List.mem_reverse.1 mem)
  · exact heights_le.1 (Nat.le_refl _) d (List.mem_reverse.2 mem)

theorem heights_apply (policy : Overloads) {ds : List (Declaration σ)} {n : Nat}
    (low : heights ds ≤ n) : heights (policy.apply ds) ≤ n := by
  refine heights_le.2 fun d mem => ?_
  have mem := List.mem_map_of_mem (f := height) mem
  rw [Overloads.map_apply height (fun d name => by rw [height_eq, height_eq]; rfl)] at mem
  obtain ⟨e, found, same⟩ := List.mem_map.1 mem
  exact same ▸ heights_le.1 low e found

end Declaration

namespace Sketch

open Declaration

variable {limit : Nat}

variable (limit) in
/-- Each body that the walk stands in leaves one level less to what is declared in it. -/
def Shallow (types : List Sketch) : List Frame → Prop
  | [] => heights types ≤ limit + 1
  | f :: frames =>
    frames.length < limit ∧ heights f.members + frames.length ≤ limit ∧ Shallow types frames

theorem Shallow.length_le {types : List Sketch} {frames : List Frame}
    (shallow : Shallow limit types frames) : frames.length ≤ limit := by
  cases frames with
  | nil => exact Nat.zero_le _
  | cons f frames => exact shallow.1

variable {w : Walk}

theorem Shallow.add (shallow : Shallow limit w.types w.frames) {d : Sketch}
    (low : d.height + w.frames.length ≤ limit + 1) :
    Shallow limit (w.add d).types (w.add d).frames := by
  obtain ⟨package, types, frames, notes⟩ := w
  cases frames with
  | nil => exact Nat.max_le.2 ⟨low, shallow⟩
  | cons f frames =>
    obtain ⟨few, members, rest⟩ := shallow
    have low : d.height + (frames.length + 1) ≤ limit + 1 := low
    refine ⟨few, ?_, rest⟩
    rw [heights]
    omega

theorem Shallow.leave (policy : Overloads) (last : Option Nat)
    (shallow : Shallow limit w.types w.frames) :
    Shallow limit (w.leave policy last).types (w.leave policy last).frames := by
  obtain ⟨package, types, frames, notes⟩ := w
  cases frames with
  | nil => exact shallow
  | cons f frames =>
    obtain ⟨few, members, rest⟩ := shallow
    have same : heights (policy.apply f.members.reverse) ≤ heights f.members :=
      heights_apply policy (Nat.le_of_eq (heights_reverse _))
    refine Shallow.add (w := ⟨package, types, frames, notes⟩) rest ?_
    rw [height]
    dsimp only
    omega

variable {b : Bracketed} {policy : Overloads} {i next : Nat} {w' : Walk}

theorem shallow_move (shallow : Shallow limit w.types w.frames)
    (move : Move b ⟨policy, some limit⟩ i w next w') : Shallow limit w'.types w'.frames := by
  have few := shallow.length_le
  cases move with
  | pass later types frames => exact types ▸ frames ▸ shallow
  | leave inside close => exact shallow.leave policy (some i)
  | enter keyword found within =>
    have within : w.frames.length < limit := by simpa using within
    exact ⟨within, by simpa [heights] using few, shallow⟩
  | @prune header keyword found deep =>
    refine Shallow.add (w := w.note (.nestedTooDeep i header.name)) shallow ?_
    simpa [height, heights, Walk.note, Nat.add_comm] using few
  | method inside opens found =>
    refine shallow.add ?_
    simpa [height, heights, Nat.add_comm] using few

end Sketch

theorem SketchedFile.heights_le (policy : Overloads) (limit : Nat) (lexemes : List Lexeme) :
    Declaration.heights (ofLexemes ⟨policy, some limit⟩ lexemes).types ≤ limit + 1 := by
  obtain ⟨_, v, shallow, _, walked⟩ : ∃ (j : Nat) (v : Sketch.Walk),
      Sketch.Shallow limit v.types v.frames ∧ (Bracketed.ofLexemes lexemes).lexemes.size ≤ j ∧
      Sketch.walk (.ofLexemes lexemes) ⟨policy, some limit⟩ 0 {} = v.finish policy :=
    Sketch.walk_keeps (P := fun _ w => Sketch.Shallow limit w.types w.frames)
      (fun _ _ => Sketch.shallow_move) (Nat.zero_le _)
  have finished : Sketch.Shallow limit (v.finish policy).types (v.finish policy).frames :=
    Sketch.Walk.finish_keeps (P := fun w => Sketch.Shallow limit w.types w.frames)
      (fun start shallow => Sketch.Shallow.leave (w := Sketch.Walk.note _ _) policy none shallow)
      shallow
  rw [Sketch.Walk.frames_finish] at finished
  rw [ofLexemes, walked, Declaration.heights_reverse]
  exact finished

end EditScope

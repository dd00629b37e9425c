import EditScope.Proofs.Declaration.Everywhere
import EditScope.Proofs.Sketch.Aligned
import EditScope.Proofs.Sketch.Moves

set_option autoImplicit false

namespace EditScope

def Extent.reindex (image : Nat → Nat) (e : Extent) : Extent := ⟨image e.first, e.last.map image⟩

namespace Sketch

open Declaration

variable (image : Nat → Nat)

def Note.reindex : Note → Note
  | .strayMethod name => .strayMethod (image name)
  | .nestedTooDeep keyword name => .nestedTooDeep (image keyword) name
  | .unclosed start => .unclosed (image start)

def Frame.reindex (f : Frame) : Frame :=
  ⟨f.name, image f.keyword, image f.start, f.members.map (mapPlace (Extent.reindex image))⟩

def Walk.reindex (w : Walk) : Walk :=
  ⟨w.package, w.types.map (mapPlace (Extent.reindex image)), w.frames.map (Frame.reindex image),
    w.notes.map (Note.reindex image)⟩

namespace Walk

theorem reindex_add (w : Walk) (d : Sketch) :
    (w.add d).reindex image = (w.reindex image).add (d.mapPlace (Extent.reindex image)) := by
  obtain ⟨package, types, frames, notes⟩ := w
  cases frames <;> simp [add, reindex, Frame.reindex]

theorem reindex_leave (policy : Overloads) (w : Walk) (last : Option Nat) :
    (w.leave policy last).reindex image = (w.reindex image).leave policy (last.map image) := by
  obtain ⟨package, types, frames, notes⟩ := w
  cases frames with
  | nil => rfl
  | cons f frames =>
    simp only [leave, reindex_add, mapPlace, mapPlaces_eq_map, ← Overloads.apply_map,
      List.map_reverse]
    rfl

theorem reindex_finish (policy : Overloads) (w : Walk) :
    (w.finish policy).reindex image = (w.reindex image).finish policy := by
  have fold (frames : List Frame) (w : Walk) :
      (frames.foldl (fun w f => (w.note (.unclosed f.start)).leave policy none) w).reindex image =
        (frames.map (Frame.reindex image)).foldl
          (fun w f => (w.note (.unclosed f.start)).leave policy none) (w.reindex image) := by
    induction frames generalizing w with
    | nil => rfl
    | cons f frames ih =>
      rw [List.foldl_cons, ih, reindex_leave]
      rfl
  exact fold w.frames w

end Walk

variable {image} {b b' : Bracketed} {safe : Nat → Prop} {i : Nat} {l : Lexeme}

theorem isSome_nameBefore? (b : Bracketed) (i : Nat) :
    (0 < i && b.has Lexeme.isIdentifier (i - 1)) = (nameBefore? b i).isSome := by
  unfold nameBefore? Bracketed.has
  cases b.lexemes[i - 1]? with
  | none => split <;> simp
  | some l => cases identifier : l.isIdentifier <;> split <;> simp_all [Option.filter_some]

namespace Stands

variable (stands : Stands b b' image safe i)

include stands

theorem image_eq_succ (name : (nameBefore? b i).isSome) : image i = image (i - 1) + 1 := by
  obtain ⟨l, found⟩ := Option.isSome_iff_exists.1 name
  have positive : i - 1 + 1 = i := by
    rw [← isSome_nameBefore?] at name
    simp at name
    omega
  rw [← stands.follows (stands.before found) positive, positive]

theorem image_eq_succ_of_method {header : MethodHeader} (found : methodHeader? b i = some header) :
    image i = image (i - 1) + 1 := by
  rw [methodHeader?_eq] at found
  obtain ⟨l, name, _⟩ := Option.bind_eq_some_iff.1 found
  exact stands.image_eq_succ (by simp [name])

end Stands

namespace Aligned

variable (aligned : Aligned b b' image safe) (rules : Rules) (w : Walk)
  (stands : Stands b b' image safe i) (lexeme : b.lexemes[i]? = some l)

include aligned stands lexeme

theorem typeStep (keyword : l.isTypeKeyword)
    (after : Stands b b' image safe (typeStep b rules i w).1) :
    typeStep b' rules (image i) (w.reindex image) =
      (image (typeStep b rules i w).1, (typeStep b rules i w).2.reindex image) := by
  obtain ⟨header, inside⟩ := aligned.typeHeader? stands lexeme keyword
  have frames : (w.reindex image).frames.length = w.frames.length := by simp [Walk.reindex]
  unfold Sketch.typeStep at after ⊢
  rw [header]
  cases found : Sketch.typeHeader? b i with
  | none =>
    simp only [found] at after
    simp [after.follows stands.here rfl]
  | some h =>
    have brace := inside h found
    simp only [found] at after
    simp only [Option.map_some, frames]
    by_cases deep : rules.limit.any (· ≤ w.frames.length) = true
    · simp only [deep, if_true, aligned.close brace]
      cases close : b.close? h.brace with
      | none =>
        simp only [Option.map_none, aligned.size, Walk.reindex_add]
        rfl
      | some c =>
        simp only [Option.map_some, (aligned.jump brace close).2, Walk.reindex_add]
        rfl
    · simp only [deep, Bool.false_eq_true, if_false] at after ⊢
      rw [after.follows brace rfl]
      simp only [Walk.enter, Walk.reindex, List.map_cons, Frame.reindex, List.map_nil,
        after.follows brace rfl]

theorem fileStep (after : Stands b b' image safe (fileStep b rules i l w).1) :
    fileStep b' rules (image i) l (w.reindex image) =
      (image (fileStep b rules i l w).1, (fileStep b rules i l w).2.reindex image) := by
  have package : (w.reindex image).package = w.package := rfl
  unfold Sketch.fileStep at after ⊢
  rw [package]
  by_cases clause : l.isKeyword "package" && w.package.isNone
  · simp only [clause, if_true] at after ⊢
    obtain ⟨there, next⟩ := aligned.plain stands.here lexeme
      (Lexeme.opened?_of_keyword (Bool.and_eq_true_iff.1 clause).1)
    rw [← next, (aligned.nameAt? there).1]
    cases Sketch.nameAt? b (i + 1) with
    | none => rfl
    | some p => rfl
  by_cases keyword : l.isTypeKeyword
  · simp only [clause, keyword, Bool.false_eq_true, if_false, if_true] at after ⊢
    exact aligned.typeStep rules w stands lexeme keyword after
  simp only [clause, keyword, Bool.false_eq_true, if_false, Bool.and_assoc, isSome_nameBefore?,
    stands.name] at after ⊢
  by_cases stray : l.opens .round && (nameBefore? b i).isSome
  · simp only [stray, if_true] at after ⊢
    have before := stands.image_eq_succ (Bool.and_eq_true_iff.1 stray).2
    rw [after.follows stands.here rfl, before, Nat.add_sub_cancel]
    rfl
  · simp only [stray, Bool.false_eq_true, if_false] at after ⊢
    rw [after.follows stands.here rfl]

theorem memberStep (after : Stands b b' image safe (memberStep b rules i l w).1) :
    memberStep b' rules (image i) l (w.reindex image) =
      (image (memberStep b rules i l w).1, (memberStep b rules i l w).2.reindex image) := by
  unfold Sketch.memberStep at after ⊢
  by_cases closes : l.closes .curly
  · simp only [closes, if_true] at after ⊢
    rw [after.follows stands.here rfl, Walk.reindex_leave]
    rfl
  by_cases keyword : l.isTypeKeyword
  · simp only [closes, keyword, Bool.false_eq_true, if_false, if_true] at after ⊢
    exact aligned.typeStep rules w stands lexeme keyword after
  simp only [closes, keyword, Bool.false_eq_true, if_false] at after ⊢
  by_cases equals : l.isOperator "="
  · simp only [equals, if_true] at after ⊢
    obtain ⟨there, next⟩ := aligned.plain stands.here lexeme (Lexeme.opened?_of_operator equals)
    rw [← next, aligned.initializerEnd there]
  by_cases sign : l.isSeparator "@"
  · simp only [equals, sign, Bool.false_eq_true, if_false, if_true] at after ⊢
    obtain ⟨there, next⟩ := aligned.plain stands.here lexeme
      (Lexeme.opened?_of_separator sign (by decide))
    rw [aligned.annotationEnd there next]
  simp only [equals, sign, Bool.false_eq_true, if_false] at after ⊢
  by_cases round : l.opens .round
  · simp only [round, if_true] at after ⊢
    obtain ⟨found, next⟩ := aligned.methodHeader? stands
    rw [found]
    cases header : Sketch.methodHeader? b i with
    | none =>
      simp only [header] at after
      simp only [Option.map_none]
      rw [after.follows stands.here rfl]
    | some h =>
      simp only [Option.map_some, Walk.reindex_add]
      rw [next h header, stands.image_eq_succ_of_method header]
      rfl
  simp only [round, Bool.false_eq_true, if_false] at after ⊢
  by_cases curly : l.opens .curly
  · simp only [curly, if_true, aligned.close stands.here] at after ⊢
    cases found : b.close? i with
    | none => simp [(aligned.next stands.here found).2]
    | some c => simp [(aligned.jump stands.here found).2]
  · simp only [curly, Bool.false_eq_true, if_false] at after ⊢
    rw [after.follows stands.here rfl]

theorem step (after : Stands b b' image safe (step b rules i l w).1) :
    step b' rules (image i) l (w.reindex image) =
      (image (step b rules i l w).1, (step b rules i l w).2.reindex image) := by
  have frames : (w.reindex image).frames.isEmpty = w.frames.isEmpty := by
    simp [Walk.reindex]
  unfold Sketch.step at after ⊢
  rw [frames]
  split
  · rename_i outside
    exact aligned.fileStep rules w stands lexeme (by simpa [outside] using after)
  · rename_i inside
    exact aligned.memberStep rules w stands lexeme (by simpa [inside] using after)

omit stands lexeme in
theorem walk (stands : ∀ {j v}, Leads b rules i w j v → Stands b b' image safe j) :
    walk b' rules (image i) (w.reindex image) = (walk b rules i w).reindex image := by
  induction left : b.lexemes.size - i using Nat.strongRecOn generalizing i w with
  | ind _ shorter =>
    have there := aligned.lexeme (stands .here).here
    cases lexeme : b.lexemes[i]? with
    | none =>
      have ends : b.lexemes.size ≤ i := by simpa using lexeme
      have ends' : b'.lexemes.size ≤ image i := by simpa [lexeme] using there
      rw [walk_of_size_le ends, walk_of_size_le ends', Walk.reindex_finish]
    | some l =>
      have inside := lt_size_of_getElem? lexeme
      have later : i < (Sketch.step b rules i l w).1 := lt_step_of_getElem? lexeme
      -- Where the step ends is visited too, which is what the step needs to know.
      rw [walk_of_getElem? lexeme, walk_of_getElem? (there.trans lexeme),
        aligned.step rules w (stands .here) lexeme (stands (.step lexeme .here))]
      exact shorter _ (by omega) _ (fun leads => stands (.step lexeme leads)) rfl

end Aligned

end Sketch

end EditScope

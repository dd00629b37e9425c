import EditScope.Proofs.Outline.Laminar

set_option autoImplicit false

namespace EditScope

namespace Declaration

def Encloses (d : Declaration Span) : Prop :=
  ∀ m ∈ d.members, d.place.start ≤ m.place.start ∧ m.place.start < m.place.stop ∧
    m.place.stop ≤ d.place.stop

def Apart (d : Declaration Span) : Prop :=
  d.members.Pairwise fun m later => m.place.stop ≤ later.place.start

theorem laminarBetween_of_apart {first last : Nat} {ds : List (Declaration Span)}
    (bounds : ∀ m ∈ ds, first ≤ m.place.start ∧ m.place.start < m.place.stop ∧ m.place.stop ≤ last)
    (apart : ds.Pairwise fun m later => m.place.stop ≤ later.place.start)
    (laminar : ∀ m ∈ ds, m.Laminar Span.layout) : LaminarBetween Span.layout first last ds := by
  induction ds generalizing first with
  | nil => trivial
  | cons d ds ih =>
    obtain ⟨behind, apart⟩ := List.pairwise_cons.1 apart
    obtain ⟨after, proper, inside⟩ := bounds d (List.mem_cons_self ..)
    refine ⟨after, proper, inside, laminar d (List.mem_cons_self ..), ih ?_ apart ?_⟩
    · exact fun m mem => ⟨behind m mem, (bounds m (List.mem_cons_of_mem _ mem)).2⟩
    · exact fun m mem => laminar m (List.mem_cons_of_mem _ mem)

mutual

theorem laminar_of_apart : ∀ d : Declaration Span, d.Everywhere Encloses → d.Everywhere Apart →
    d.Laminar Span.layout
  | mk _ _ _ members, ⟨encloses, inner⟩, ⟨apart, inner'⟩ =>
    laminarBetween_of_apart encloses apart (laminar_of_apart_members members inner inner')

theorem laminar_of_apart_members : ∀ ds : List (Declaration Span), EverywhereIn Encloses ds →
    EverywhereIn Apart ds → ∀ m ∈ ds, m.Laminar Span.layout
  | [], _, _ => by simp
  | d :: ds, ⟨encloses, rest⟩, ⟨apart, rest'⟩ => List.forall_mem_cons.2
    ⟨laminar_of_apart d encloses apart, laminar_of_apart_members ds rest rest'⟩

end

end Declaration

namespace Outline

open Declaration

variable {o : Outline} {parent : Option Nat} {d : Declaration Span}

mutual

theorem encloses_below (sound : ∀ i, o.isSound i = true) (parent : Option Nat) (id : Nat) :
    ∀ d : Declaration Span, o.Holds parent id d → d.Everywhere Encloses
  | .mk kind name span members, holds => by
    obtain ⟨i, rfl⟩ := holds.exists_id
    obtain ⟨proper, inner⟩ := encloses_among sound i (i + 1) (Nat.succ_pos _) members holds.members
    have inside := (holds.isSound_iff.1 (sound i)).1.1
    exact ⟨fun m mem => ⟨(inside m mem).1, proper m mem, (inside m mem).2⟩, inner⟩

-- Whether a member is empty is not seen from its declaration but checked at its own index.
theorem encloses_among (sound : ∀ i, o.isSound i = true) (p id : Nat) (later : 0 < id) :
    ∀ ds : List (Declaration Span), o.HoldsAll (some p) id ds →
      (∀ m ∈ ds, m.place.start < m.place.stop) ∧ EverywhereIn Encloses ds
  | [], _ => ⟨by simp, trivial⟩
  | d :: ds, holds => by
    obtain ⟨proper, rest⟩ := encloses_among sound p (id + d.size) (by omega) ds holds.tail
    obtain ⟨i, rfl⟩ := holds.head.exists_id
    have first := (holds.head.isSound_iff.1 (sound i)).2 (by omega)
    exact ⟨List.forall_mem_cons.2 ⟨first, proper⟩, encloses_below sound (some p) i d holds.head, rest⟩

end

theorem encloses_of_checked {o : Outline} (accepted : ofDeclaration? d = .ok o) :
    o = ofDeclaration d ∧ d.Everywhere Encloses := by
  simp only [ofDeclaration?] at accepted
  split at accepted
  · rename_i faultless
    have sound := firstFault?_eq_none_iff.1 faultless
    exact ⟨(Except.ok.inj accepted).symm, encloses_below sound none 0 d (ofDeclaration_holds d)⟩
  · cases accepted

theorem enclosed_of_encloses (encloses : d.Everywhere Encloses) : (ofDeclaration d).Enclosed := by
  intro i inner
  have below : i.val ≠ 0 := fun top => inner (Fin.ext top)
  obtain ⟨_, m, holds, _, p, outer, _, rfl, above, around, mem⟩ :=
    exists_holds (P := Everywhere Encloses) (fun _ => Everywhere.members) encloses i below
  obtain ⟨q, found, rfl⟩ := parent?_of_node (i := i) (p := p) (by rw [holds.node_eq])
  obtain ⟨low, _, high⟩ := (everywhere_iff.1 around).1 m mem
  refine ⟨q, found, ?_⟩
  rw [holds.node_eq, above.node_eq]
  exact ⟨low, high⟩

end Outline

end EditScope

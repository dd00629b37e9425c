import EditScope.Proofs.Outline.Placement

set_option autoImplicit false

namespace EditScope

namespace Declaration

def Orderly (d : Declaration Span) : Prop :=
  (∀ m ∈ d.members, d.place.start ≤ m.place.start ∧ m.place.stop ≤ d.place.stop) ∧
    d.members.Pairwise fun m later => m.place.start ≤ later.place.start

def Fits (d : Declaration Span) (i : Nat) : Prop :=
  d.Orderly ∧ (i ≠ 0 → d.place.start < d.place.stop)

end Declaration

namespace Outline

variable {o : Outline} {parent : Option Nat} {d : Declaration Span} {i : o.Id}

-- The check compares neighbours; that the order is transitive makes it a check of all pairs.
theorem zip_tail_all_iff (spans : List Span) :
    (spans.zip spans.tail).all (fun (a, b) => a.start ≤ b.start) = true ↔
      spans.Pairwise fun a b => a.start ≤ b.start := by
  induction spans with
  | nil => simp
  | cons a spans ih =>
    cases spans with
    | nil => simp
    | cons b spans =>
      rw [List.pairwise_cons, ← ih, List.tail_cons, List.zip_cons_cons, List.all_cons, Bool.and_eq_true,
        decide_eq_true_eq]
      refine and_congr_left fun ordered => ?_
      have behind := (List.pairwise_cons.1 (ih.1 ordered)).1
      rw [List.forall_mem_cons]
      exact ⟨fun le => ⟨le, fun c mem => Nat.le_trans le (behind c mem)⟩, And.left⟩

theorem Holds.childSpans (holds : o.Holds parent i d) :
    o.childSpans i = d.members.map Declaration.place := by
  rw [Outline.childSpans, holds.node_eq]
  exact holds.members.spans

theorem Holds.isSound_iff (holds : o.Holds parent i d) : o.isSound i = true ↔ d.Fits i := by
  have ordered := zip_tail_all_iff (d.members.map Declaration.place)
  rw [List.pairwise_map] at ordered
  simp only [isSound, holds.childSpans, holds.node_eq, holds.members.linked, Bool.and_true,
    Bool.and_eq_true, ordered, List.all_map, List.all_eq_true,
    Function.comp_apply, decide_eq_true_eq, Bool.or_eq_true, beq_iff_eq]
  rw [Declaration.Fits, Declaration.Orderly, and_comm (a := List.Pairwise _ _)]
  exact and_congr_right' Decidable.or_iff_not_imp_left

theorem firstFault?_eq_none_iff : o.firstFault? = none ↔ ∀ i, o.isSound i = true := by
  simp [firstFault?, ids]

end Outline

end EditScope

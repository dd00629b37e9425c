import EditScope.Change

set_option autoImplicit false

namespace EditScope

open Std

instance : TransOrd Declaration.Kind where
  eq_swap {a b} := by cases a <;> cases b <;> rfl
  isLE_trans {a b c} := by cases a <;> cases b <;> cases c <;> decide

instance : LawfulEqOrd Declaration.Kind where
  compare_self {a} := by cases a <;> rfl
  eq_of_compare {a b} := by cases a <;> cases b <;> decide

instance : TransOrd Change.Kind where
  eq_swap {a b} := by cases a <;> cases b <;> rfl
  isLE_trans {a b c} := by cases a <;> cases b <;> cases c <;> decide

instance : LawfulEqOrd Change.Kind where
  compare_self {a} := by cases a <;> rfl
  eq_of_compare {a b} := by cases a <;> cases b <;> decide

theorem NamePart.compare_eq :
    (compare : NamePart → NamePart → Ordering) = compareLex (compareOn kind) (compareOn name) := by
  funext a b
  cases a
  cases b
  simp only [compare, instOrdNamePart.ord, compareLex, compareOn, Ordering.then_eq]

instance : TransOrd NamePart := by
  rw [TransOrd, NamePart.compare_eq]
  infer_instance

instance : LawfulEqOrd NamePart where
  compare_self {a} := ReflCmp.compare_self
  eq_of_compare {a b} same := by
    rw [NamePart.compare_eq, compareLex_eq_eq] at same
    obtain ⟨kind, name⟩ := same
    cases a
    cases b
    simp_all [compareOn]

theorem QualifiedName.outermost_inj {a b : QualifiedName} (same : a.outermost = b.outermost) :
    a = b := by
  cases a
  cases b
  simpa [outermost, parts, and_comm] using same

instance : TransOrd QualifiedName :=
  inferInstanceAs (TransCmp (compareOn QualifiedName.outermost))

instance : LawfulEqOrd QualifiedName where
  compare_self := ReflCmp.compare_self
  eq_of_compare same := QualifiedName.outermost_inj (LawfulEqCmp.eq_of_compare same)

instance : TransOrd Change :=
  inferInstanceAs (TransCmp (compareLex (compareOn Change.declaration) (compareOn Change.kind)))

instance : LawfulEqOrd Change where
  compare_self := ReflCmp.compare_self
  eq_of_compare {a b} same := by
    have both : compareLex (compareOn Change.declaration) (compareOn Change.kind) a b = .eq := same
    obtain ⟨declaration, kind⟩ := compareLex_eq_eq.1 both
    cases a
    cases b
    simp_all [compareOn]

section Ascending

variable {α : Type} [Ord α]

theorem mem_insertOnce [LawfulEqOrd α] {x item : α} {items : List α} :
    x ∈ insertOnce item items ↔ x = item ∨ x ∈ items := by
  cases items with
  | nil => simp [insertOnce]
  | cons next rest =>
    rw [insertOnce]
    split
    · rename_i same
      simp only [beq_iff_eq, LawfulEqCmp.compare_eq_iff_eq] at same
      simp [same]
    · simp

theorem mem_foldr_insertOnce [LawfulEqOrd α] {x : α} {items : List α} :
    x ∈ items.foldr insertOnce [] ↔ x ∈ items := by
  induction items with
  | nil => simp
  | cons item items ih => rw [List.foldr_cons, mem_insertOnce, ih, List.mem_cons]

theorem mem_ascending [LawfulEqOrd α] {x : α} {items : List α} : x ∈ ascending items ↔ x ∈ items := by
  rw [ascending, mem_foldr_insertOnce, List.mem_mergeSort]

theorem insertOnce_pairwise [TransOrd α] {item : α} {items : List α}
    (ascending : items.Pairwise fun a b => compare a b = .lt)
    (least : ∀ x ∈ items, (compare item x).isLE) :
    (insertOnce item items).Pairwise fun a b => compare a b = .lt := by
  cases items with
  | nil => simp [insertOnce]
  | cons next rest =>
    rw [insertOnce]
    split
    · exact ascending
    · rename_i different
      have first : compare item next = .lt := by
        have le := least next (List.mem_cons_self ..)
        cases order : compare item next <;> simp_all
      refine List.pairwise_cons.2 ⟨?_, ascending⟩
      intro x mem
      rcases List.mem_cons.1 mem with rfl | mem
      · exact first
      · exact TransCmp.lt_trans first ((List.pairwise_cons.1 ascending).1 x mem)

theorem ascending_pairwise [TransOrd α] [LawfulEqOrd α] (items : List α) :
    (ascending items).Pairwise fun a b => compare a b = .lt := by
  have sorted : (items.mergeSort fun a b => compare a b != .gt).Pairwise
      fun a b => (compare a b).isLE := by
    refine (List.pairwise_mergeSort ?_ ?_ items).imp ?_
    · intro a b c first second
      simp only [bne_iff_ne, ← Ordering.isLE_iff_ne_gt] at first second ⊢
      exact TransCmp.isLE_trans first second
    · intro a b
      rw [OrientedOrd.eq_swap (a := a)]
      cases compare b a <;> rfl
    · intro a b le
      simpa [← Ordering.isLE_iff_ne_gt] using le
  unfold ascending
  generalize items.mergeSort (fun a b => compare a b != .gt) = sortedItems at sorted
  induction sortedItems with
  | nil => simp
  | cons item rest ih =>
    obtain ⟨least, rest⟩ := List.pairwise_cons.1 sorted
    exact insertOnce_pairwise (ih rest) fun x mem => least x (mem_foldr_insertOnce.1 mem)

theorem nodup_of_ascending [TransOrd α] {items : List α}
    (ascending : items.Pairwise fun a b => compare a b = .lt) : items.Nodup := by
  refine ascending.imp ?_
  rintro a _ less rfl
  have self : compare a a = .eq := ReflCmp.compare_self
  cases self.symm.trans less

theorem length_ascending [TransOrd α] [LawfulEqOrd α] {items : List α} (nodup : items.Nodup) :
    (ascending items).length = items.length := by
  have once : (ascending items).Nodup := nodup_of_ascending (ascending_pairwise items)
  exact ((List.perm_ext_iff_of_nodup once nodup).2 fun _ => mem_ascending).length_eq

theorem eq_of_ascending [TransOrd α] {items items' : List α}
    (ascending : items.Pairwise fun a b => compare a b = .lt)
    (ascending' : items'.Pairwise fun a b => compare a b = .lt)
    (same : ∀ x, x ∈ items ↔ x ∈ items') : items = items' := by
  have perm := (List.perm_ext_iff_of_nodup (nodup_of_ascending ascending)
    (nodup_of_ascending ascending')).2 same
  refine perm.eq_of_pairwise (fun a b _ _ less greater => ?_) ascending ascending'
  rw [OrientedOrd.eq_swap, less] at greater
  cases greater

theorem ascending_eq_self [TransOrd α] [LawfulEqOrd α] {items : List α}
    (ordered : items.Pairwise fun a b => compare a b = .lt) : ascending items = items :=
  eq_of_ascending (ascending_pairwise items) ordered fun _ => mem_ascending

end Ascending

end EditScope

import EditScope.Outline.Basic

set_option autoImplicit false

namespace EditScope.Outline

variable {o : Outline}

theorem parent?_of_node {i : o.Id} {p : Nat} (parent : (o.node i).parent = some p) :
    ∃ q : o.Id, o.parent? i = some q ∧ q.val = p := by
  unfold parent?
  split
  · rename_i found
    exact ⟨_, rfl, Option.some.inj (found.symm.trans parent)⟩
  · rename_i none
    simp [none] at parent

theorem node_of_parent? {i p : o.Id} (found : o.parent? i = some p) :
    (o.node i).parent = some p.val := by
  unfold parent? at found
  split at found
  · rename_i parent
    rw [parent, ← Option.some.inj found]
  · simp at found

theorem node_of_root {i : o.Id} (top : o.parent? i = none) : (o.node i).parent = none := by
  unfold parent? at top
  split at top
  · simp at top
  · rename_i parent
    exact parent

theorem enclosing_of_parent? {i p : o.Id} (found : o.parent? i = some p) :
    o.enclosing i = p :: o.enclosing p := by
  rw [enclosing]
  split
  · rename_i found'
    rw [Option.some.inj (found.symm.trans found')]
  · rename_i none
    simp [none] at found

theorem enclosing_of_root {i : o.Id} (top : o.parent? i = none) : o.enclosing i = [] := by
  rw [enclosing]
  split
  · rename_i found
    simp [found] at top
  · rfl

theorem parent?_rootId : o.parent? o.rootId = none := by
  cases found : o.parent? o.rootId with
  | none => rfl
  | some p => exact absurd (o.parent?_lt found) (Nat.not_lt_zero _)

theorem outwards_of_parent? {i p : o.Id} (found : o.parent? i = some p) :
    o.outwards i = i :: o.outwards p := by
  rw [outwards, enclosing_of_parent? found, outwards]

@[elab_as_elim]
theorem outwards_induction {motive : o.Id → Prop} (top : ∀ i, o.parent? i = none → motive i)
    (inner : ∀ i p, o.parent? i = some p → motive p → motive i) (i : o.Id) : motive i := by
  induction len : i.val using Nat.strongRecOn generalizing i with
  | ind _ shorter =>
    cases found : o.parent? i with
    | none => exact top i found
    | some p => exact inner i p found (shorter _ (len ▸ o.parent?_lt found) p rfl)

theorem mem_enclosing_trans {i j k : o.Id} (outer : i ∈ o.enclosing j) (inner : j ∈ o.enclosing k) :
    i ∈ o.enclosing k := by
  induction k using outwards_induction with
  | top k found => simp [enclosing_of_root found] at inner
  | inner k p found ih =>
    rw [enclosing_of_parent? found] at inner ⊢
    rcases List.mem_cons.1 inner with rfl | inner
    · exact List.mem_cons_of_mem _ outer
    · exact List.mem_cons_of_mem _ (ih inner)

theorem lt_of_mem_enclosing {i j : o.Id} (mem : i ∈ o.enclosing j) : i < j := by
  induction j using outwards_induction with
  | top j found => simp [enclosing_of_root found] at mem
  | inner j p found ih =>
    rw [enclosing_of_parent? found] at mem
    have less := o.parent?_lt found
    rcases List.mem_cons.1 mem with rfl | mem
    · exact less
    · exact Nat.lt_trans (ih mem) less

theorem mem_outwards {i j : o.Id} : i ∈ o.outwards j ↔ i = j ∨ i ∈ o.enclosing j := List.mem_cons

end EditScope.Outline

import EditScope.Proofs.Declaration.Laminar

set_option autoImplicit false

namespace EditScope.Declaration

variable {σ : Type}

mutual

def preorder : Declaration σ → List (Declaration σ)
  | mk kind name place members => mk kind name place members :: preorderAll members

def preorderAll : List (Declaration σ) → List (Declaration σ)
  | [] => []
  | d :: ds => d.preorder ++ preorderAll ds

end

theorem preorder_eq (d : Declaration σ) : d.preorder = d :: preorderAll d.members := by
  cases d
  rfl

mutual

theorem length_preorder : ∀ d : Declaration σ, d.preorder.length = d.size
  | mk _ _ _ members => by rw [preorder, List.length_cons, length_preorderAll members, size]

theorem length_preorderAll : ∀ ds : List (Declaration σ), (preorderAll ds).length = sizes ds
  | [] => rfl
  | d :: ds => by
    rw [preorderAll, List.length_append, length_preorder d, length_preorderAll ds, sizes]

end

section Everywhere

variable {P : Declaration σ → Prop}

mutual

theorem everywhere_iff_preorder : ∀ d : Declaration σ, d.Everywhere P ↔ ∀ m ∈ d.preorder, P m
  | mk _ _ _ members => by
    rw [preorder, List.forall_mem_cons, ← everywhereIn_iff_preorder members]
    exact Iff.rfl

theorem everywhereIn_iff_preorder :
    ∀ ds : List (Declaration σ), EverywhereIn P ds ↔ ∀ m ∈ preorderAll ds, P m
  | [] => by simp [EverywhereIn, preorderAll]
  | d :: ds => by
    rw [preorderAll, List.forall_mem_append, ← everywhere_iff_preorder d,
      ← everywhereIn_iff_preorder ds]
    exact Iff.rfl

end

end Everywhere

def row (d : Declaration σ) : Kind × String × σ := (d.kind, d.name, d.place)

section Rows

def Begins (first : Nat) (rows : List (Kind × String × Span)) : Prop :=
  ∀ r ∈ rows.head?, first ≤ r.2.2.start

variable {first first' last : Nat} {ds : List (Declaration Span)}
  {rest rest' : List (Kind × String × Span)}

theorem begins_nil : Begins first [] := by simp [Begins]

theorem row_preorderAll_cons (d : Declaration Span) (ds : List (Declaration Span)) :
    (preorderAll (d :: ds)).map row ++ rest =
      d.row :: ((preorderAll d.members).map row ++ ((preorderAll ds).map row ++ rest)) := by
  rw [preorderAll, preorder_eq]
  simp

theorem LaminarBetween.begins (between : LaminarBetween Span.layout first last ds) (le : first ≤ last)
    (begins : Begins last rest) : Begins first ((preorderAll ds).map row ++ rest) := by
  cases ds with
  | nil => exact fun r mem => Nat.le_trans le (begins r mem)
  | cons d ds =>
    rw [row_preorderAll_cons]
    rintro r ⟨⟩
    exact between.1

theorem LaminarBetween.ne_of_begins {d : Declaration Span}
    (between : LaminarBetween Span.layout first last (d :: ds)) (begins : Begins last rest) :
    rest ≠ (preorderAll (d :: ds)).map row ++ rest' := by
  rintro rfl
  obtain ⟨_, proper, inside, _⟩ := between
  rw [row_preorderAll_cons] at begins
  have after : last ≤ d.place.start := begins _ rfl
  have proper : d.place.start < d.place.stop := proper
  have inside : d.place.stop ≤ last := inside
  omega

-- Rows that go on behind the declaration are carried along: its members end where one starts there.
mutual

theorem Laminar.eq_of_rows_append : ∀ (d d' : Declaration Span)
    {rest rest' : List (Kind × String × Span)}, d.Laminar Span.layout → d'.Laminar Span.layout →
      Begins d.place.stop rest → Begins d'.place.stop rest' →
      d.preorder.map row ++ rest = d'.preorder.map row ++ rest' → d = d' ∧ rest = rest'
  | mk kind name place members, mk kind' name' place' members', _, _, laminar, laminar', begins,
      begins', same => by
    obtain ⟨head, tail⟩ := List.cons.inj same
    cases head
    obtain ⟨rfl, rest⟩ :=
      LaminarBetween.eq_of_rows_append members members' laminar laminar' begins begins' tail
    exact ⟨rfl, rest⟩

theorem LaminarBetween.eq_of_rows_append : ∀ (ds ds' : List (Declaration Span)) {first first' last : Nat}
    {rest rest' : List (Kind × String × Span)}, LaminarBetween Span.layout first last ds →
      LaminarBetween Span.layout first' last ds' → Begins last rest → Begins last rest' →
      (preorderAll ds).map row ++ rest = (preorderAll ds').map row ++ rest' → ds = ds' ∧ rest = rest'
  | [], [], _, _, _, _, _, _, _, _, _, same => ⟨rfl, same⟩
  | [], _ :: _, _, _, _, _, _, _, between', begins, _, same =>
    absurd same (between'.ne_of_begins begins)
  | _ :: _, [], _, _, _, _, _, between, _, _, begins', same =>
    absurd same.symm (between.ne_of_begins begins')
  | d :: ds, d' :: ds', _, _, _, rest, rest', ⟨_, _, inside, inner, more⟩,
      ⟨_, _, inside', inner', more'⟩, begins, begins', same => by
    simp only [preorderAll, List.map_append, List.append_assoc] at same
    obtain ⟨rfl, behind⟩ := Laminar.eq_of_rows_append d d' inner inner' (more.begins inside begins)
      (more'.begins inside' begins') same
    obtain ⟨rfl, rest⟩ := LaminarBetween.eq_of_rows_append ds ds' more more' begins begins' behind
    exact ⟨rfl, rest⟩

end

theorem Laminar.eq_of_rows {d d' : Declaration Span} (laminar : d.Laminar Span.layout)
    (laminar' : d'.Laminar Span.layout) (same : d.preorder.map row = d'.preorder.map row) :
    d = d' := by
  have appended : d.preorder.map row ++ [] = d'.preorder.map row ++ [] := congrArg (· ++ []) same
  exact (Laminar.eq_of_rows_append d d' laminar laminar' begins_nil begins_nil appended).1

end Rows

end EditScope.Declaration

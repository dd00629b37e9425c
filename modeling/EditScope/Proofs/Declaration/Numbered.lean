import EditScope.Proofs.Declaration.Everywhere

set_option autoImplicit false

namespace EditScope

variable {σ τ : Type}

def Declaration.isMethodNamed (name : String) (d : Declaration σ) : Bool :=
  d.kind == .method && d.name == name

namespace Overloads

open Declaration

theorem getElem?_number (seen : List String) (ds : List (Declaration σ)) (k : Nat) :
    (number seen ds)[k]? = ds[k]?.map fun d =>
      if d.kind = .method then
        d.rename (ordinalName d.name
          (seen.count d.name + (ds.take k).countP (isMethodNamed d.name) + 1))
      else d := by
  induction ds generalizing seen k with
  | nil => rfl
  | cons d ds ih =>
    unfold number
    cases k with
    | zero => split <;> simp [*]
    | succ k =>
      split
      · rename_i method
        rw [List.getElem?_cons_succ, List.getElem?_cons_succ, ih, List.take_succ_cons]
        cases ds[k]? with
        | none => rfl
        | some e =>
          simp only [Option.map_some, List.count_cons, List.countP_cons, isMethodNamed, method,
            beq_self_eq_true, Bool.true_and]
          congr 5
          omega
      · rename_i other
        rw [List.getElem?_cons_succ, List.getElem?_cons_succ, ih, List.take_succ_cons]
        cases ds[k]? with
        | none => rfl
        | some e => simp [isMethodNamed, other]

theorem apply_eq_self {ds : List (Declaration σ)} (policy : Overloads)
    (other : ∀ d ∈ ds, d.kind ≠ .method) : policy.apply ds = ds := by
  have numbered : number [] ds = ds := by
    induction ds with
    | nil => rfl
    | cons d ds ih =>
      obtain ⟨first, rest⟩ := List.forall_mem_cons.1 other
      rw [number, if_neg first, ih rest]
  cases policy with
  | merge => rfl
  | ordinal => exact numbered

theorem toString_inj {m n : Nat} (same : toString m = toString n) : m = n := by
  have digits : Nat.toDigits 10 m = Nat.toDigits 10 n := by
    rw [← Nat.toList_repr, ← Nat.toList_repr]
    exact congrArg String.toList same
  have value := congrArg (Nat.ofDigitChars 10 · 0) digits
  simpa only [Nat.ofDigitChars_toDigits (b := 10) (by decide) (by decide)] using value

theorem takeWhile_ordinalName {name : String} (plain : '#' ∉ name.toList) (count : Nat) :
    (ordinalName name count).toList.takeWhile (· != '#') = name.toList := by
  have all : ∀ c ∈ name.toList, (c != '#') = true := by
    intro c mem
    simpa using fun same : c = '#' => plain (same ▸ mem)
  unfold ordinalName
  split
  · rw [← List.append_nil name.toList, List.takeWhile_append_of_pos all, List.takeWhile_nil]
  · rw [String.toList_append, String.toList_append, List.append_assoc,
      List.takeWhile_append_of_pos all]
    simp

theorem ordinalName_inj {f g : String} {m n : Nat} (plain : '#' ∉ f.toList) (plain' : '#' ∉ g.toList)
    (first : 1 ≤ m) (first' : 1 ≤ n) (same : ordinalName f m = ordinalName g n) : f = g ∧ m = n := by
  have names : f = g := by
    rw [← String.toList_inj, ← takeWhile_ordinalName plain m, same, takeWhile_ordinalName plain' n]
  subst names
  refine ⟨rfl, ?_⟩
  -- A name with a number is longer than the name.
  have longer (k : Nat) : f ≠ f ++ "#" ++ toString k := by
    intro eq
    have size := congrArg String.length eq
    have sign : "#".length = 1 := rfl
    simp only [String.length_append, sign] at size
    omega
  unfold ordinalName at same
  split at same <;> split at same
  · omega
  · exact absurd same (longer n)
  · exact absurd same.symm (longer m)
  · exact toString_inj (String.append_right_inj _ |>.1 same)

mutual

def throughout (policy : Overloads) : Declaration σ → Declaration σ
  | .mk kind name place members => .mk kind name place (policy.apply (throughoutAll policy members))

def throughoutAll (policy : Overloads) : List (Declaration σ) → List (Declaration σ)
  | [] => []
  | d :: ds => throughout policy d :: throughoutAll policy ds

end

theorem throughoutAll_eq_map (policy : Overloads) (ds : List (Declaration σ)) :
    throughoutAll policy ds = ds.map (throughout policy) := by
  induction ds with
  | nil => rfl
  | cons d ds ih => rw [throughoutAll, ih, List.map_cons]

theorem kind_throughout (policy : Overloads) (d : Declaration σ) :
    (throughout policy d).kind = d.kind := by
  cases d
  rfl

theorem name_throughout (policy : Overloads) (d : Declaration σ) :
    (throughout policy d).name = d.name := by
  cases d
  rfl

mutual

theorem throughout_mapPlace (policy : Overloads) (f : σ → τ) : ∀ d : Declaration σ,
    throughout policy (d.mapPlace f) = (throughout policy d).mapPlace f
  | .mk _ _ _ members => by
    rw [mapPlace, throughout, throughoutAll_mapPlaces policy f members, mapPlaces_eq_map, apply_map,
      throughout, mapPlace, mapPlaces_eq_map]

theorem throughoutAll_mapPlaces (policy : Overloads) (f : σ → τ) : ∀ ds : List (Declaration σ),
    throughoutAll policy (mapPlaces f ds) = mapPlaces f (throughoutAll policy ds)
  | [] => rfl
  | d :: ds => by
    rw [mapPlaces, throughoutAll, throughout_mapPlace policy f d, throughoutAll_mapPlaces policy f ds,
      throughoutAll, mapPlaces]

end

theorem map_apply {α : Type} (f : Declaration σ → α) (kept : ∀ d name, f (d.rename name) = f d)
    (policy : Overloads) (ds : List (Declaration σ)) : (policy.apply ds).map f = ds.map f := by
  have numbered (seen : List String) : (number seen ds).map f = ds.map f := by
    induction ds generalizing seen with
    | nil => rfl
    | cons d ds ih =>
      unfold number
      split
      · rw [List.map_cons, ih, List.map_cons, kept]
      · rw [List.map_cons, ih, List.map_cons]
  cases policy with
  | merge => rfl
  | ordinal => exact numbered []

theorem map_size_apply (policy : Overloads) (ds : List (Declaration σ)) :
    (policy.apply ds).map size = ds.map size := by
  refine map_apply size (fun d name => ?_) policy ds
  cases d
  rfl

theorem sizes_eq_foldr (ds : List (Declaration σ)) : sizes ds = (ds.map size).foldr (· + ·) 0 := by
  induction ds with
  | nil => rfl
  | cons d ds ih => rw [sizes, ih, List.map_cons, List.foldr_cons]

mutual

theorem size_throughout (policy : Overloads) : ∀ d : Declaration σ, (throughout policy d).size = d.size
  | .mk _ _ _ members => by
    rw [throughout, size, size, sizes_eq_foldr, map_size_apply, map_size_throughoutAll policy members,
      sizes_eq_foldr]

theorem map_size_throughoutAll (policy : Overloads) : ∀ ds : List (Declaration σ),
    (throughoutAll policy ds).map size = ds.map size
  | [] => rfl
  | d :: ds => by
    rw [throughoutAll, List.map_cons, size_throughout policy d, map_size_throughoutAll policy ds,
      List.map_cons]

end

structure Numbered (policy : Overloads) (d d' : Declaration σ) : Prop where
  kind : d'.kind = d.kind
  place : d'.place = d.place
  members : d'.members = policy.apply (throughoutAll policy d.members)
  name : d.kind ≠ .method → d'.name = d.name
  ordinal : ∃ count, d'.name = ordinalName d.name count ∧ (policy = .merge → count = 1)

variable {policy : Overloads} {d d' : Declaration σ}

theorem numbered_throughout (policy : Overloads) (d : Declaration σ) :
    Numbered policy d (throughout policy d) := by
  obtain ⟨kind, name, place, members⟩ := d
  exact ⟨rfl, rfl, rfl, fun _ => rfl, 1, rfl, fun _ => rfl⟩

theorem Numbered.size_eq (numbered : Numbered policy d d') : d'.size = d.size := by
  obtain ⟨kind, name, place, members⟩ := d
  obtain ⟨kind', name', place', members'⟩ := d'
  have same : members' = policy.apply (throughoutAll policy members) := numbered.members
  rw [size, size, same, sizes_eq_foldr, map_size_apply, map_size_throughoutAll, sizes_eq_foldr]

theorem exists_numbered (policy : Overloads) {ds : List (Declaration σ)} {k : Nat}
    (here : ds[k]? = some d) :
    ∃ d', (policy.apply (throughoutAll policy ds))[k]? = some d' ∧ Numbered policy d d' ∧
      (policy = .ordinal → d.kind = .method →
        d'.name = ordinalName d.name ((ds.take k).countP (isMethodNamed d.name) + 1)) := by
  have whole := numbered_throughout policy d
  rw [throughoutAll_eq_map]
  cases policy with
  | merge => exact ⟨throughout .merge d, by simp [apply, here], whole, nofun⟩
  | ordinal =>
    have alike (name : String) :
        isMethodNamed name ∘ throughout .ordinal = isMethodNamed (σ := σ) name := by
      funext e
      simp [isMethodNamed, kind_throughout, name_throughout]
    simp only [apply, getElem?_number, List.getElem?_map, here, Option.map_some, kind_throughout,
      name_throughout, List.count_nil, Nat.zero_add, ← List.map_take, List.countP_map, alike]
    by_cases method : d.kind = .method
    · rw [if_pos method]
      exact ⟨_, rfl, ⟨whole.kind, whole.place, whole.members, fun other => absurd method other, _, rfl,
        nofun⟩, fun _ _ => rfl⟩
    · rw [if_neg method]
      exact ⟨_, rfl, whole, fun _ same => absurd same method⟩

end Overloads

end EditScope

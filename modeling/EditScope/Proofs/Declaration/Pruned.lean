import EditScope.Proofs.Declaration.Everywhere

set_option autoImplicit false

namespace EditScope

namespace Declaration

variable {σ τ : Type}

def prune : Nat → Declaration σ → Declaration σ
  | 0, d => mk d.kind d.name d.place []
  | depth + 1, d => mk d.kind d.name d.place (d.members.map (prune depth))

theorem prune_leaf (depth : Nat) (kind : Kind) (name : String) (place : σ) :
    (mk kind name place []).prune depth = mk kind name place [] := by
  cases depth <;> rfl

theorem prune_mapPlace (f : σ → τ) (depth : Nat) (d : Declaration σ) :
    (d.mapPlace f).prune depth = (d.prune depth).mapPlace f := by
  induction depth generalizing d with
  | zero =>
    cases d
    rfl
  | succ depth ih =>
    obtain ⟨kind, name, place, members⟩ := d
    have same : prune depth ∘ mapPlace f = mapPlace f ∘ prune depth := funext ih
    simp only [prune, mapPlace, mapPlaces_eq_map, Declaration.kind, Declaration.name, Declaration.place,
      Declaration.members, List.map_map, same]

end Declaration

theorem Overloads.keepsNames_prune {σ : Type} (depth : Nat) :
    KeepsNames (Declaration.prune (σ := σ) depth) where
  kind d := by cases depth <;> rfl
  name d := by cases depth <;> rfl
  rename d name := by cases depth <;> rfl

end EditScope

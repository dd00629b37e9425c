import EditScope.Declaration.Basic

set_option autoImplicit false

namespace EditScope

namespace Declaration

variable {σ τ υ : Type}

mutual

def Everywhere (P : Declaration σ → Prop) : Declaration σ → Prop
  | mk kind name place members => P (mk kind name place members) ∧ EverywhereIn P members

def EverywhereIn (P : Declaration σ → Prop) : List (Declaration σ) → Prop
  | [] => True
  | d :: ds => d.Everywhere P ∧ EverywhereIn P ds

end

variable {P Q : Declaration σ → Prop} {d : Declaration σ} {ds : List (Declaration σ)}

theorem everywhere_iff : d.Everywhere P ↔ P d ∧ EverywhereIn P d.members := by
  cases d
  rfl

theorem everywhereIn_iff : EverywhereIn P ds ↔ ∀ d ∈ ds, d.Everywhere P := by
  induction ds with
  | nil => simp [EverywhereIn]
  | cons d ds ih => simp [EverywhereIn, ih]

theorem Everywhere.members (all : d.Everywhere P) : ∀ m ∈ d.members, m.Everywhere P :=
  everywhereIn_iff.1 (everywhere_iff.1 all).2

mutual

theorem Everywhere.imp (le : ∀ d, P d → Q d) :
    ∀ d : Declaration σ, d.Everywhere P → d.Everywhere Q
  | mk _ _ _ members, ⟨here, inner⟩ => ⟨le _ here, EverywhereIn.imp le members inner⟩

theorem EverywhereIn.imp (le : ∀ d, P d → Q d) :
    ∀ ds : List (Declaration σ), EverywhereIn P ds → EverywhereIn Q ds
  | [], _ => trivial
  | d :: ds, ⟨here, rest⟩ => ⟨Everywhere.imp le d here, EverywhereIn.imp le ds rest⟩

end

mutual

theorem Everywhere.and : ∀ d : Declaration σ, d.Everywhere P → d.Everywhere Q →
    d.Everywhere (fun d => P d ∧ Q d)
  | mk _ _ _ members, ⟨here, inner⟩, ⟨here', inner'⟩ =>
    ⟨⟨here, here'⟩, EverywhereIn.and members inner inner'⟩

theorem EverywhereIn.and : ∀ ds : List (Declaration σ), EverywhereIn P ds → EverywhereIn Q ds →
    EverywhereIn (fun d => P d ∧ Q d) ds
  | [], _, _ => trivial
  | d :: ds, ⟨here, rest⟩, ⟨here', rest'⟩ =>
    ⟨Everywhere.and d here here', EverywhereIn.and ds rest rest'⟩

end

theorem mapPlaces_eq_map (f : σ → τ) (ds : List (Declaration σ)) :
    mapPlaces f ds = ds.map (mapPlace f) := by
  induction ds with
  | nil => rfl
  | cons d ds ih => rw [mapPlaces, ih, List.map_cons]

mutual

theorem mapPlace_congr {f g : σ → τ} :
    ∀ d : Declaration σ, d.Everywhere (fun d => f d.place = g d.place) → d.mapPlace f = d.mapPlace g
  | mk _ _ place members, ⟨here, inner⟩ => by
    have here : f place = g place := here
    rw [mapPlace, mapPlace, mapPlaces_congr members inner, here]

theorem mapPlaces_congr {f g : σ → τ} :
    ∀ ds : List (Declaration σ), EverywhereIn (fun d => f d.place = g d.place) ds →
      mapPlaces f ds = mapPlaces g ds
  | [], _ => rfl
  | d :: ds, ⟨here, rest⟩ => by
    rw [mapPlaces, mapPlaces, mapPlace_congr d here, mapPlaces_congr ds rest]

end

mutual

theorem mapPlace_mapPlace (f : σ → τ) (g : τ → υ) :
    ∀ d : Declaration σ, (d.mapPlace f).mapPlace g = d.mapPlace (g ∘ f)
  | mk _ _ _ members => by
    rw [mapPlace, mapPlace, mapPlaces_mapPlaces f g members, mapPlace]
    rfl

theorem mapPlaces_mapPlaces (f : σ → τ) (g : τ → υ) :
    ∀ ds : List (Declaration σ), mapPlaces g (mapPlaces f ds) = mapPlaces (g ∘ f) ds
  | [] => rfl
  | d :: ds => by
    rw [mapPlaces, mapPlaces, mapPlaces, mapPlace_mapPlace f g d, mapPlaces_mapPlaces f g ds]

end

mutual

theorem everywhere_mapPlace {f : σ → τ} {P : Declaration τ → Prop} :
    ∀ d : Declaration σ, (d.mapPlace f).Everywhere P ↔ d.Everywhere (fun d => P (d.mapPlace f))
  | mk _ _ _ members => and_congr Iff.rfl (everywhereIn_mapPlaces members)

theorem everywhereIn_mapPlaces {f : σ → τ} {P : Declaration τ → Prop} :
    ∀ ds : List (Declaration σ),
      EverywhereIn P (mapPlaces f ds) ↔ EverywhereIn (fun d => P (d.mapPlace f)) ds
  | [] => Iff.rfl
  | d :: ds => and_congr (everywhere_mapPlace d) (everywhereIn_mapPlaces ds)

end

end Declaration

namespace Overloads

open Declaration

variable {σ τ : Type}

structure KeepsNames (g : Declaration σ → Declaration τ) : Prop where
  kind (d : Declaration σ) : (g d).kind = d.kind
  name (d : Declaration σ) : (g d).name = d.name
  rename (d : Declaration σ) (name : String) : g (d.rename name) = (g d).rename name

theorem number_map {g : Declaration σ → Declaration τ} (keeps : KeepsNames g) (seen : List String)
    (ds : List (Declaration σ)) : number seen (ds.map g) = (number seen ds).map g := by
  induction ds generalizing seen with
  | nil => rfl
  | cons d ds ih =>
    rw [List.map_cons, number, number, keeps.kind, keeps.name]
    split
    · rw [List.map_cons, keeps.rename, ih]
    · rw [List.map_cons, ih]

theorem KeepsNames.apply_map {g : Declaration σ → Declaration τ} (keeps : KeepsNames g)
    (policy : Overloads) (ds : List (Declaration σ)) :
    policy.apply (ds.map g) = (policy.apply ds).map g := by
  cases policy with
  | merge => rfl
  | ordinal => exact number_map keeps [] ds

theorem keepsNames_mapPlace (f : σ → τ) : KeepsNames (mapPlace f) where
  kind d := by cases d; rfl
  name d := by cases d; rfl
  rename d name := by cases d; rfl

theorem apply_map (policy : Overloads) (f : σ → τ) (ds : List (Declaration σ)) :
    policy.apply (ds.map (mapPlace f)) = (policy.apply ds).map (mapPlace f) :=
  (keepsNames_mapPlace f).apply_map policy ds

theorem everywhereIn_apply {P : Declaration σ → Prop} (renamed : ∀ d name, P d → P (d.rename name))
    (policy : Overloads) {ds : List (Declaration σ)} (all : EverywhereIn P ds) :
    EverywhereIn P (policy.apply ds) := by
  have numbered (seen : List String) : EverywhereIn P (number seen ds) := by
    induction ds generalizing seen with
    | nil => trivial
    | cons d ds ih =>
      obtain ⟨here, rest⟩ := all
      unfold number
      split
      · refine ⟨?_, ih rest _⟩
        obtain ⟨here, inner⟩ := everywhere_iff.1 here
        exact everywhere_iff.2 ⟨renamed d _ here, inner⟩
      · exact ⟨here, ih rest _⟩
  cases policy with
  | merge => exact all
  | ordinal => exact numbered []

end Overloads

end EditScope

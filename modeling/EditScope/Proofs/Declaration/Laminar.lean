import EditScope.Proofs.Declaration.Everywhere

set_option autoImplicit false

namespace EditScope

structure Layout (σ : Type) where
  low : σ → Nat
  high : σ → Nat
  proper : σ → Prop

def Span.layout : Layout Span := ⟨Span.start, Span.stop, fun s => s.start < s.stop⟩

structure Layout.Embeds {σ τ : Type} (L : Layout σ) (M : Layout τ) (f : σ → τ) : Prop where
  low_le {p q : σ} : L.low p ≤ L.low q → M.low (f p) ≤ M.low (f q)
  high_le {p q : σ} : L.high p ≤ L.high q → M.high (f p) ≤ M.high (f q)
  apart {p q : σ} : L.high p ≤ L.low q → M.high (f p) ≤ M.low (f q)
  proper {p : σ} : L.proper p → M.proper (f p)

namespace Declaration

variable {σ τ : Type}

@[simp] theorem place_mapPlace (f : σ → τ) (d : Declaration σ) :
    (d.mapPlace f).place = f d.place := by
  cases d
  rfl

variable (L : Layout σ)

mutual

def Laminar : Declaration σ → Prop
  | mk _ _ place members => LaminarBetween (L.low place) (L.high place) members

def LaminarBetween : Nat → Nat → List (Declaration σ) → Prop
  | _, _, [] => True
  | first, last, d :: ds =>
    first ≤ L.low d.place ∧ L.proper d.place ∧ L.high d.place ≤ last ∧ Laminar d ∧
      LaminarBetween (L.high d.place) last ds

end

variable {L}

theorem LaminarBetween.mono {first first' last last' : Nat} {ds : List (Declaration σ)}
    (between : LaminarBetween L first last ds) (earlier : first' ≤ first) (later : last ≤ last') :
    LaminarBetween L first' last' ds := by
  induction ds generalizing first first' with
  | nil => trivial
  | cons d ds ih =>
    obtain ⟨after, proper, inside, inner, rest⟩ := between
    exact ⟨Nat.le_trans earlier after, proper, Nat.le_trans inside later, inner,
      ih rest (Nat.le_refl _)⟩

mutual

theorem Laminar.proper_below : ∀ d : Declaration σ, d.Laminar L →
    EverywhereIn (fun d => L.proper d.place) d.members
  | mk _ _ _ members, laminar => LaminarBetween.proper members laminar

theorem LaminarBetween.proper : ∀ (ds : List (Declaration σ)) {first last : Nat},
    LaminarBetween L first last ds → EverywhereIn (fun d => L.proper d.place) ds
  | [], _, _, _ => trivial
  | d :: ds, _, _, ⟨_, proper, _, inner, rest⟩ =>
    ⟨everywhere_iff.2 ⟨proper, Laminar.proper_below d inner⟩, LaminarBetween.proper ds rest⟩

end

theorem LaminarBetween.concat {first mid last : Nat} {ds : List (Declaration σ)} {d : Declaration σ}
    (between : LaminarBetween L first mid ds) (le : first ≤ mid) (after : mid ≤ L.low d.place)
    (proper : L.proper d.place) (inside : L.high d.place ≤ last) (wider : mid ≤ last)
    (inner : d.Laminar L) : LaminarBetween L first last (ds ++ [d]) := by
  induction ds generalizing first with
  | nil => exact ⟨Nat.le_trans le after, proper, inside, inner, trivial⟩
  | cons e ds ih =>
    obtain ⟨afterE, properE, insideE, innerE, rest⟩ := between
    exact ⟨afterE, properE, Nat.le_trans insideE wider, innerE, ih rest insideE⟩

theorem LaminarBetween.laminar {first last : Nat} {ds : List (Declaration σ)}
    (between : LaminarBetween L first last ds) {d : Declaration σ} (mem : d ∈ ds) :
    d.Laminar L := by
  induction ds generalizing first with
  | nil => simp at mem
  | cons e ds ih =>
    obtain ⟨_, _, _, inner, rest⟩ := between
    rcases List.mem_cons.1 mem with rfl | mem
    · exact inner
    · exact ih rest mem

theorem Laminar.members {d : Declaration σ} (laminar : d.Laminar L) :
    LaminarBetween L (L.low d.place) (L.high d.place) d.members := by
  cases d
  exact laminar

theorem Laminar.rename {d : Declaration σ} (laminar : d.Laminar L) (name : String) :
    (d.rename name).Laminar L := by
  cases d
  exact laminar

theorem LaminarBetween.number {first last : Nat} {ds : List (Declaration σ)}
    (between : LaminarBetween L first last ds) (seen : List String) :
    LaminarBetween L first last (Overloads.number seen ds) := by
  induction ds generalizing first seen with
  | nil => trivial
  | cons d ds ih =>
    obtain ⟨after, proper, inside, inner, rest⟩ := between
    unfold Overloads.number
    split
    · exact ⟨after, proper, inside, inner.rename _, ih rest _⟩
    · exact ⟨after, proper, inside, inner, ih rest _⟩

theorem LaminarBetween.overloads {first last : Nat} {ds : List (Declaration σ)}
    (between : LaminarBetween L first last ds) (policy : Overloads) :
    LaminarBetween L first last (policy.apply ds) := by
  cases policy with
  | merge => exact between
  | ordinal => exact between.number []

theorem LaminarBetween.bounds {first last : Nat} {ds : List (Declaration Span)}
    (between : LaminarBetween Span.layout first last ds) {d : Declaration Span} (mem : d ∈ ds) :
    first ≤ d.place.start ∧ d.place.start < d.place.stop ∧ d.place.stop ≤ last := by
  induction ds generalizing first with
  | nil => simp at mem
  | cons e ds ih =>
    obtain ⟨after, proper, inside, _, rest⟩ := between
    rcases List.mem_cons.1 mem with rfl | mem
    · exact ⟨after, proper, inside⟩
    · obtain ⟨later, bounds⟩ := ih rest mem
      exact ⟨Nat.le_trans after (Nat.le_trans (Nat.le_of_lt proper) later), bounds⟩

theorem LaminarBetween.apart {first last : Nat} {ds : List (Declaration Span)}
    (between : LaminarBetween Span.layout first last ds) :
    ds.Pairwise fun d e => d.place.stop ≤ e.place.start := by
  induction ds generalizing first with
  | nil => exact .nil
  | cons d ds ih =>
    obtain ⟨_, _, _, _, rest⟩ := between
    exact List.pairwise_cons.2 ⟨fun e mem => (rest.bounds mem).1, ih rest⟩

end Declaration

namespace Layout.Embeds

open Declaration

variable {σ τ : Type} {L : Layout σ} {M : Layout τ} {f : σ → τ}

mutual

theorem laminar (embeds : L.Embeds M f) :
    ∀ d : Declaration σ, d.Laminar L → (d.mapPlace f).Laminar M
  | .mk _ _ _ members, between =>
    between_mapPlaces embeds members embeds.low_le embeds.high_le between

-- The bounds of the list are the ends of other places, so they are only known by what they bound.
theorem between_mapPlaces (embeds : L.Embeds M f) {first last first' last' : Nat} :
    ∀ ds : List (Declaration σ),
      (∀ {q}, first ≤ L.low q → first' ≤ M.low (f q)) →
      (∀ {q}, L.high q ≤ last → M.high (f q) ≤ last') →
      LaminarBetween L first last ds → LaminarBetween M first' last' (mapPlaces f ds)
  | [], _, _, _ => trivial
  | d :: ds, above, below, ⟨after, proper, inside, inner, rest⟩ => by
    simp only [mapPlaces, LaminarBetween, place_mapPlace]
    exact ⟨above after, embeds.proper proper, below inside, laminar embeds d inner,
      between_mapPlaces embeds ds embeds.apart below rest⟩

end

end Layout.Embeds

end EditScope

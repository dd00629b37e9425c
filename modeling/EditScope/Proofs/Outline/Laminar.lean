import EditScope.Proofs.Outline.Enclosing
import EditScope.Proofs.Outline.Placement
import EditScope.Proofs.Outline.Resolved
import EditScope.Proofs.Outline.Sound

set_option autoImplicit false

namespace EditScope.Outline

structure Laminar (o : Outline) : Prop where
  inside (id : o.Id) : id ≠ o.rootId → ∃ p, o.parent? id = some p ∧
    (o.node p).span.start ≤ (o.node id).span.start ∧ (o.node id).span.stop ≤ (o.node p).span.stop
  nonempty (id : o.Id) : id ≠ o.rootId → (o.node id).span.start < (o.node id).span.stop
  siblings (id : o.Id) (k c c' : Nat) : (o.node id).children[k]? = some c →
    (o.node id).children[k + 1]? = some c' →
    ∃ first second : o.Id, first.val = c ∧ second.val = c' ∧
      (o.node first).span.stop ≤ (o.node second).span.start
  apart (i j : o.Id) : i < j →
    i ∈ o.enclosing j ∨ (o.node i).span.stop ≤ (o.node j).span.start

def Enclosed (o : Outline) : Prop :=
  ∀ id : o.Id, id ≠ o.rootId → ∃ p, o.parent? id = some p ∧
    (o.node p).span.start ≤ (o.node id).span.start ∧ (o.node id).span.stop ≤ (o.node p).span.stop

variable {o : Outline} {parent : Option Nat} {id : Nat} {d : Declaration Span} {i j : o.Id}

theorem ne_root_of_parent? {p : o.Id} (found : o.parent? i = some p) : i ≠ o.rootId := by
  rintro rfl
  exact absurd (o.parent?_lt found) (Nat.not_lt_zero _)

namespace Enclosed

variable (enclosed : o.Enclosed)

include enclosed

theorem eq_root_of_parent? (top : o.parent? i = none) : i = o.rootId := by
  by_cases root : i = o.rootId
  · exact root
  · obtain ⟨p, found, _⟩ := enclosed i root
    simp [found] at top

theorem within_of_enclosing (mem : i ∈ o.enclosing j) :
    (o.node i).span.start ≤ (o.node j).span.start ∧
      (o.node j).span.stop ≤ (o.node i).span.stop := by
  induction j using outwards_induction with
  | top j found => simp [enclosing_of_root found] at mem
  | inner j p found ih =>
    obtain ⟨q, found', low, high⟩ := enclosed j (ne_root_of_parent? found)
    cases Option.some.inj (found.symm.trans found')
    rw [enclosing_of_parent? found] at mem
    rcases List.mem_cons.1 mem with rfl | mem
    · exact ⟨low, high⟩
    · exact ⟨Nat.le_trans (ih mem).1 low, Nat.le_trans high (ih mem).2⟩

end Enclosed

namespace Laminar

variable (laminar : o.Laminar)

include laminar

theorem eq_root_of_parent? (top : o.parent? i = none) : i = o.rootId :=
  Enclosed.eq_root_of_parent? laminar.inside top

theorem within_of_enclosing (mem : i ∈ o.enclosing j) :
    (o.node i).span.start ≤ (o.node j).span.start ∧
      (o.node j).span.stop ≤ (o.node i).span.stop :=
  Enclosed.within_of_enclosing laminar.inside mem

theorem root_mem_enclosing (inner : j ≠ o.rootId) : o.rootId ∈ o.enclosing j := by
  induction j using outwards_induction with
  | top j found => exact absurd (laminar.eq_root_of_parent? found) inner
  | inner j p found ih =>
    rw [enclosing_of_parent? found]
    by_cases root : p = o.rootId
    · simp [root]
    · exact List.mem_cons_of_mem _ (ih root)

theorem start_mono (le : i ≤ j) : (o.node i).span.start ≤ (o.node j).span.start := by
  rcases Nat.eq_or_lt_of_le le with same | less
  · exact Nat.le_of_eq (by rw [Fin.ext same])
  rcases laminar.apart i j less with mem | apart
  · exact (laminar.within_of_enclosing mem).1
  by_cases root : i = o.rootId
  · have inner : j ≠ o.rootId := fun same => by simp [same, rootId] at less
    exact (laminar.within_of_enclosing (root ▸ laminar.root_mem_enclosing inner)).1
  · exact Nat.le_trans (Nat.le_of_lt (laminar.nonempty i root)) apart

theorem start_le_stop (i : o.Id) (zero : o.root.span.start = 0) :
    (o.node i).span.start ≤ (o.node i).span.stop := by
  by_cases root : i = o.rootId
  · have start : (o.node i).span.start = 0 := root ▸ zero
    omega
  · exact Nat.le_of_lt (laminar.nonempty i root)

theorem leaf_cases (zero : o.root.span.start = 0) (leaf : ∀ j, i ∉ o.enclosing j) (j : o.Id) :
    j = i ∨
      (o.node j).span.start ≤ (o.node i).span.start ∧ (o.node i).span.stop ≤ (o.node j).span.stop ∨
      (o.node j).span.start ≤ (o.node j).span.stop ∧ (o.node j).span.stop ≤ (o.node i).span.start ∨
      i < j ∧ (o.node i).span.stop ≤ (o.node j).span.start ∧
        (o.node j).span.start ≤ (o.node j).span.stop := by
  have proper := laminar.start_le_stop j zero
  rcases Nat.lt_trichotomy j.val i.val with less | same | more
  · rcases laminar.apart j i less with mem | apart
    · exact .inr (.inl (laminar.within_of_enclosing mem))
    · exact .inr (.inr (.inl ⟨proper, apart⟩))
  · exact .inl (Fin.ext same)
  · exact .inr (.inr (.inr ⟨more, (laminar.apart i j more).resolve_left (leaf j), proper⟩))

end Laminar

mutual

theorem within_below (parent : Option Nat) (id : Nat) : ∀ d : Declaration Span,
    o.Holds parent id d → d.Laminar Span.layout → ∀ j : o.Id, id < j.val → j.val < id + d.size →
      d.place.start ≤ (o.node j).span.start ∧ (o.node j).span.stop ≤ d.place.stop ∧
        ∃ r ∈ o.enclosing j, r.val = id
  | .mk kind name span members, holds, laminar, j, low, high => by
    refine within_among id (id + 1) members _ _ holds.members laminar.members j low ?_
    simp only [Declaration.size] at high
    omega

theorem within_among (p id : Nat) : ∀ (ds : List (Declaration Span)) (first last : Nat),
    o.HoldsAll (some p) id ds → Declaration.LaminarBetween Span.layout first last ds →
      ∀ j : o.Id, id ≤ j.val → j.val < id + Declaration.sizes ds →
        first ≤ (o.node j).span.start ∧ (o.node j).span.stop ≤ last ∧
          ∃ r ∈ o.enclosing j, r.val = p
  | [], _, _, _, _, j, low, high => by
    simp only [Declaration.sizes] at high
    omega
  | d :: ds, first, last, holds, ⟨after, proper, inside, inner, rest⟩, j, low, high => by
    simp only [Declaration.sizes] at high
    have top {i : o.Id} (here : i.val = id) : ∃ r ∈ o.enclosing i, r.val = p := by
      have parent : (o.node i).parent = some p := by rw [Holds.node_eq (here ▸ holds.head)]
      obtain ⟨q, found, same⟩ := parent?_of_node parent
      exact ⟨q, by simp [enclosing_of_parent? found], same⟩
    rcases Nat.lt_trichotomy j.val id with less | here | more
    · omega
    · rw [Holds.node_eq (here ▸ holds.head)]
      exact ⟨after, inside, top here⟩
    · by_cases here : j.val < id + d.size
      · obtain ⟨low', high', r, mem, same⟩ := within_below (some p) id d holds.head inner j more here
        obtain ⟨q, outer, same'⟩ := top same
        exact ⟨Nat.le_trans after low', Nat.le_trans high' inside, q,
          mem_enclosing_trans outer mem, same'⟩
      · obtain ⟨low', rest'⟩ := within_among p (id + d.size) ds _ _ holds.tail rest j (by omega)
          (by omega)
        have proper : d.place.start < d.place.stop := proper
        exact ⟨Nat.le_trans after (Nat.le_trans (Nat.le_of_lt proper) low'), rest'⟩

end

mutual

theorem apart_below (parent : Option Nat) (id : Nat) : ∀ d : Declaration Span,
    o.Holds parent id d → d.Laminar Span.layout → ∀ i j : o.Id, id ≤ i.val → i < j →
      j.val < id + d.size → i ∈ o.enclosing j ∨ (o.node i).span.stop ≤ (o.node j).span.start
  | .mk kind name span members, holds, laminar, i, j, low, less, high => by
    have less : i.val < j.val := less
    rcases Nat.eq_or_lt_of_le low with here | more
    · obtain ⟨_, _, r, mem, same⟩ := within_below parent id _ holds laminar j (by omega) high
      exact .inl (Fin.ext (same.trans here) ▸ mem)
    · simp only [Declaration.size] at high
      exact apart_among id (id + 1) members _ _ holds.members laminar.members i j more less (by omega)

theorem apart_among (p id : Nat) : ∀ (ds : List (Declaration Span)) (first last : Nat),
    o.HoldsAll (some p) id ds → Declaration.LaminarBetween Span.layout first last ds →
      ∀ i j : o.Id, id ≤ i.val → i < j → j.val < id + Declaration.sizes ds →
        i ∈ o.enclosing j ∨ (o.node i).span.stop ≤ (o.node j).span.start
  | [], _, _, _, _, i, j, low, less, high => by
    have less : i.val < j.val := less
    simp only [Declaration.sizes] at high
    omega
  | d :: ds, first, last, holds, ⟨after, proper, inside, inner, rest⟩, i, j, low, less, high => by
    have order : i.val < j.val := less
    simp only [Declaration.sizes] at high
    by_cases both : j.val < id + d.size
    · exact apart_below (some p) id d holds.head inner i j low less both
    by_cases neither : id + d.size ≤ i.val
    · exact apart_among p (id + d.size) ds _ _ holds.tail rest i j neither less (by omega)
    -- The first lies in `d`, and so ends with it; the second starts after it.
    · have later := (within_among p (id + d.size) ds _ _ holds.tail rest j (by omega) (by omega)).1
      have ends : (o.node i).span.stop ≤ d.place.stop := by
        rcases Nat.eq_or_lt_of_le low with here | more
        · exact Nat.le_of_eq (by rw [Holds.node_eq (here ▸ holds.head)])
        · exact (within_below (some p) id d holds.head inner i more (by omega)).2.1
      exact .inr (Nat.le_trans ends later)

end

theorem laminar_members (d : Declaration Span) (laminar : d.Laminar Span.layout) :
    ∀ m ∈ d.members, m.Laminar Span.layout :=
  fun _ mem => laminar.members.laminar mem

theorem exists_holds_laminar (laminar : d.Laminar Span.layout) (i : (ofDeclaration d).Id) :
    ∃ parent m, (ofDeclaration d).Holds parent i m ∧ m.Laminar Span.layout :=
  exists_holds_at laminar_members laminar i

theorem exists_parent (laminar : d.Laminar Span.layout) (i : (ofDeclaration d).Id)
    (inner : i ≠ (ofDeclaration d).rootId) :
    ∃ p m outer, (ofDeclaration d).parent? i = some p ∧ ((ofDeclaration d).node i).span = m ∧
      ((ofDeclaration d).node p).span = outer ∧ outer.start ≤ m.start ∧ m.start < m.stop ∧
      m.stop ≤ outer.stop := by
  have below : i.val ≠ 0 := fun top => inner (Fin.ext top)
  obtain ⟨parent, m, holds, _, p, outer, outerParent, rfl, above, between, mem⟩ :=
    exists_holds laminar_members laminar i below
  obtain ⟨q, found, rfl⟩ := parent?_of_node (i := i) (p := p) (by rw [holds.node_eq])
  exact ⟨q, m.place, outer.place, found, by rw [holds.node_eq], by rw [above.node_eq],
    between.members.bounds mem⟩

theorem ofDeclaration_laminar (laminar : d.Laminar Span.layout) : (ofDeclaration d).Laminar where
  inside i inner := by
    obtain ⟨p, _, _, found, rfl, rfl, low, _, high⟩ := exists_parent laminar i inner
    exact ⟨p, found, low, high⟩
  nonempty i inner := by
    obtain ⟨_, _, _, _, rfl, _, _, proper, _⟩ := exists_parent laminar i inner
    exact proper
  siblings i k c c' first second := by
    obtain ⟨_, m, holds, inner⟩ := exists_holds_laminar laminar i
    rw [holds.node_eq] at first second
    obtain ⟨e, here, heldE⟩ := holds.members.sibling first
    obtain ⟨e', there, heldE'⟩ := holds.members.sibling second
    obtain ⟨x, rfl⟩ := heldE.exists_id
    obtain ⟨y, rfl⟩ := heldE'.exists_id
    obtain ⟨inE, rfl⟩ := List.getElem?_eq_some_iff.1 here
    obtain ⟨inE', rfl⟩ := List.getElem?_eq_some_iff.1 there
    refine ⟨x, y, rfl, rfl, ?_⟩
    rw [heldE.node_eq, heldE'.node_eq]
    exact List.pairwise_iff_getElem.1 inner.members.apart k (k + 1) inE inE' (Nat.lt_succ_self k)
  apart i j less := by
    refine apart_below none 0 d (ofDeclaration_holds d) laminar i j (Nat.zero_le _) less ?_
    have bound := j.isLt
    have size := ofDeclaration_size d
    omega

theorem fits_of_laminar {i : Nat} (laminar : d.Laminar Span.layout)
    (proper : i ≠ 0 → d.place.start < d.place.stop) : d.Fits i := by
  have bounds {m : Declaration Span} (mem : m ∈ d.members) := laminar.members.bounds mem
  refine ⟨⟨fun m mem => ⟨(bounds mem).1, (bounds mem).2.2⟩, ?_⟩, proper⟩
  refine laminar.members.apart.imp_of_mem fun mem _ apart => ?_
  exact Nat.le_trans (Nat.le_of_lt (bounds mem).2.1) apart

theorem ofDeclaration_isSound (laminar : d.Laminar Span.layout) (i : (ofDeclaration d).Id) :
    (ofDeclaration d).isSound i = true := by
  obtain ⟨_, m, holds, inner⟩ := exists_holds_laminar laminar i
  refine holds.isSound_iff.2 (fits_of_laminar inner fun below => ?_)
  have proper := (ofDeclaration_laminar laminar).nonempty i fun top => below (congrArg Fin.val top)
  rwa [holds.node_eq] at proper

theorem ofDeclaration_isConsistent (laminar : d.Laminar Span.layout) :
    (ofDeclaration d).isConsistent = true := by
  rw [isConsistent, firstFault?_eq_none_iff.2 (ofDeclaration_isSound laminar)]
  rfl

theorem laminar_of_source (settings : OutlineSettings) (fallback : Option String)
    (source : List UInt8) : (Outline.ofSource settings fallback source).1.Laminar :=
  ofDeclaration_laminar (declared_laminar settings fallback (some nestingLimit) source)

theorem ofSource_laminar (settings : OutlineSettings) (fallback : Option String)
    (source : List UInt8) :
    let o := (Outline.ofSource settings fallback source).1
    o.root.span = ⟨0, source.length⟩ ∧ o.Laminar ∧ o.isConsistent = true := by
  have laminar := declared_laminar settings fallback (some nestingLimit) source
  exact ⟨rfl, laminar_of_source settings fallback source, ofDeclaration_isConsistent laminar⟩

end EditScope.Outline

import EditScope.Proofs.Outline.Numbered

set_option autoImplicit false

namespace EditScope.Outline

open Declaration

inductive DeclaredAt (policy : Overloads) (source : List UInt8) (k : Nat) (n : Node) : Prop where
  | type {brace : Nat} {first opening : Token} (kind : n.kind = .type)
      (token : (Token.ofSource source)[k]? = some first) (start : n.span.start = first.offset)
      (here : Sketch.TypeAt (.ofLexemes (Token.lexemes source)) k n.name brace)
      (body : (Token.ofSource source)[brace]? = some opening)
      (inside : n.span.start ≤ opening.offset ∧ opening.stop ≤ n.span.stop)
  | method {last count : Nat} {name : String} {first ending : Token} (kind : n.kind = .method)
      (token : (Token.ofSource source)[k]? = some first) (start : n.span.start = first.offset)
      (here : Sketch.MethodAt (.ofLexemes (Token.lexemes source)) k name last)
      (named : n.name = Overloads.ordinalName name count) (merged : policy = .merge → n.name = name)
      (ends : (Token.ofSource source)[last]? = some ending) (stop : n.span.stop = ending.stop)

variable {settings : OutlineSettings} {fallback : Option String} {source : List UInt8} {k : Nat}
  {n n' : Node}

theorem DeclaredAt.numbered {policy : Overloads} (here : DeclaredAt .merge source k n)
    (numbered : Node.Numbered policy n n') : DeclaredAt policy source k n' := by
  obtain ⟨kind, span, _, _, name, count, ordinal, merged⟩ := numbered
  cases here with
  | type type token start here body inside =>
    have name := name (by rw [type]; nofun)
    exact .type (kind.trans type) token (span ▸ start) (name ▸ here) body (span ▸ inside)
  | method method token start here _ same ends stop =>
    rw [same rfl] at ordinal
    refine .method (kind.trans method) token (span ▸ start) here ordinal (fun merge => ?_) ends
      (span ▸ stop)
    rw [ordinal, merged merge]
    rfl

theorem DeclaredAt.kind_ne_unit {policy : Overloads} (here : DeclaredAt policy source k n) :
    n.kind ≠ .unit := by
  rcases here with ⟨kind⟩ | ⟨kind⟩ <;> rw [kind] <;> nofun

theorem DeclaredAt.start_eq {policy : Overloads} (here : DeclaredAt policy source k n) :
    some n.span.start = ((Token.ofSource source)[k]?).map Token.offset := by
  rcases here with ⟨_, token, start⟩ | ⟨_, token, start⟩ <;> rw [token, start, Option.map_some]

theorem exists_token {p : Lexeme → Bool}
    (here : (Bracketed.ofLexemes (Token.lexemes source)).has p k) :
    ∃ t, (Token.ofSource source)[k]? = some t := by
  obtain ⟨l, found, _⟩ := (Option.any_eq_true _ _).1 here
  have inside := Sketch.lt_size_of_getElem? found
  have size : (Bracketed.ofLexemes (Token.lexemes source)).lexemes.size =
      (Token.ofSource source).size := by
    simp [Bracketed.ofLexemes, length_lexemes]
  exact ⟨_, Array.getElem?_eq_getElem (size ▸ inside)⟩

variable (source) in
structure Node.Resolves (e : Sketch) (n : Node) : Prop where
  name : n.name = e.name
  kind : n.kind = e.kind
  span : n.span = resolve (Token.ofSource source) source.length e.place

theorem Node.Resolves.declaredAt {e : Sketch} (resolves : n.Resolves source e)
    (shaped : Sketch.Shaped (.ofLexemes (Token.lexemes source)) e) :
    DeclaredAt .merge source e.place.first n := by
  obtain ⟨name, kind, span, parent, children⟩ := n
  obtain ⟨rfl, rfl, rfl⟩ := resolves
  have ordered := Token.ofSource_ordered source
  cases shaped with
  | @type name place members brace here closed later =>
    obtain ⟨first, token⟩ := exists_token here.keyword
    obtain ⟨opening, body⟩ := exists_token (Sketch.opens_of_reaches here.body)
    have low := offsetAt_mono ordered (Nat.le_trans (Nat.le_add_right _ 2) (Sketch.le_reaches here.body))
    have high : stopAt (Token.ofSource source) source.length (some brace) ≤
        stopAt (Token.ofSource source) source.length place.last := by
      cases ends : place.last with
      | none => exact stopAt_le_length ordered _
      | some last => exact stopAt_mono ordered (Nat.le_of_lt (closed last ends))
    have start : offsetAt (Token.ofSource source) source.length place.first = first.offset := by
      simp [offsetAt, token]
    simp only [offsetAt, stopAt, body, Option.bind_some, Option.map_some, Option.getD_some] at low high
    exact .type rfl token start here body ⟨low, high⟩
  | @method name first last here =>
    obtain ⟨start, token⟩ := exists_token here.name
    obtain ⟨ending, ends⟩ : ∃ t, (Token.ofSource source)[last]? = some t := by
      cases here.ends with
      | body _ _ _ closes => exact exists_token closes
      | semicolon ends => exact exists_token ends
    have named : name = Overloads.ordinalName name 1 := rfl
    refine .method rfl token ?_ here named (fun _ => rfl) ends ?_
    · simp [resolve, offsetAt, token, Declaration.place]
    · simp [resolve, stopAt, ends, Declaration.place]

section Merging

variable (source) in
def FromSketch (d : Declaration Span) : Prop :=
  ∃ e, d = e.mapPlace (resolve (Token.ofSource source) source.length) ∧
    Sketch.Shaped (.ofLexemes (Token.lexemes source)) e

variable (source) in
def Reported (d : Declaration Span) : Prop :=
  d.kind = .unit ∧ (∀ m ∈ d.members, m.kind = .type ∧ m.Everywhere (FromSketch source)) ∨
    d.Everywhere (FromSketch source)

theorem reported_members (d : Declaration Span) (reported : Reported source d) :
    ∀ m ∈ d.members, Reported source m := by
  intro m mem
  rcases reported with ⟨_, inner⟩ | sketched
  · exact .inr (inner m mem).2
  · exact .inr (sketched.members m mem)

variable (settings fallback source) in
theorem declared_reported :
    Reported source (declared settings.merging fallback (some nestingLimit) source).1 := by
  obtain ⟨types, shaped⟩ := SketchedFile.shaped (some nestingLimit) (Token.lexemes source)
  refine .inl ⟨rfl, fun m mem => ?_⟩
  simp only [declared_eq, Declaration.members, mapPlaces_eq_map] at mem
  obtain ⟨e, found, rfl⟩ := List.mem_map.1 mem
  refine ⟨?_, everywhere_mapPlace e |>.2 ?_⟩
  · have kind := types e found
    cases e
    exact kind
  · exact Everywhere.imp (fun e shape => ⟨e, rfl, shape⟩) e (everywhereIn_iff.1 shaped e found)

theorem offsetAt_lt {first later : Nat} {t : Token} (token : (Token.ofSource source)[first]? = some t)
    (less : first < later) : offsetAt (Token.ofSource source) source.length first <
      offsetAt (Token.ofSource source) source.length later := by
  have ordered := Token.ofSource_ordered source
  have inside := (Array.getElem?_eq_some_iff.1 token).1
  exact Nat.lt_of_lt_of_le (offsetAt_lt_stopAt ordered inside) (stopAt_le_offsetAt ordered less)

variable {d m : Declaration Span} (reported : Reported source d)

include reported

theorem exists_sketch (mem : m ∈ d.members) :
    ∃ e, m = e.mapPlace (resolve (Token.ofSource source) source.length) ∧
      Sketch.Shaped (.ofLexemes (Token.lexemes source)) e ∧
      (d.kind = .unit ∧ m.kind = .type ∨ d.kind = .type ∧ d.place.start < m.place.start) := by
  rcases reported with ⟨unit, types⟩ | sketched
  · obtain ⟨kind, sketched⟩ := types m mem
    obtain ⟨e, same, shaped⟩ := (everywhere_iff.1 sketched).1
    exact ⟨e, same, shaped, .inl ⟨unit, kind⟩⟩
  · obtain ⟨e, same, shaped⟩ := (everywhere_iff.1 (sketched.members m mem)).1
    obtain ⟨outer, rfl, outside⟩ := (everywhere_iff.1 sketched).1
    refine ⟨e, same, shaped, .inr ?_⟩
    cases outside with
    | @type name place members brace here closed later =>
      rw [mapPlace, Declaration.members, mapPlaces_eq_map] at mem
      obtain ⟨inner, found, rfl⟩ := List.mem_map.1 mem
      obtain ⟨t, token⟩ := exists_token here.keyword
      rw [place_mapPlace, place_mapPlace]
      exact ⟨rfl, offsetAt_lt token (later inner found)⟩
    | method here => cases mem

variable {i j : (ofDeclaration d).Id}

theorem exists_shaped (inner : i ≠ (ofDeclaration d).rootId) :
    ∃ p e, (ofDeclaration d).parent? i = some p ∧
      Sketch.Shaped (.ofLexemes (Token.lexemes source)) e ∧
      ((ofDeclaration d).node i).Resolves source e ∧
      (((ofDeclaration d).node p).kind = .unit ∧ e.kind = .type ∨
        ((ofDeclaration d).node p).kind = .type ∧
          ((ofDeclaration d).node p).span.start < ((ofDeclaration d).node i).span.start) := by
  have below : i.val ≠ 0 := fun top => inner (Fin.ext top)
  obtain ⟨parent, m, holds, _, p, outer, outerParent, rfl, above, reported, mem⟩ :=
    exists_holds reported_members reported i below
  obtain ⟨q, found, rfl⟩ := parent?_of_node (i := i) (p := p) (by rw [holds.node_eq])
  obtain ⟨e, rfl, shaped, around⟩ := exists_sketch reported mem
  have here := holds.node_eq
  have outside := above.node_eq
  cases e
  exact ⟨q, _, found, shaped, ⟨congrArg Node.name here, congrArg Node.kind here,
    congrArg Node.span here⟩, by rw [here, outside]; exact around⟩

theorem kind_ne_unit (inner : i ≠ (ofDeclaration d).rootId) :
    ((ofDeclaration d).node i).kind ≠ .unit := by
  obtain ⟨_, _, _, shaped, resolves, _⟩ := exists_shaped reported inner
  rw [resolves.kind]
  cases shaped <;> nofun

theorem start_lt (laminar : d.Laminar Span.layout) (less : i < j)
    (inner : i ≠ (ofDeclaration d).rootId) :
    ((ofDeclaration d).node i).span.start < ((ofDeclaration d).node j).span.start := by
  have outline := ofDeclaration_laminar laminar
  rcases outline.apart i j less with mem | apart
  · have inner' : j ≠ (ofDeclaration d).rootId := by
      rintro rfl
      exact Nat.not_lt_zero _ less
    obtain ⟨p, _, found, _, _, around⟩ := exists_shaped reported inner'
    rw [enclosing_of_parent? found] at mem
    rcases around with ⟨unit, _⟩ | ⟨_, before⟩
    -- The parent would be the unit, which stands in nothing.
    · have root : p = (ofDeclaration d).rootId := by
        by_contra other
        exact kind_ne_unit reported other unit
      subst root
      rcases List.mem_cons.1 mem with same | outer
      · exact absurd same inner
      · exact absurd (lt_of_mem_enclosing outer) (Nat.not_lt_zero _)
    · rcases List.mem_cons.1 mem with rfl | outer
      · exact before
      · exact Nat.lt_of_le_of_lt (outline.within_of_enclosing outer).1 before
  · exact Nat.lt_of_lt_of_le (outline.nonempty i inner) apart

theorem eq_of_start (laminar : d.Laminar Span.layout) (inner : i ≠ (ofDeclaration d).rootId)
    (inner' : j ≠ (ofDeclaration d).rootId)
    (same : ((ofDeclaration d).node i).span.start = ((ofDeclaration d).node j).span.start) : i = j := by
  rcases Nat.lt_trichotomy i.val j.val with less | eq | more
  · exact absurd same (Nat.ne_of_lt (start_lt reported laminar less inner))
  · exact Fin.ext eq
  · exact absurd same (Nat.ne_of_gt (start_lt reported laminar more inner'))

end Merging

theorem ne_root {d : Declaration Span} (unit : d.kind = .unit) {i : (ofDeclaration d).Id}
    (other : ((ofDeclaration d).node i).kind ≠ .unit) : i ≠ (ofDeclaration d).rootId := by
  rintro rfl
  have root := Holds.node_eq (i := (ofDeclaration d).rootId) (ofDeclaration_holds d)
  exact other ((congrArg Node.kind root).trans unit)

theorem ofSource_shaped (settings : OutlineSettings) (fallback : Option String) (source : List UInt8) :
    let o := (ofSource settings fallback source).1
    (∀ i : o.Id, i ≠ o.rootId → (∃ k, DeclaredAt settings.overloads source k (o.node i)) ∧
        ((o.node i).kind = .method → ∃ p, o.parent? i = some p ∧ (o.node p).kind = .type)) ∧
      ∀ (i j : o.Id) (k : Nat), DeclaredAt settings.overloads source k (o.node i) →
        DeclaredAt settings.overloads source k (o.node j) → i = j := by
  intro o
  have reported := declared_reported settings fallback source
  have numbered := declared_numbered settings fallback source
  -- Shapes are read where overloads are merged: numbering renames methods and moves no node.
  constructor
  · intro i' inner
    obtain ⟨i, same⟩ := exists_merged numbered i'
    have alike := numbered_node numbered same
    obtain ⟨p, e, found, shaped, resolves, around⟩ := exists_shaped reported (ne_root_of_same same inner)
    refine ⟨⟨_, (resolves.declaredAt shaped).numbered alike⟩, fun method => ?_⟩
    have parent : (o.node i').parent = some p.val := alike.parent.trans (node_of_parent? found)
    obtain ⟨p', found', same'⟩ := parent?_of_node parent
    refine ⟨p', found', ?_⟩
    rcases around with ⟨_, type⟩ | ⟨type, _⟩
    · cases method.symm.trans ((alike.kind.trans resolves.kind).trans type)
    · exact (numbered_node numbered same').kind.trans type
  · intro i' j' k here there
    obtain ⟨i, sameI⟩ := exists_merged numbered i'
    obtain ⟨j, sameJ⟩ := exists_merged numbered j'
    have laminar := declared_laminar settings.merging fallback (some nestingLimit) source
    have innerI : i' ≠ o.rootId := ne_root rfl here.kind_ne_unit
    have innerJ : j' ≠ o.rootId := ne_root rfl there.kind_ne_unit
    have same : i = j := by
      refine eq_of_start reported laminar (ne_root_of_same sameI innerI)
        (ne_root_of_same sameJ innerJ) ?_
      rw [← (numbered_node numbered sameI).span, ← (numbered_node numbered sameJ).span]
      exact Option.some.inj (here.start_eq.trans there.start_eq.symm)
    exact Fin.ext (by rw [sameI, sameJ, same])

theorem ofSource_shaped_overload :
    let source := "class A\x7bint f();Class c=A.class;int f(int i)\x7breturn i;\x7d\x7d".toList.map
      Piece.byte
    let o := (ofSource .numbered none source).1
    o.nodes.toList.map Node.name = ["<default>", "A", "f", "f#2"] ∧
      ∃ i : o.Id, i ≠ o.rootId ∧ (o.node i).name = "f#2" ∧ (o.node i).kind = .method ∧
        (∃ k, DeclaredAt .ordinal source k (o.node i)) ∧
        ∃ p, o.parent? i = some p ∧ (o.node p).kind = .type := by
  intro source o
  let i : o.Id := ⟨3, by decide +kernel⟩
  have inner : i ≠ o.rootId := by decide +kernel
  have method : (o.node i).kind = .method := by decide +kernel
  obtain ⟨here, inside⟩ := (ofSource_shaped .numbered none source).1 i inner
  exact ⟨by decide +kernel, i, inner, by decide +kernel, method, here, inside method⟩

end EditScope.Outline

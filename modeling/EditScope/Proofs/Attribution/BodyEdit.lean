import EditScope.Proofs.Attribution.Modified
import EditScope.Proofs.Outline.Splice

set_option autoImplicit false

namespace EditScope.Attribution

open Outline

theorem touched_of_leaf {o : Outline} (laminar : o.Laminar) (zero : o.root.span.start = 0) {m : o.Id}
    (leaf : ∀ j, m ∉ o.enclosing j) {r : EditRange} (start : (o.node m).span.start ≤ r.start)
    (inside : r.start < (o.node m).span.stop) (stop : r.stop ≤ (o.node m).span.stop)
    (name : QualifiedName) : Touched o [r] name ↔ name = o.nameOf m := by
  have innermost : o.innermost r.start = m := by
    refine Cursor.innermost_eq_of_last (by simp [Span.contains, start, inside]) ?_
    intro j contains
    simp only [Span.contains, Bool.and_eq_true, decide_eq_true_eq] at contains
    refine Nat.not_lt.1 fun later => ?_
    have apart := (laminar.apart m j later).resolve_left (leaf j)
    omega
  have none : o.startingWithin r.start r.stop = [] := by
    refine List.filter_eq_nil_iff.2 fun j _ => ?_
    simp only [decide_eq_true_eq, not_and]
    rcases laminar.leaf_cases zero leaf j with rfl | around | before | after <;> omega
  rw [touched_singleton, innermost, none]
  simp

theorem ordered_replacement {deleted added : EditRange} (forward : deleted.start ≤ deleted.stop)
    (forward' : added.start ≤ added.stop) : Ordered [.replacement deleted added] := by
  simp [Ordered, InOrder, deletedRanges, addedRanges, Hunk.replacement, forward, forward']

theorem modified_of_touched {old new : Outline} (oldLaminar : old.Laminar)
    (newLaminar : new.Laminar) (oldZero : old.root.span.start = 0) (newZero : new.root.span.start = 0)
    {deleted added : EditRange} {name : QualifiedName} (forward : deleted.start ≤ deleted.stop)
    (forward' : added.start ≤ added.stop)
    (before : ∀ n, Touched old [deleted] n ↔ n = name)
    (after : ∀ n, Touched new [added] n ↔ n = name) :
    modified old new [.replacement deleted added] = .ok [⟨name, .modify⟩] := by
  obtain ⟨cs, result, nodup, mem⟩ := modified_of_ordered oldLaminar newLaminar oldZero newZero
    (ordered_replacement forward forward')
  have only (c : Change) : c ∈ cs ↔ c ∈ [(⟨name, .modify⟩ : Change)] := by
    obtain ⟨n, kind⟩ := c
    rw [mem]
    cases kind <;> simp [Attributed, deletedRanges, addedRanges, Hunk.replacement, before, after]
  have perm := (List.perm_ext_iff_of_nodup nodup (List.nodup_singleton _)).2 only
  rw [result, List.perm_singleton.1 perm]

theorem changes_of_body_edit (settings : OutlineSettings) (hint : Option String)
    (a x y b : List UInt8) (m : (ofSource settings hint (a ++ x ++ b)).1.Id) (brace close : Nat)
    (pieces : Token.Piecewise a x b) (pieces' : Token.Piecewise a y b)
    (nested : Bracket.Nested (Token.lexemes x)) (nested' : Bracket.Nested (Token.lexemes y))
    (body : InMethodBody settings hint a x b m brace close) (uncrossed : Uncrossed a x b brace) :
    let old := (ofSource settings hint (a ++ x ++ b)).1
    let new := (ofSource settings hint (a ++ y ++ b)).1
    new.nodes = old.nodes.map (Node.mapSpan (Span.move (.replacing a x y))) ∧
      (changes settings (.modified ⟨a ++ x ++ b, hint⟩ ⟨a ++ y ++ b, hint⟩
        [.replacement ⟨a.length, a.length + x.length⟩ ⟨a.length, a.length + y.length⟩])).1 =
          .ok [⟨old.nameOf m, .modify⟩] := by
  intro old new
  have moved : new.nodes = old.nodes.map (Node.mapSpan (Span.move (.replacing a x y))) :=
    ofSource_splice body pieces pieces' nested nested' uncrossed
  refine ⟨moved, ?_⟩
  have oldLaminar : old.Laminar := laminar_of_source settings hint (a ++ x ++ b)
  have newLaminar : new.Laminar := laminar_of_source settings hint (a ++ y ++ b)
  have size : new.nodes.size = old.nodes.size := by
    rw [moved, Array.size_map]
  let m' : new.Id := ⟨m.val, Nat.lt_of_lt_of_eq m.isLt size.symm⟩
  have node : new.node m' = (old.node m).mapSpan (Span.move (.replacing a x y)) :=
    node_of_mapSpan moved rfl
  have name : new.nameOf m' = old.nameOf m := nameOf_of_mapSpan moved rfl
  have low : (old.node m).span.start < a.length := body.start_lt
  have high : a.length + x.length < (old.node m).span.stop := body.lt_stop
  have start : (new.node m').span.start = (old.node m).span.start := by
    rw [node]
    exact Splice.move_of_lt low
  have stop : (new.node m').span.stop = (old.node m).span.stop + y.length - x.length := by
    rw [node]
    exact Splice.move_of_le (Nat.le_of_lt high)
  have method : (new.node m').kind = .method := by
    rw [node]
    exact body.method
  -- On both sides the range lies in the method, which encloses nothing.
  have before := touched_of_leaf oldLaminar rfl (not_mem_enclosing body.method)
    (r := ⟨a.length, a.length + x.length⟩) (by simp only; omega) (by simp only; omega)
    (by simp only; omega)
  have after := touched_of_leaf newLaminar rfl (not_mem_enclosing method)
    (r := ⟨a.length, a.length + y.length⟩) (by simp only; omega) (by simp only; omega)
    (by simp only; omega)
  rw [name] at after
  exact modified_of_touched oldLaminar newLaminar rfl rfl (Nat.le_add_right _ _)
    (Nat.le_add_right _ _) before after

theorem changes_of_body_edit_call :
    let a := "class A\x7bm()\x7b".toList.map Piece.byte
    let b := "\x7d\x7d".toList.map Piece.byte
    let x := "f();".toList.map Piece.byte
    let y := "g[0]".toList.map Piece.byte
    (changes {} (.modified ⟨a ++ x ++ b, none⟩ ⟨a ++ y ++ b, none⟩
      [.replacement ⟨a.length, a.length + x.length⟩ ⟨a.length, a.length + y.length⟩])).1 =
        .ok [⟨⟨⟨.method, "m"⟩, [⟨.type, "A"⟩, ⟨.unit, "<default>"⟩]⟩, .modify⟩] := by
  intro a b x y
  have nested : Bracket.Nested (Token.lexemes x) := by
    have lexemes : Token.lexemes x = ⟨.identifier, "f"⟩ :: ⟨.separator, "("⟩ ::
        ([] ++ ⟨.separator, ")"⟩ :: ⟨.separator, ";"⟩ :: []) := by decide +kernel
    rw [lexemes]
    exact .plain rfl rfl (.group (b := .round) rfl rfl .nil (.plain rfl rfl .nil))
  have nested' : Bracket.Nested (Token.lexemes y) := by
    have lexemes : Token.lexemes y = ⟨.identifier, "g"⟩ :: ⟨.separator, "["⟩ ::
        ([⟨.literal, "0"⟩] ++ ⟨.separator, "]"⟩ :: []) := by decide +kernel
    rw [lexemes]
    exact .plain rfl rfl (.group (b := .square) rfl rfl (.plain rfl rfl .nil) .nil)
  have body : InMethodBody {} none a x b ⟨2, by decide +kernel⟩ 6 11 :=
    ⟨by decide +kernel,
      ⟨⟨⟨.separator, "\x7b"⟩, 11, 1⟩, by decide +kernel, by decide +kernel, by decide +kernel⟩,
      ⟨⟨⟨.separator, "\x7d"⟩, 16, 1⟩, by decide +kernel, by decide +kernel, by decide +kernel⟩,
      by decide +kernel⟩
  have name : (ofSource {} none (a ++ x ++ b)).1.nameOf ⟨2, by decide +kernel⟩ =
      ⟨⟨.method, "m"⟩, [⟨.type, "A"⟩, ⟨.unit, "<default>"⟩]⟩ := by decide +kernel
  rw [← name]
  exact (changes_of_body_edit {} none a x y b _ _ _ (by decide +kernel) (by decide +kernel) nested
    nested' body (by decide +kernel)).2

-- The square bracket after `T` closes in the body of `m`, so the header of `T` goes on from there.
theorem body_edit_across_bracket :
    let a := "class O\x7bclass T[void m()\x7b]".toList.map Piece.byte
    let b := "\x7d\x7d".toList.map Piece.byte
    let x := ";".toList.map Piece.byte
    let y := "\x7b\x7d".toList.map Piece.byte
    Token.Piecewise a x b ∧ Token.Piecewise a y b ∧ Bracket.Nested (Token.lexemes x) ∧
      Bracket.Nested (Token.lexemes y) ∧ ∃ m brace close, InMethodBody {} none a x b m brace close ∧
        (changes {} (.modified ⟨a ++ x ++ b, none⟩ ⟨a ++ y ++ b, none⟩
          [.replacement ⟨a.length, a.length + x.length⟩ ⟨a.length, a.length + y.length⟩])).1 ≠
            .ok [⟨(ofSource {} none (a ++ x ++ b)).1.nameOf m, .modify⟩] := by
  intro a b x y
  have nested : Bracket.Nested (Token.lexemes x) := by
    have lexemes : Token.lexemes x = [⟨.separator, ";"⟩] := by decide +kernel
    rw [lexemes]
    exact .plain rfl rfl .nil
  have nested' : Bracket.Nested (Token.lexemes y) := by
    have lexemes : Token.lexemes y = ⟨.separator, "\x7b"⟩ :: ([] ++ ⟨.separator, "\x7d"⟩ :: []) := by
      decide +kernel
    rw [lexemes]
    exact .group (b := .curly) rfl rfl .nil .nil
  have body : InMethodBody {} none a x b ⟨2, by decide +kernel⟩ 10 13 :=
    ⟨by decide +kernel,
      ⟨⟨⟨.separator, "\x7b"⟩, 24, 1⟩, by decide +kernel, by decide +kernel, by decide +kernel⟩,
      ⟨⟨⟨.separator, "\x7d"⟩, 27, 1⟩, by decide +kernel, by decide +kernel, by decide +kernel⟩,
      by decide +kernel⟩
  refine ⟨by decide +kernel, by decide +kernel, nested, nested', _, 10, 13, body, ?_⟩
  intro same
  have ordered : Ordered
      [.replacement ⟨a.length, a.length + x.length⟩ ⟨a.length, a.length + y.length⟩] :=
    ordered_replacement (Nat.le_add_right _ _) (Nat.le_add_right _ _)
  obtain ⟨cs, result, _, mem⟩ := modified_of_ordered (laminar_of_source {} none (a ++ x ++ b))
    (laminar_of_source {} none (a ++ y ++ b)) rfl rfl ordered
  cases result.symm.trans same
  obtain ⟨_, _, id, name, _⟩ := ((mem _).1 (List.mem_singleton_self _)).2
  have gone : (ofSource {} none (a ++ x ++ b)).1.nameOf ⟨2, by decide +kernel⟩ ∉
      (ofSource {} none (a ++ y ++ b)).1.names := by decide +kernel
  exact gone (List.mem_map.2 ⟨id, mem_ids _ id, name⟩)

end EditScope.Attribution

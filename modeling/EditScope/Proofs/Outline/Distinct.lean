import EditScope.Proofs.Outline.Shape
import EditScope.Proofs.Token.Printed
import Mathlib.Data.List.FinRange

set_option autoImplicit false

namespace EditScope

theorem Lexeme.not_mem_of_isWord {text : String} (word : isWord (Utf8.encode text)) :
    '#' ∉ text.toList := by
  intro mem
  have byte : (0x23 : UInt8) ∈ Utf8.encode text := List.mem_flatMap.2 ⟨'#', mem, by decide⟩
  have continues : ∀ bytes, isWord bytes → ∀ b ∈ bytes, Piece.continuesWord b := by
    rintro (_ | ⟨b, rest⟩) word
    · cases word
    · simp only [isWord, Bool.and_eq_true, List.all_eq_true] at word
      refine List.forall_mem_cons.2 ⟨?_, word.2⟩
      simp [Piece.continuesWord, word.1]
  cases continues _ word _ byte

namespace Outline

open Declaration Overloads

theorem countP_take_lt {α : Type} {xs : List α} {p : α → Bool} {k l : Nat} {x : α} (less : k < l)
    (here : xs[l]? = some x) (counts : p x) :
    (xs.take (k + 1)).countP p < (xs.take (l + 1)).countP p := by
  rw [countP_take_succ here counts]
  exact Nat.lt_succ_of_le (List.take_sublist_take_left less).countP_le

theorem getElem?_node {o : Outline} (i : o.Id) : o.nodes[i.val]? = some (o.node i) :=
  Array.getElem?_eq_getElem i.isLt

theorem exists_child {d : Declaration Span} {i p : (ofDeclaration d).Id}
    (found : (ofDeclaration d).parent? i = some p) :
    ∃ k : Nat, ((ofDeclaration d).node p).children[k]? = some i.val := by
  have passed : (ofDeclaration d).Inherited fun parent id _ => ∀ p, parent = some p →
      ∃ (n : Node) (k : Nat), (ofDeclaration d).nodes[p]? = some n ∧ n.children[k]? = some id := by
    rintro parent id e holds _ k c m _ place p ⟨⟩
    exact ⟨_, k, holds.node, place⟩
  obtain ⟨parent, m, holds, inherits⟩ := ofDeclaration_inherits passed nofun i
  have above : parent = some p.val :=
    (congrArg Node.parent holds.node_eq).symm.trans (node_of_parent? found)
  obtain ⟨n, k, here, child⟩ := inherits p.val above
  cases Option.some.inj (here.symm.trans (getElem?_node p))
  exact ⟨k, child⟩

theorem parent_eq_map {o : Outline} (i : o.Id) : (o.node i).parent = (o.parent? i).map Fin.val := by
  cases found : o.parent? i with
  | none => exact node_of_root found
  | some p => exact node_of_parent? found

def Distinct (o : Outline) (kind : Kind) : Prop :=
  ∀ i j : o.Id, (o.node i).kind = kind → (o.node j).kind = kind → o.parent? i = o.parent? j →
    (o.node i).name = (o.node j).name → i = j

instance (o : Outline) (kind : Kind) : Decidable (o.Distinct kind) :=
  inferInstanceAs (Decidable (∀ i j : o.Id, (o.node i).kind = kind → (o.node j).kind = kind →
    o.parent? i = o.parent? j → (o.node i).name = (o.node j).name → i = j))

section Methods

variable {source : List UInt8} {d d' : Declaration Span} (reported : Reported source d)

include reported

theorem not_mem_name {i : (ofDeclaration d).Id} (method : ((ofDeclaration d).node i).kind = .method)
    (inner : i ≠ (ofDeclaration d).rootId) : '#' ∉ ((ofDeclaration d).node i).name.toList := by
  obtain ⟨_, e, _, shaped, resolves, _⟩ := exists_shaped reported inner
  rw [resolves.kind] at method
  rw [resolves.name]
  cases shaped with
  | type => cases method
  | method here =>
    obtain ⟨l, found, named⟩ := (Option.any_eq_true _ _).1 here.name
    simp only [Bool.and_eq_true, beq_iff_eq] at named
    obtain ⟨identifier, rfl⟩ := named
    have mem : l ∈ Token.lexemes source := Array.mem_toList_iff.2 (Array.mem_of_getElem? found)
    have spelled := Token.exists_lexemes_iff.1 ⟨source, rfl⟩ l mem
    have kind : l.kind = .identifier := by simpa [Lexeme.isIdentifier] using identifier
    simp only [Lexeme.isSpelled, kind, Bool.and_eq_true] at spelled
    exact Lexeme.not_mem_of_isWord spelled.1.1

structure NumberedChild (o : Outline) (name : String) (p : o.Id) (i k : Nat) (f : String) : Prop where
  child : (o.node p).children[k]? = some i
  method : o.isMethodNamed f i
  plain : '#' ∉ f.toList
  name : name = ordinalName f (((o.node p).children.take (k + 1)).countP (o.isMethodNamed f))

theorem exists_numberedChild (numbered : Numbered .ordinal d d') {i' : (ofDeclaration d').Id}
    (method : ((ofDeclaration d').node i').kind = .method)
    (inner : i' ≠ (ofDeclaration d').rootId) :
    ∃ p k f, ((ofDeclaration d').node i').parent = some p.val ∧
      NumberedChild (ofDeclaration d) ((ofDeclaration d').node i').name p i'.val k f := by
  obtain ⟨i, same⟩ := exists_merged numbered i'
  have alike := numbered_node numbered same
  have kind : ((ofDeclaration d).node i).kind = .method := alike.kind.symm.trans method
  have below := ne_root_of_same same inner
  obtain ⟨p, _, found, _⟩ := exists_shaped reported below
  obtain ⟨k, child⟩ := exists_child found
  have named : (ofDeclaration d).isMethodNamed ((ofDeclaration d).node i).name i.val := by
    rw [isMethodNamed, getElem?_node, Option.any_some, kind]
    simp
  obtain ⟨n, here, name⟩ := ordinalName_child numbered child named
  rw [← same, getElem?_node] at here
  cases Option.some.inj here
  exact ⟨p, k, _, alike.parent.trans (node_of_parent? found), same ▸ child, same ▸ named,
    not_mem_name reported kind below, name⟩

theorem eq_root_of_unit (numbered : Numbered .ordinal d d') {i : (ofDeclaration d').Id}
    (unit : ((ofDeclaration d').node i).kind = .unit) : i = (ofDeclaration d').rootId := by
  obtain ⟨j, same⟩ := exists_merged numbered i
  have root : j = (ofDeclaration d).rootId := by
    by_contra inner
    exact kind_ne_unit reported inner ((numbered_node numbered same).kind.symm.trans unit)
  exact Fin.ext (same.trans (congrArg Fin.val root))

variable (unit : d.kind = .unit)

include unit

theorem exists_type {i : (ofDeclaration d).Id} (method : ((ofDeclaration d).node i).kind = .method) :
    ∃ p, ((ofDeclaration d).node p).kind = .type ∧ i.val ∈ ((ofDeclaration d).node p).children := by
  have inner := ne_root unit (i := i) (by rw [method]; nofun)
  obtain ⟨p, e, found, _, resolves, ⟨_, type⟩ | ⟨type, _⟩⟩ := exists_shaped reported inner
  · cases method.symm.trans (resolves.kind.trans type)
  · obtain ⟨k, child⟩ := exists_child found
    exact ⟨p, type, List.mem_of_getElem? child⟩

variable (numbered : Numbered .ordinal d d')

include numbered

theorem distinct_methods : (ofDeclaration d').Distinct .method := by
  intro i j methodI methodJ parents names
  have inner {i : (ofDeclaration d').Id} (method : ((ofDeclaration d').node i).kind = .method) :
      i ≠ (ofDeclaration d').rootId :=
    ne_root (numbered.kind.trans unit) (by rw [method]; nofun)
  obtain ⟨p, k, f, parentI, ⟨childI, namedI, plainI, nameI⟩⟩ :=
    exists_numberedChild reported numbered methodI (inner methodI)
  obtain ⟨q, l, g, parentJ, ⟨childJ, namedJ, plainJ, nameJ⟩⟩ :=
    exists_numberedChild reported numbered methodJ (inner methodJ)
  obtain rfl : p = q := by
    rw [parent_eq_map, parents, ← parent_eq_map] at parentI
    exact Fin.ext (Option.some.inj (parentI.symm.trans parentJ))
  rw [nameI, nameJ] at names
  obtain ⟨rfl, counts⟩ := ordinalName_inj plainI plainJ (by rw [countP_take_succ childI namedI]; omega)
    (by rw [countP_take_succ childJ namedJ]; omega) names
  -- Of two positions the later one has the greater count.
  rcases Nat.lt_trichotomy k l with less | rfl | more
  · exact absurd counts (Nat.ne_of_lt (countP_take_lt less childJ namedJ))
  · exact Fin.ext (Option.some.inj (childI.symm.trans childJ))
  · exact absurd counts (Nat.ne_of_gt (countP_take_lt more childI namedI))

theorem distinct_parts (types : (ofDeclaration d').Distinct .type) (i j : (ofDeclaration d').Id)
    (parents : (ofDeclaration d').parent? i = (ofDeclaration d').parent? j)
    (part : (ofDeclaration d').part i = (ofDeclaration d').part j) : i = j := by
  obtain ⟨kind, name⟩ := NamePart.mk.inj part
  cases here : ((ofDeclaration d').node i).kind with
  | unit =>
    have there := kind.symm.trans here
    rw [eq_root_of_unit reported numbered here, eq_root_of_unit reported numbered there]
  | type => exact types i j here (kind.symm.trans here) parents name
  | method =>
    exact distinct_methods reported unit numbered i j here (kind.symm.trans here) parents name

end Methods

section Names

variable {o : Outline}
  (distinct : ∀ i j, o.parent? i = o.parent? j → o.part i = o.part j → i = j)

include distinct

theorem nameOf_inj {i j : o.Id} (same : o.nameOf i = o.nameOf j) : i = j := by
  obtain ⟨part, enclosing⟩ := QualifiedName.mk.inj same
  induction i using outwards_induction generalizing j with
  | top i found =>
    rw [enclosing_of_root found] at enclosing
    cases found' : o.parent? j with
    | none => exact distinct i j (found.trans found'.symm) part
    | some q => simp [enclosing_of_parent? found'] at enclosing
  | inner i p found ih =>
    rw [enclosing_of_parent? found] at enclosing
    cases found' : o.parent? j with
    | none => simp [enclosing_of_root found'] at enclosing
    | some q =>
      rw [enclosing_of_parent? found'] at enclosing
      obtain ⟨first, rest⟩ := List.cons.inj enclosing
      have same' : o.nameOf p = o.nameOf q := by rw [nameOf, nameOf, first, rest]
      have parents := ih same' first rest
      exact distinct i j (by rw [found, found', parents]) part

theorem names_nodup : o.names.Nodup :=
  (List.nodup_finRange _).map fun _ _ same => nameOf_inj distinct same

end Names

end Outline

end EditScope

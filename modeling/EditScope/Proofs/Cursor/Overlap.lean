import EditScope.Proofs.Cursor.Innermost
import EditScope.Proofs.Outline.Checked

set_option autoImplicit false

namespace EditScope.Cursor

open Declaration Outline

theorem locate_checked (d : Declaration Span) (o : Outline) (pos : Nat)
    (accepted : ofDeclaration? d = .ok o) :
    ∃ id c, (new o).locate pos = .ok (id, c) ∧
      (id = o.rootId ∨ (o.node id).span.contains pos) ∧
      (d.Everywhere Apart → id = o.innermost pos) := by
  obtain ⟨rfl, encloses⟩ := encloses_of_checked accepted
  refine ⟨_, _, rfl, ?_, fun apart => ?_⟩
  · rw [(passed_new (ofDeclaration d)).moveTo_eq (Nat.zero_le pos)]
    exact contains_climb (enclosed_of_encloses encloses) (start_last_started _ pos)
  · have laminar := ofDeclaration_laminar (laminar_of_apart d encloses apart)
    exact current_moveTo laminar (tracks_new _) (Nat.zero_le pos)

theorem locate_checked_adjacent :
    let d : Declaration Span := .mk .unit "F" ⟨0, 20⟩
      [.mk .type "A" ⟨1, 15⟩ [.mk .method "f" ⟨3, 6⟩ [], .mk .method "g" ⟨6, 12⟩ []]]
    ∃ o id c, ofDeclaration? d = .ok o ∧ (new o).locate 6 = .ok (id, c) ∧ id = o.innermost 6 ∧
      (o.node id).name = "g" := by
  intro d
  have faultless : (ofDeclaration d).firstFault? = none := by decide +kernel
  have accepted : ofDeclaration? d = .ok (ofDeclaration d) := by simp only [ofDeclaration?, faultless]
  have apart : d.Everywhere Apart := by simp [d, Everywhere, EverywhereIn, Apart, members, place]
  have name : ((ofDeclaration d).node ((ofDeclaration d).innermost 6)).name = "g" := by decide +kernel
  obtain ⟨id, c, found, _, innermost⟩ := locate_checked d (ofDeclaration d) 6 accepted
  exact ⟨_, id, c, accepted, found, innermost apart, innermost apart ▸ name⟩

-- The cursor climbs from `B` to the unit, and does not see that `A` before it has not ended.
theorem locate_left_behind :
    let d : Declaration Span := .mk .unit "F" ⟨0, 20⟩
      [.mk .type "A" ⟨1, 15⟩ [], .mk .type "B" ⟨3, 6⟩ []]
    ∃ o id c, ofDeclaration? d = .ok o ∧ (new o).locate 10 = .ok (id, c) ∧ id = o.rootId ∧
      (o.node (o.innermost 10)).name = "A" ∧ (o.node (o.innermost 10)).span.contains 10 := by
  intro d
  have faultless : (ofDeclaration d).firstFault? = none := by decide +kernel
  refine ⟨ofDeclaration d, _, _, by simp only [ofDeclaration?, faultless], rfl, ?_⟩
  decide +kernel

end EditScope.Cursor

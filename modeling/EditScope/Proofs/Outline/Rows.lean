import EditScope.Proofs.Outline.Laminar
import EditScope.Proofs.Outline.Links

set_option autoImplicit false

namespace EditScope.Outline

open Declaration

theorem eq_of_rows {d d' : Declaration Span} (laminar : d.Laminar Span.layout)
    (laminar' : d'.Laminar Span.layout) (same : (ofDeclaration d).rows = (ofDeclaration d').rows) :
    d = d' := by
  rw [rows_ofDeclaration, rows_ofDeclaration] at same
  exact laminar.eq_of_rows laminar' same

theorem ofSource_rows_eq_iff (settings settings' : OutlineSettings) (fallback fallback' : Option String)
    (source source' : List UInt8) :
    (ofSource settings fallback source).1.rows = (ofSource settings' fallback' source').1.rows ↔
      (ofSource settings fallback source).1 = (ofSource settings' fallback' source').1 := by
  refine ⟨fun same => ?_, congrArg rows⟩
  have laminar := declared_laminar settings fallback (some nestingLimit) source
  have laminar' := declared_laminar settings' fallback' (some nestingLimit) source'
  exact congrArg ofDeclaration (eq_of_rows laminar laminar' same)

-- The check of outlines assembled by hand lets members overlap, and then a member may as well stand
-- inside the one before it.
example :
    let method : Declaration Span := .mk .method "m" ⟨3, 6⟩ []
    let inside := ofDeclaration (.mk .unit "u" ⟨0, 9⟩ [.mk .type "A" ⟨1, 8⟩ [method]])
    let behind := ofDeclaration (.mk .unit "u" ⟨0, 9⟩ [.mk .type "A" ⟨1, 8⟩ [], method])
    inside.isConsistent = true ∧ behind.isConsistent = true ∧ inside.rows = behind.rows ∧
      inside.nodes ≠ behind.nodes := by
  decide

end EditScope.Outline

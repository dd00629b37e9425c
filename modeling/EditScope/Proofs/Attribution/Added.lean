import EditScope.Attribution
import EditScope.Proofs.Change.Order
import EditScope.Proofs.Outline.Distinct
import Mathlib.Data.List.Forall2

set_option autoImplicit false

namespace EditScope

open Declaration Outline Overloads

namespace Attribution

theorem length_added {o : Outline} (nodup : o.names.Nodup) : (added o).length = o.nodes.size := by
  have changes : (o.names.map (⟨·, .add⟩) : List Change).Nodup :=
    nodup.map fun _ _ same => congrArg Change.declaration same
  rw [added, Change.sorted, length_ascending changes, List.length_map, Outline.names, List.length_map,
    Outline.ids, List.length_finRange]

theorem added_ordinal (settings : OutlineSettings) (fallback : Option String) (source : List UInt8) :
    let merged := (ofSource { settings with overloads := .merge } fallback source).1
    let numbered := (ofSource { settings with overloads := .ordinal } fallback source).1
    List.Forall₂ (Node.Numbered .ordinal) merged.nodes.toList numbered.nodes.toList ∧
      (∀ (p : merged.Id) (k c : Nat) (f : String), (merged.node p).children[k]? = some c →
        merged.isMethodNamed f c → ∃ n, numbered.nodes[c]? = some n ∧
          n.name = ordinalName f
            (((merged.node p).children.take (k + 1)).countP (merged.isMethodNamed f))) ∧
      (∀ i : merged.Id, (merged.node i).kind = .method →
        ∃ p, (merged.node p).kind = .type ∧ i.val ∈ (merged.node p).children) ∧
      numbered.Distinct .method ∧
      (numbered.Distinct .type →
        numbered.names.Nodup ∧ (added numbered).length = numbered.nodes.size) := by
  intro merged numbered
  have reported := declared_reported settings fallback source
  have alike := declared_numbered { settings with overloads := .ordinal } fallback source
  refine ⟨forall₂_numbered alike, fun p k c f child method => ordinalName_child alike child method,
    fun i method => exists_type reported rfl method, distinct_methods reported rfl alike,
    fun types => ?_⟩
  have nodup : numbered.names.Nodup := names_nodup (distinct_parts reported rfl alike types)
  exact ⟨nodup, length_added nodup⟩

theorem added_ordinal_overloads :
    let source := "class A\x7bint f();int f(int i)\x7b\x7dint g();class B\x7bint f();\x7d\x7d".toList.map
      Piece.byte
    let numbered := (ofSource { overloads := .ordinal } none source).1
    numbered.Distinct .type ∧
      numbered.nodes.toList.map Node.name = ["<default>", "A", "f", "f#2", "g", "B", "f"] ∧
      numbered.names.Nodup ∧ (added numbered).length = numbered.nodes.size := by
  intro source numbered
  have types : numbered.Distinct .type := by decide +kernel
  obtain ⟨_, _, _, _, all⟩ := added_ordinal {} none source
  exact ⟨types, by decide +kernel, all types⟩

end Attribution

end EditScope

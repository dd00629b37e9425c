import EditScope.Outline.Source
import EditScope.Proofs.Sketch.Laminar
import EditScope.Proofs.Token.Order

set_option autoImplicit false

namespace EditScope.Outline

variable {tokens : Array Token} {length i j : Nat}

section

variable (ordered : Token.Ordered tokens.toList 0 length)

include ordered

theorem stopAt_le_length (e : Option Nat) : stopAt tokens length e ≤ length := by
  unfold stopAt
  cases e with
  | none => simp
  | some i =>
    cases here : tokens[i]? with
    | none => simp [here]
    | some t => simpa [here] using (ordered.within_at here).2.2

theorem offsetAt_lt_stopAt (inside : i < tokens.size) :
    offsetAt tokens length i < stopAt tokens length (some i) := by
  have here := Array.getElem?_eq_getElem inside
  simpa [offsetAt, stopAt, here] using (ordered.within_at here).2.1

theorem stopAt_le_offsetAt (less : i < j) :
    stopAt tokens length (some i) ≤ offsetAt tokens length j := by
  cases there : tokens[j]? with
  | none =>
    have bound := stopAt_le_length ordered (some i)
    simpa [offsetAt, there] using bound
  | some t =>
    have inside := (Array.getElem?_eq_some_iff.1 there).1
    have here := Array.getElem?_eq_getElem (Nat.lt_trans less inside)
    simpa [offsetAt, stopAt, here, there] using ordered.stop_le_offset less here there

theorem offsetAt_le_stopAt (i : Nat) : offsetAt tokens length i ≤ stopAt tokens length (some i) := by
  by_cases inside : i < tokens.size
  · exact Nat.le_of_lt (offsetAt_lt_stopAt ordered inside)
  · simp [offsetAt, stopAt, Nat.not_lt.1 inside]

theorem offsetAt_mono (le : i ≤ j) : offsetAt tokens length i ≤ offsetAt tokens length j := by
  rcases Nat.eq_or_lt_of_le le with rfl | less
  · exact Nat.le_refl _
  · exact Nat.le_trans (offsetAt_le_stopAt ordered i) (stopAt_le_offsetAt ordered less)

theorem stopAt_mono (le : i ≤ j) :
    stopAt tokens length (some i) ≤ stopAt tokens length (some j) := by
  rcases Nat.eq_or_lt_of_le le with rfl | less
  · exact Nat.le_refl _
  · exact Nat.le_trans (stopAt_le_offsetAt ordered less) (offsetAt_le_stopAt ordered j)

theorem resolve_embeds :
    (Extent.layout tokens.size).Embeds Span.layout (resolve tokens length) where
  low_le le := offsetAt_mono ordered le
  high_le {p q} le := by
    obtain ⟨_, last⟩ := p
    obtain ⟨_, last'⟩ := q
    cases last' with
    | none => exact stopAt_le_length ordered last
    | some j =>
      cases last with
      | some i => exact stopAt_mono ordered (Nat.le_of_succ_le_succ le)
      | none =>
        have outside : tokens.size ≤ j := Nat.le_of_succ_le_succ le
        simp [Span.layout, resolve, stopAt, outside]
  apart {p q} le := by
    obtain ⟨_, last⟩ := p
    cases last with
    | some i => exact stopAt_le_offsetAt ordered le
    | none =>
      have outside : tokens.size ≤ q.first := Nat.le_of_succ_le le
      simp [Span.layout, resolve, stopAt, offsetAt, outside]
  proper {p} proper := by
    obtain ⟨first, last⟩ := p
    obtain ⟨inside, nonempty⟩ := proper
    have less := offsetAt_lt_stopAt ordered inside
    cases last with
    | none => exact Nat.lt_of_lt_of_le less (stopAt_le_length ordered _)
    | some j => exact Nat.lt_of_lt_of_le less (stopAt_mono ordered (nonempty j rfl))

end

theorem declared_laminar (settings : OutlineSettings) (fallback : Option String)
    (limit : Option Nat) (source : List UInt8) :
    (declared settings fallback limit source).1.Laminar Span.layout := by
  have ordered := Token.ofSource_ordered source
  have sketch := SketchedFile.laminar ⟨settings.overloads, limit⟩
    ((Token.ofSource source).toList.map Token.lexeme)
  simp only [List.length_map, Array.length_toList] at sketch
  exact (resolve_embeds ordered).between_mapPlaces _ (fun _ => Nat.zero_le _)
    (fun _ => stopAt_le_length ordered _) sketch

end EditScope.Outline

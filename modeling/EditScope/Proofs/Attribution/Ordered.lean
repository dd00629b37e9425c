import EditScope.Attribution
import Mathlib.Data.List.Chain

set_option autoImplicit false

namespace EditScope.Attribution

/-- Ranges may meet, and overlap in the last byte. -/
def InOrder (ranges : List EditRange) : Prop :=
  (∀ r ∈ ranges, r.start ≤ r.stop) ∧
    ranges.IsChain fun r next => max r.start (r.stop - 1) ≤ next.start

def frontier (ranges : List EditRange) : Nat :=
  (ranges.getLast?.map fun r => max r.start (r.stop - 1)).getD 0

def deletedRanges (hunks : List Hunk) : List EditRange := hunks.filterMap Hunk.deleted

def addedRanges (hunks : List Hunk) : List EditRange := hunks.filterMap Hunk.added

def Ordered (hunks : List Hunk) : Prop :=
  InOrder (deletedRanges hunks) ∧ InOrder (addedRanges hunks)

def late? (covered : Nat) (side : Option EditRange) : Option AttributionError :=
  side.bind fun r =>
    if r.start < covered then some (.query (.outOfOrder covered r.start)) else none

/-- A reversed range comes before one that starts too early, the deleted side before the added. -/
def fault? (before : List Hunk) (h : Hunk) : Option AttributionError :=
  (h.reversed?.map .reversedHunk).or
    ((late? (frontier (deletedRanges before)) h.deleted).or
      (late? (frontier (addedRanges before)) h.added))

def FirstFault (hunks : List Hunk) (e : AttributionError) : Prop :=
  ∃ before h after, hunks = before ++ h :: after ∧ Ordered before ∧ fault? before h = some e

theorem inOrder_nil : InOrder [] := by
  simp [InOrder]

theorem inOrder_concat {ranges : List EditRange} {r : EditRange} :
    InOrder (ranges ++ [r]) ↔
      InOrder ranges ∧ r.start ≤ r.stop ∧ frontier ranges ≤ r.start := by
  unfold InOrder frontier
  rw [List.isChain_append]
  cases ranges.getLast? <;> simp [or_imp, forall_and] <;> tauto

theorem InOrder.of_append {ranges more : List EditRange} (order : InOrder (ranges ++ more)) :
    InOrder ranges :=
  ⟨fun r mem => order.1 r (List.mem_append_left _ mem), order.2.left_of_append⟩

theorem Ordered.of_append {hunks more : List Hunk} (ordered : Ordered (hunks ++ more)) :
    Ordered hunks := by
  unfold Ordered deletedRanges addedRanges at ordered ⊢
  rw [List.filterMap_append, List.filterMap_append] at ordered
  exact ⟨ordered.1.of_append, ordered.2.of_append⟩

theorem deletedRanges_concat (hunks : List Hunk) (h : Hunk) :
    deletedRanges (hunks ++ [h]) = deletedRanges hunks ++ h.deleted.toList := by
  cases deleted : h.deleted <;> simp [deletedRanges, deleted]

theorem addedRanges_concat (hunks : List Hunk) (h : Hunk) :
    addedRanges (hunks ++ [h]) = addedRanges hunks ++ h.added.toList := by
  cases added : h.added <;> simp [addedRanges, added]

theorem late?_eq_none {covered : Nat} {side : Option EditRange} :
    late? covered side = none ↔ ∀ r ∈ side, covered ≤ r.start := by
  cases side <;> simp [late?]

theorem inOrder_append_toList {ranges : List EditRange} {side : Option EditRange} :
    InOrder (ranges ++ side.toList) ↔
      InOrder ranges ∧ (∀ r ∈ side, r.start ≤ r.stop) ∧ late? (frontier ranges) side = none := by
  cases side with
  | none => simp [late?]
  | some r =>
    rw [late?_eq_none, Option.toList_some, inOrder_concat]
    simp

theorem reversed?_eq_none {h : Hunk} :
    h.reversed? = none ↔
      (∀ r ∈ h.deleted, r.start ≤ r.stop) ∧ ∀ r ∈ h.added, r.start ≤ r.stop := by
  simp [Hunk.reversed?, Option.filter_eq_none_iff, EditRange.isReversed]

theorem ordered_concat {before : List Hunk} {h : Hunk} :
    Ordered (before ++ [h]) ↔ Ordered before ∧ fault? before h = none := by
  unfold Ordered fault?
  rw [deletedRanges_concat, addedRanges_concat, inOrder_append_toList, inOrder_append_toList]
  simp only [Option.or_eq_none_iff, Option.map_eq_none_iff, reversed?_eq_none]
  tauto

theorem ordered_or_firstFault (hunks : List Hunk) : Ordered hunks ∨ ∃ e, FirstFault hunks e := by
  have onwards (before rest : List Hunk) (ordered : Ordered before) :
      Ordered (before ++ rest) ∨ ∃ e, FirstFault (before ++ rest) e := by
    induction rest generalizing before with
    | nil => exact .inl (by simpa using ordered)
    | cons h rest ih =>
      cases fault : fault? before h with
      | some e => exact .inr ⟨e, before, h, rest, rfl, ordered, fault⟩
      | none => simpa using ih (before ++ [h]) (ordered_concat.2 ⟨ordered, fault⟩)
  exact onwards [] hunks ⟨inOrder_nil, inOrder_nil⟩

end EditScope.Attribution

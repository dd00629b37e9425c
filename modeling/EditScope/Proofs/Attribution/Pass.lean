import EditScope.Proofs.Attribution.Ordered

set_option autoImplicit false

namespace EditScope.Attribution

def Keeps {o : Outline} (P : List EditRange → Side o → Prop) : Prop :=
  ∀ {ranges : List EditRange} {s : Side o} {side : Option EditRange}, P ranges s →
    (∀ r ∈ side, r.start ≤ r.stop) → late? (frontier ranges) side = none →
      ∃ s', s.touch side = .ok s' ∧ P (ranges ++ side.toList) s'

theorem keeps_covered (o : Outline) :
    Keeps fun ranges (s : Side o) => s.cursor.covered = frontier ranges := by
  intro ranges s side covered forward later
  cases side with
  | none => exact ⟨s, rfl, by simpa using covered⟩
  | some r =>
    have forward := Nat.not_lt.2 (forward r rfl)
    have later := Nat.not_lt.2 (late?_eq_none.1 later r rfl)
    rw [← covered] at later
    refine ⟨_, by simp only [Side.touch, Cursor.locateRange, if_neg forward, if_neg later]; rfl, ?_⟩
    simp [frontier]

section Run

variable {old new : Outline} {h : Hunk} {before rest hunks : List Hunk}
  {sides sides' : Side old × Side new}

theorem touchHunk_eq_ok_iff : touchHunk sides h = .ok sides' ↔
    h.reversed? = none ∧ sides.1.touch h.deleted = .ok sides'.1 ∧
      sides.2.touch h.added = .ok sides'.2 := by
  obtain ⟨s, t⟩ := sides'
  unfold touchHunk
  cases h.reversed? with
  | some range => simp
  | none =>
    cases sides.1.touch h.deleted with
    | error e => simp [bind, Except.bind]
    | ok before =>
      cases sides.2.touch h.added with
      | error e => simp [bind, Except.bind]
      | ok after => simp [bind, Except.bind, pure, Except.pure]

variable {P : List EditRange → Side old → Prop} {Q : List EditRange → Side new → Prop}
  (keepsOld : Keeps P) (keepsNew : Keeps Q)

include keepsOld keepsNew

theorem touchHunk_of_keeps (start : P (deletedRanges before) sides.1 ∧ Q (addedRanges before) sides.2)
    (faultless : fault? before h = none) :
    ∃ sides', touchHunk sides h = .ok sides' ∧
      P (deletedRanges (before ++ [h])) sides'.1 ∧ Q (addedRanges (before ++ [h])) sides'.2 := by
  simp only [fault?, Option.or_eq_none_iff, Option.map_eq_none_iff] at faultless
  obtain ⟨straight, deleted, added⟩ := faultless
  obtain ⟨forwardDeleted, forwardAdded⟩ := reversed?_eq_none.1 straight
  obtain ⟨s, touched, kept⟩ := keepsOld start.1 forwardDeleted deleted
  obtain ⟨t, touched', kept'⟩ := keepsNew start.2 forwardAdded added
  rw [deletedRanges_concat, addedRanges_concat]
  exact ⟨(s, t), touchHunk_eq_ok_iff.2 ⟨straight, touched, touched'⟩, kept, kept'⟩

theorem run_of_keeps (start : P (deletedRanges before) sides.1 ∧ Q (addedRanges before) sides.2)
    (ordered : Ordered (before ++ rest)) :
    ∃ sides', rest.foldlM touchHunk sides = .ok sides' ∧
      P (deletedRanges (before ++ rest)) sides'.1 ∧ Q (addedRanges (before ++ rest)) sides'.2 := by
  induction rest generalizing before sides with
  | nil => exact ⟨sides, rfl, by simpa using start⟩
  | cons h rest ih =>
    -- The hunks done grow at their end, where the next one is checked against them.
    rw [List.append_cons] at ordered ⊢
    have faultless := (ordered_concat.1 ordered.of_append).2
    obtain ⟨sides', touched, next⟩ := touchHunk_of_keeps keepsOld keepsNew start faultless
    obtain ⟨sides'', run, kept⟩ := ih next ordered
    refine ⟨sides'', ?_, kept⟩
    rw [List.foldlM_cons, touched]
    exact run

theorem pass_of_keeps (startOld : P [] {}) (startNew : Q [] {}) (ordered : Ordered hunks) :
    ∃ sides, hunks.foldlM touchHunk (({}, {}) : Side old × Side new) = .ok sides ∧
      P (deletedRanges hunks) sides.1 ∧ Q (addedRanges hunks) sides.2 := by
  have start : P (deletedRanges []) (({}, {}) : Side old × Side new).1 ∧
      Q (addedRanges []) (({}, {}) : Side old × Side new).2 := ⟨startOld, startNew⟩
  exact run_of_keeps keepsOld keepsNew start ordered

end Run

theorem exists_modified_of_ordered (old new : Outline) {hunks : List Hunk} (ordered : Ordered hunks) :
    ∃ cs, modified old new hunks = .ok cs := by
  obtain ⟨sides, run, _⟩ := pass_of_keeps (keeps_covered old) (keeps_covered new) rfl rfl ordered
  unfold modified touchedNames
  rw [run]
  exact ⟨_, rfl⟩

end EditScope.Attribution

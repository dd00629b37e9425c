import EditScope.Proofs.Attribution.Pass
import EditScope.Proofs.Change.Order
import EditScope.Proofs.Cursor.Innermost
import Mathlib.Data.List.Nodup

set_option autoImplicit false

namespace EditScope.Attribution

def Touched (o : Outline) (ranges : List EditRange) (name : QualifiedName) : Prop :=
  ∃ r ∈ ranges, ∃ id : o.Id, o.nameOf id = name ∧
    (id = o.innermost r.start ∨
      r.start < (o.node id).span.start ∧ (o.node id).span.start < r.stop)

def Attributed (before after : QualifiedName → Prop) (c : Change) : Prop :=
  match c.kind with
  | .modify => before c.declaration ∧ after c.declaration
  | .delete => before c.declaration ∧ ¬ after c.declaration
  | .add => ¬ before c.declaration ∧ after c.declaration

variable {o : Outline} {ranges : List EditRange}

theorem touched_append {more : List EditRange} {name : QualifiedName} :
    Touched o (ranges ++ more) name ↔ Touched o ranges name ∨ Touched o more name := by
  simp only [Touched, List.mem_append, or_and_right, exists_or]

theorem touched_singleton {r : EditRange} {name : QualifiedName} :
    Touched o [r] name ↔
      name ∈ (o.innermost r.start :: o.startingWithin r.start r.stop).map o.nameOf := by
  simp only [Touched, List.mem_singleton, exists_eq_left]
  simp only [List.mem_map, List.mem_cons, Outline.startingWithin, List.mem_filter, o.mem_ids,
    true_and, decide_eq_true_eq]
  exact exists_congr fun id => and_comm

structure Follows (s : Side o) (ranges : List EditRange) : Prop where
  tracks : s.cursor.Tracks
  covered : s.cursor.covered = frontier ranges
  touched (name : QualifiedName) : name ∈ s.touched ↔ Touched o ranges name

theorem follows_start (o : Outline) : Follows ({} : Side o) [] where
  tracks := Cursor.tracks_new o
  covered := rfl
  touched name := by simp [Touched]

theorem touch_eq_error {s : Side o} (follows : Follows s ranges) {side : Option EditRange}
    {e : AttributionError} (forward : ∀ r ∈ side, r.start ≤ r.stop)
    (late : late? (frontier ranges) side = some e) : s.touch side = .error e := by
  cases side with
  | none => simp [late?] at late
  | some r =>
    have forward := Nat.not_lt.2 (forward r rfl)
    simp only [late?, Option.bind_some, ← follows.covered] at late
    split at late
    · rename_i early
      cases Option.some.inj late
      simp only [Side.touch, Cursor.locateRange, if_neg forward, if_pos early]
    · simp at late

theorem touch_eq_ok (laminar : o.Laminar) (zero : o.root.span.start = 0) {s : Side o}
    (follows : Follows s ranges) {side : Option EditRange} (forward : ∀ r ∈ side, r.start ≤ r.stop)
    (later : late? (frontier ranges) side = none) :
    ∃ s', s.touch side = .ok s' ∧ Follows s' (ranges ++ side.toList) := by
  cases side with
  | none => exact ⟨s, rfl, by simpa using follows⟩
  | some r =>
    have later := late?_eq_none.1 later r rfl
    obtain ⟨c, found, tracks, covered⟩ := Cursor.locateRange_of_le laminar follows.tracks zero
      (forward r rfl) (follows.covered ▸ later)
    let names := (o.innermost r.start :: o.startingWithin r.start r.stop).map o.nameOf
    refine ⟨⟨c, names.reverse ++ s.touched⟩, by simp only [Side.touch, found, names],
      tracks, ?_, fun name => ?_⟩
    · simp [covered, frontier]
    · rw [Option.toList_some, touched_append, touched_singleton, List.mem_append, List.mem_reverse,
        follows.touched, or_comm]

section Run

variable {old new : Outline} {before : List Hunk} {sides : Side old × Side new}

def FollowsBoth (sides : Side old × Side new) (hunks : List Hunk) : Prop :=
  Follows sides.1 (deletedRanges hunks) ∧ Follows sides.2 (addedRanges hunks)

variable (oldLaminar : old.Laminar) (newLaminar : new.Laminar) (oldZero : old.root.span.start = 0)
  (newZero : new.root.span.start = 0)

include oldLaminar newLaminar oldZero newZero

omit newLaminar newZero in
theorem touchHunk_eq_error (follows : FollowsBoth sides before) {h : Hunk} {e : AttributionError}
    (fault : fault? before h = some e) : touchHunk sides h = .error e := by
  unfold fault? at fault
  cases reversed : h.reversed? with
  | some range =>
    simp only [reversed, Option.map_some, Option.some_or, Option.some.injEq] at fault
    simp only [touchHunk, reversed, fault]
  | none =>
    obtain ⟨forwardDeleted, forwardAdded⟩ := reversed?_eq_none.1 reversed
    simp only [touchHunk, reversed, Option.map_none, Option.none_or] at fault ⊢
    cases deleted : late? (frontier (deletedRanges before)) h.deleted with
    | some e' =>
      simp only [deleted, Option.some_or, Option.some.injEq] at fault
      rw [touch_eq_error follows.1 forwardDeleted deleted, fault]
      rfl
    | none =>
      simp only [deleted, Option.none_or] at fault
      obtain ⟨s, touched, _⟩ := touch_eq_ok oldLaminar oldZero follows.1 forwardDeleted deleted
      rw [touched, touch_eq_error follows.2 forwardAdded fault]
      rfl

theorem run_of_ordered {hunks : List Hunk} (ordered : Ordered hunks) :
    ∃ sides, hunks.foldlM touchHunk (({}, {}) : Side old × Side new) = .ok sides ∧
      FollowsBoth sides hunks := by
  have keeps {o : Outline} (laminar : o.Laminar) (zero : o.root.span.start = 0) :
      Keeps fun ranges (s : Side o) => Follows s ranges :=
    fun follows forward later => touch_eq_ok laminar zero follows forward later
  exact pass_of_keeps (keeps oldLaminar oldZero) (keeps newLaminar newZero) (follows_start old)
    (follows_start new) ordered

theorem run_of_firstFault {hunks : List Hunk} {e : AttributionError} (fault : FirstFault hunks e) :
    hunks.foldlM touchHunk (({}, {}) : Side old × Side new) = .error e := by
  obtain ⟨before, h, after, rfl, ordered, fault⟩ := fault
  obtain ⟨sides, run, follows⟩ :=
    run_of_ordered oldLaminar newLaminar oldZero newZero ordered
  have failed := touchHunk_eq_error oldLaminar oldZero follows fault
  rw [List.foldlM_append, run]
  show (h :: after).foldlM touchHunk sides = .error e
  rw [List.foldlM_cons, failed]
  rfl

end Run

theorem fault?_ne_reversedRange {before : List Hunk} {h : Hunk} {start stop : Nat} :
    fault? before h ≠ some (.query (.reversedRange start stop)) := by
  have late (covered : Nat) (side : Option EditRange) :
      late? covered side ≠ some (.query (.reversedRange start stop)) := by
    cases side with
    | none => simp [late?]
    | some r =>
      simp only [late?, Option.bind_some]
      split <;> simp
  unfold fault?
  cases h.reversed? with
  | some range => simp
  | none =>
    cases deleted : late? (frontier (deletedRanges before)) h.deleted with
    | some e =>
      have other := late (frontier (deletedRanges before)) h.deleted
      rw [deleted] at other
      simpa using other
    | none => simpa using late _ h.added

theorem Attributed.unique {before after : QualifiedName → Prop} {c d : Change}
    (attributed : Attributed before after c) (attributed' : Attributed before after d)
    (same : c.declaration = d.declaration) : c = d := by
  obtain ⟨name, kind⟩ := c
  obtain ⟨name', kind'⟩ := d
  cases same
  cases kind <;> cases kind' <;> simp_all [Attributed]

theorem modified_of_touchedNames {old new : Outline} {hunks : List Hunk}
    {before after : List QualifiedName} (touched : touchedNames old new hunks = .ok (before, after)) :
    ∃ cs, modified old new hunks = .ok cs ∧ (cs.Pairwise fun c d => compare c d = .lt) ∧
      ∀ c, c ∈ cs ↔ Attributed (· ∈ before) (· ∈ after) c := by
  refine ⟨_, by simp only [modified, touched]; rfl, ascending_pairwise _, fun c => ?_⟩
  rw [mem_ascending]
  obtain ⟨name, kind⟩ := c
  cases kind <;> simp [Attributed]
  all_goals grind

section Whole

variable {old new : Outline} {hunks : List Hunk} (oldLaminar : old.Laminar)
  (newLaminar : new.Laminar) (oldZero : old.root.span.start = 0) (newZero : new.root.span.start = 0)

include oldLaminar newLaminar oldZero newZero

theorem modified_of_ordered (ordered : Ordered hunks) :
    ∃ cs, modified old new hunks = .ok cs ∧ cs.Nodup ∧ ∀ c, c ∈ cs ↔
      Attributed (Touched old (deletedRanges hunks)) (Touched new (addedRanges hunks)) c := by
  obtain ⟨sides, run, follows⟩ :=
    run_of_ordered oldLaminar newLaminar oldZero newZero ordered
  have touched : touchedNames old new hunks =
      .ok (ascending sides.1.touched, ascending sides.2.touched) := by
    unfold touchedNames
    rw [run]
    rfl
  obtain ⟨cs, result, sorted, mem⟩ := modified_of_touchedNames touched
  have before (name : QualifiedName) :
      name ∈ ascending sides.1.touched ↔ Touched old (deletedRanges hunks) name :=
    mem_ascending.trans (follows.1.touched name)
  have after (name : QualifiedName) :
      name ∈ ascending sides.2.touched ↔ Touched new (addedRanges hunks) name :=
    mem_ascending.trans (follows.2.touched name)
  simp only [before, after] at mem
  exact ⟨cs, result, nodup_of_ascending sorted, mem⟩

theorem modified_of_firstFault {e : AttributionError} (fault : FirstFault hunks e) :
    modified old new hunks = .error e := by
  unfold modified touchedNames
  rw [run_of_firstFault oldLaminar newLaminar oldZero newZero fault]
  rfl

end Whole

theorem modified_iff_touched (settings : OutlineSettings) (old new : FileText)
    (hunks : List Hunk) :
    let before := (outline settings old).1
    let after := (outline settings new).1
    let result := (changes settings (.modified old new hunks)).1
    ((∃ cs, result = .ok cs) ↔ Ordered hunks) ∧
      (∀ e, result = .error e ↔ FirstFault hunks e) ∧
      (∀ start stop, result ≠ .error (.query (.reversedRange start stop))) ∧
      ∀ cs, result = .ok cs →
        (∀ c, c ∈ cs ↔
          Attributed (Touched before (deletedRanges hunks)) (Touched after (addedRanges hunks)) c) ∧
        (cs.map Change.declaration).Nodup := by
  intro before after result
  have oldLaminar : before.Laminar := Outline.laminar_of_source settings old.unitHint old.content
  have newLaminar : after.Laminar := Outline.laminar_of_source settings new.unitHint new.content
  -- Either the pass goes through or it stops at the first fault; each rules out the other.
  rcases ordered_or_firstFault hunks with ordered | ⟨e, fault⟩
  · obtain ⟨cs, ok, nodup, mem⟩ :
        ∃ cs, result = .ok cs ∧ cs.Nodup ∧ ∀ c, c ∈ cs ↔
          Attributed (Touched before (deletedRanges hunks)) (Touched after (addedRanges hunks)) c :=
      modified_of_ordered oldLaminar newLaminar rfl rfl ordered
    refine ⟨⟨fun _ => ordered, fun _ => ⟨cs, ok⟩⟩, fun e => ⟨?_, fun fault => ?_⟩, ?_, ?_⟩
    · simp [ok]
    · exact modified_of_firstFault oldLaminar newLaminar rfl rfl fault
    · simp [ok]
    · intro cs' ok'
      cases ok.symm.trans ok'
      exact ⟨mem, List.Nodup.map_on (fun c memc d memd same =>
        ((mem c).1 memc).unique ((mem d).1 memd) same) nodup⟩
  · have failed : result = .error e := modified_of_firstFault oldLaminar newLaminar rfl rfl fault
    refine ⟨⟨?_, fun ordered => ?_⟩, fun e' => ⟨?_, fun fault => ?_⟩, fun start stop other => ?_, ?_⟩
    · simp [failed]
    · obtain ⟨cs, ok, _⟩ := modified_of_ordered oldLaminar newLaminar rfl rfl ordered
      exact ⟨cs, ok⟩
    · intro failed'
      cases failed.symm.trans failed'
      exact fault
    · exact modified_of_firstFault oldLaminar newLaminar rfl rfl fault
    · cases failed.symm.trans other
      obtain ⟨before, h, after, _, _, at_fault⟩ := fault
      exact fault?_ne_reversedRange at_fault
    · simp [failed]

end EditScope.Attribution

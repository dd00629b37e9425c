import EditScope.Batch
import EditScope.Proofs.Change.Order

set_option autoImplicit false

namespace EditScope

namespace Patch

variable (settings : Settings) (source : Source)

def needed (p : Patch) : List Snapshot :=
  match p.status with
  | .added => p.new.toList
  | .deleted => p.old.toList
  | .modified | .renamed => p.old.toList ++ p.new.toList

def parsed? (p : Patch) : Option FileChanges :=
  match (p.analyse settings source).1 with
  | .ok parsed => parsed
  | .error _ => none

def failed? (p : Patch) : Option FailedPatch :=
  match (p.analyse settings source).1 with
  | .ok _ => none
  | .error e => some ⟨p.path, e⟩

variable {settings source}

theorem fileText_congr (settings : Settings) {source' : Source} {version : Snapshot}
    (agree : source version = source' version) :
    fileText settings source version = fileText settings source' version := by
  rw [fileText, fileText, agree]

theorem bothVersions_of_some {p : Patch} {old new : Snapshot} (before : p.old = some old)
    (after : p.new = some new) : p.bothVersions = .ok (old, new) := by
  simp only [bothVersions, version, before, after, Option.elim]
  rfl

theorem comparison_congr {source' : Source} {p : Patch}
    (agree : ∀ version ∈ p.needed, source version = source' version) :
    p.comparison settings source = p.comparison settings source' := by
  obtain ⟨status, old, new, hunks⟩ := p
  cases status with
  | added =>
    cases new with
    | none => rfl
    | some new =>
      have same := fileText_congr settings (agree new (by simp [needed]))
      simp only [comparison, version, Option.elim, same]
  | deleted =>
    cases old with
    | none => rfl
    | some old =>
      have same := fileText_congr settings (agree old (by simp [needed]))
      simp only [comparison, version, Option.elim, same]
  | modified | renamed =>
    cases old with
    | none => rfl
    | some old =>
      cases new with
      | none => rfl
      | some new =>
        have first := fileText_congr settings (agree old (by simp [needed]))
        have second := fileText_congr settings (agree new (by simp [needed]))
        simp only [comparison, bothVersions_of_some (p := ⟨_, some old, some new, hunks⟩) rfl rfl,
          first, second]

theorem analyse_congr {source' : Source} {p : Patch}
    (agree : ∀ version ∈ p.needed, source version = source' version) :
    p.analyse settings source = p.analyse settings source' := by
  rw [analyse, analyse, comparison_congr agree]

end Patch

namespace Report

instance : Append Report where
  append r s := ⟨r.patches ++ s.patches, r.failures ++ s.failures⟩

variable (settings : Settings) (source : Source)

inductive Filed : List Patch → Report → Prop where
  | nil : Filed [] ⟨[], []⟩
  | parsed {p : Patch} {rest : List Patch} {r : Report} {changes : FileChanges}
      (outcome : (p.analyse settings source).1 = .ok (some changes)) (filed : Filed rest r) :
      Filed (p :: rest) ⟨changes :: r.patches, r.failures⟩
  | failed {p : Patch} {rest : List Patch} {r : Report} {error : PatchError}
      (outcome : (p.analyse settings source).1 = .error error) (filed : Filed rest r) :
      Filed (p :: rest) ⟨r.patches, ⟨p.path, error⟩ :: r.failures⟩
  | skipped {p : Patch} {rest : List Patch} {r : Report}
      (outcome : (p.analyse settings source).1 = .ok none) (filed : Filed rest r) :
      Filed (p :: rest) r

def file (p : Patch) (r : Report) : Report :=
  match (p.analyse settings source).1 with
  | .ok (some changes) => ⟨changes :: r.patches, r.failures⟩
  | .ok none => r
  | .error e => ⟨r.patches, ⟨p.path, e⟩ :: r.failures⟩

theorem Runner.inTurn_keepsOrder : Runner.inTurn.KeepsOrder := fun _ _ => rfl

section Ordered

variable {parallel : Runner} (ordered : parallel.KeepsOrder)

include ordered

theorem outcomes_eq (patches : List Patch) :
    ((if settings.parallel then parallel else .inTurn) (analyse settings source) patches).1 =
      patches.map fun p => (p, (p.analyse settings source).1) := by
  cases settings.parallel with
  | false => exact Runner.inTurn_keepsOrder _ _
  | true => exact ordered _ _

theorem ofPatchesBy_eq (patches : List Patch) : (ofPatchesBy parallel settings source patches).1 =
    ⟨patches.filterMap (Patch.parsed? settings source),
      patches.filterMap (Patch.failed? settings source)⟩ := by
  simp only [ofPatchesBy, outcomes_eq settings source ordered, List.filterMap_map]
  rfl

theorem ofPatchesBy_cons (p : Patch) (rest : List Patch) :
    (ofPatchesBy parallel settings source (p :: rest)).1 =
      file settings source p (ofPatchesBy parallel settings source rest).1 := by
  rw [ofPatchesBy_eq _ _ ordered, ofPatchesBy_eq _ _ ordered, file]
  cases outcome : (p.analyse settings source).1 with
  | error e => simp [Patch.parsed?, Patch.failed?, outcome]
  | ok parsed => cases parsed <;> simp [Patch.parsed?, Patch.failed?, outcome]

theorem ofPatchesBy_append (patches more : List Patch) :
    (ofPatchesBy parallel settings source (patches ++ more)).1 =
      (ofPatchesBy parallel settings source patches).1 ++
        (ofPatchesBy parallel settings source more).1 := by
  simp only [ofPatchesBy_eq _ _ ordered, List.filterMap_append]
  rfl

theorem filed_ofPatchesBy (patches : List Patch) :
    Filed settings source patches (ofPatchesBy parallel settings source patches).1 := by
  induction patches with
  | nil =>
    rw [ofPatchesBy_eq _ _ ordered]
    exact .nil
  | cons p rest ih =>
    rw [ofPatchesBy_cons _ _ ordered, file]
    split
    · rename_i outcome
      exact .parsed outcome ih
    · rename_i outcome
      exact .skipped outcome ih
    · rename_i outcome
      exact .failed outcome ih

variable {settings source} {patches patches' : List Patch} {r : Report}

theorem Filed.eq_ofPatchesBy (filed : Filed settings source patches r) :
    r = (ofPatchesBy parallel settings source patches).1 := by
  induction filed with
  | nil => rw [ofPatchesBy_eq _ _ ordered, List.filterMap_nil, List.filterMap_nil]
  | parsed outcome _ ih | failed outcome _ ih | skipped outcome _ ih =>
    rw [ofPatchesBy_cons _ _ ordered, file, outcome, ← ih]

theorem ofPatchesBy_parallel (on : Bool) :
    (ofPatchesBy parallel { settings with parallel := on } source patches).1 =
      (ofPatchesBy parallel settings source patches).1 := by
  rw [ofPatchesBy_eq _ _ ordered, ofPatchesBy_eq _ _ ordered]
  rfl

theorem changes_perm (perm : patches.Perm patches') :
    (ofPatchesBy parallel settings source patches').1.changes =
      (ofPatchesBy parallel settings source patches).1.changes := by
  have alike : (ofPatchesBy parallel settings source patches').1.patches.Perm
      (ofPatchesBy parallel settings source patches).1.patches := by
    rw [ofPatchesBy_eq _ _ ordered, ofPatchesBy_eq _ _ ordered]
    exact perm.symm.filterMap _
  refine eq_of_ascending (ascending_pairwise _) (ascending_pairwise _) fun c => ?_
  exact mem_ascending.trans ((alike.flatMap_right _).mem_iff.trans mem_ascending.symm)

end Ordered

theorem mem_changes {r : Report} {c : Change} : c ∈ r.changes ↔ ∃ p ∈ r.patches, c ∈ p.changes := by
  rw [changes, Change.sorted, mem_ascending, List.mem_flatMap]

theorem ofPatches_isolated {parallel : Runner} (ordered : parallel.KeepsOrder) (settings : Settings)
    (source : Source) (patches : List Patch) :
    let report := (ofPatchesBy parallel settings source patches).1
    (∀ r, Filed settings source patches r ↔ r = report) ∧
      (∀ more, (ofPatchesBy parallel settings source (patches ++ more)).1 =
        report ++ (ofPatchesBy parallel settings source more).1) ∧
      (report.changes.Pairwise fun c d => compare c d = .lt) ∧
      (∀ c, c ∈ report.changes ↔ ∃ p ∈ report.patches, c ∈ p.changes) ∧
      (∀ patches' on, patches.Perm patches' →
        (ofPatchesBy parallel { settings with parallel := on } source patches').1.changes =
          report.changes) ∧
      (∀ on, (ofPatchesBy parallel { settings with parallel := on } source patches).1 = report) ∧
      ∀ (source' : Source) (p : Patch), (∀ version ∈ p.needed, source version = source' version) →
        p.analyse settings source = p.analyse settings source' := by
  intro report
  refine ⟨fun r => ⟨Filed.eq_ofPatchesBy ordered, ?_⟩, ofPatchesBy_append settings source ordered patches,
    ascending_pairwise _, fun c => mem_changes, fun patches' on perm => ?_,
    fun on => ofPatchesBy_parallel ordered on, fun source' p => Patch.analyse_congr⟩
  · rintro rfl
    exact filed_ofPatchesBy settings source ordered patches
  · rw [ofPatchesBy_parallel ordered]
    exact changes_perm ordered perm

theorem ofPatches_isolated_mixed :
    let a : Snapshot := ⟨"A.java", "r2"⟩
    let b : Snapshot := ⟨"B.java", "r2"⟩
    let notes : Snapshot := ⟨"README.md", "r2"⟩
    let store := Store.put {} a ("class A\x7b\x7d".toList.map Piece.byte)
    let patches := [Patch.added notes, .added b, .added a]
    let backwards : Runner := fun f patches =>
      (patches.map fun p => (f p).1, patches.reverse.flatMap fun p => (f p).2)
    let report := (ofPatchesBy backwards {} store.read patches).1
    backwards.KeepsOrder ∧ report.failures = [⟨"B.java", .unreadable b "no such file"⟩] ∧
      report.patches.length = 1 ∧ Filed {} store.read patches report ∧
      (ofPatchesBy backwards .sequential store.read [.added a, .added notes, .added b]).1.changes =
        report.changes ∧
      (Patch.added a).analyse {} store.read = (Patch.added a).analyse {} (store.fail b "gone").read := by
  intro a b notes store patches backwards report
  have ordered : backwards.KeepsOrder := fun _ _ => rfl
  obtain ⟨filed, _, _, _, reordered, _, unread⟩ := ofPatches_isolated ordered {} store.read patches
  have perm : patches.Perm [.added a, .added notes, .added b] := by decide +kernel
  have agree : ∀ version ∈ (Patch.added a).needed,
      store.read version = (store.fail b "gone").read version := by
    intro version mem
    cases List.mem_singleton.1 mem
    rfl
  exact ⟨ordered, by decide +kernel, by decide +kernel, (filed report).2 rfl, reordered _ false perm,
    unread _ _ agree⟩

end Report

end EditScope

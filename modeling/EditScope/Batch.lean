import EditScope.Patch.Basic

set_option autoImplicit false

namespace EditScope

abbrev Source := Snapshot → Except PatchError (List UInt8)

namespace Patch

variable (settings : Settings) (source : Source)

def fileText (version : Snapshot) : Except PatchError Attribution.FileText :=
  (source version).map (⟨·, settings.unitNameFor? version.path⟩)

def bothVersions (p : Patch) : Except PatchError (Snapshot × Snapshot) := do
  let old ← p.version .old
  let new ← p.version .new
  return (old, new)

/-- The hunks of a file that came or went do not count. -/
def comparison (p : Patch) : Except PatchError Attribution.Comparison × List Event :=
  match p.status with
  | .added =>
    match p.version .new with
    | .error e => (.error e, [])
    | .ok new =>
      ((fileText settings source new).map .added, [.analysing p.status new.path none])
  | .deleted =>
    match p.version .old with
    | .error e => (.error e, [])
    | .ok old =>
      ((fileText settings source old).map .deleted, [.analysing p.status old.path none])
  | .modified | .renamed =>
    match p.bothVersions with
    | .error e => (.error e, [])
    | .ok (old, new) =>
      let read := do
        let before ← fileText settings source old
        let after ← fileText settings source new
        return .modified before after p.hunks
      (read, [.analysing p.status new.path (some p.hunks.length)])

def isAnalysed (p : Patch) : Bool :=
  (p.old.toList ++ p.new.toList).any fun version => settings.isAnalysed version.path

def analyse (p : Patch) : Except PatchError (Option FileChanges) × List Event :=
  if !p.isAnalysed settings then (.ok none, [.notAnalysed p.path])
  else
    match p.comparison settings source with
    | (.error e, events) => (.error e, events)
    | (.ok comparison, events) =>
      let (changes, more) := Attribution.changes settings.outline comparison
      let parsed (changes : List Change) : FileChanges :=
        ⟨p.old.map Snapshot.path, p.new.map Snapshot.path, p.status, changes⟩
      match changes with
      | .error e => (.error (.attribution e), events ++ more)
      | .ok changes => (.ok (some (parsed changes)), events ++ more)

end Patch

structure FailedPatch where
  path : String
  error : PatchError
  deriving DecidableEq, Repr

structure Report where
  patches : List FileChanges
  failures : List FailedPatch
  deriving DecidableEq, Repr

namespace Report

def allAnalysed (r : Report) : Bool := r.failures.isEmpty

def changes (r : Report) : List Change := Change.sorted (r.patches.flatMap FileChanges.changes)

abbrev Outcome := Patch × Except PatchError (Option FileChanges)

/-- The events of all patches come in one list, in the order they were made. -/
abbrev Runner := (Patch → Outcome × List Event) → List Patch → List Outcome × List Event

def Runner.KeepsOrder (run : Runner) : Prop :=
  ∀ f patches, (run f patches).1 = patches.map fun p => (f p).1

def Runner.inTurn : Runner := fun f patches =>
  (patches.map fun p => (f p).1, patches.flatMap fun p => (f p).2)

def analyse (settings : Settings) (source : Source) (p : Patch) : Outcome × List Event :=
  let (outcome, events) := p.analyse settings source
  ((p, outcome), events)

def ofPatchesBy (parallel : Runner) (settings : Settings) (source : Source) (patches : List Patch) :
    Report × List Event :=
  let run := if settings.parallel then parallel else .inTurn
  let (outcomes, events) := run (analyse settings source) patches
  let parsed := outcomes.filterMap fun (_, outcome) =>
    match outcome with
    | .ok parsed => parsed
    | .error _ => none
  let failures := outcomes.filterMap fun (p, outcome) =>
    match outcome with
    | .ok _ => none
    | .error e => some ⟨p.path, e⟩
  let done := .batchDone parsed.length patches.length failures.length
    (parsed.flatMap (·.changes)).length
  (⟨parsed, failures⟩,
    events ++ failures.map (fun f => .patchFailed f.path f.error.message) ++ [done])

def ofPatches (settings : Settings) (source : Source) (patches : List Patch) :
    Report × List Event :=
  ofPatchesBy .inTurn settings source patches

end Report

end EditScope

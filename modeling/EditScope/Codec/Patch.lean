import EditScope.Codec.Outline
import EditScope.Patch.Basic

set_option autoImplicit false

namespace EditScope

namespace EditRange

def toJson (r : EditRange) : Json := .obj [("start", .ofNat r.start), ("end", .ofNat r.stop)]

def ofJson? : Codec.Decoder EditRange := fun v =>
  match Codec.slots? .json false ["start", "end"] v with
  | some [start, stop] => do
    let start ← start.required Json.nat?
    let stop ← stop.required Json.nat?
    return ⟨start, stop⟩
  | _ => none

end EditRange

namespace Hunk

def toJson (h : Hunk) : Json :=
  .obj [("deleted", .ofOption EditRange.toJson h.deleted),
    ("added", .ofOption EditRange.toJson h.added)]

def ofJson? : Codec.Decoder Hunk := fun v =>
  match Codec.slots? .json false ["deleted", "added"] v with
  | some [deleted, added] => do
    let deleted ← deleted.optional EditRange.ofJson?
    let added ← added.optional EditRange.ofJson?
    return ⟨deleted, added⟩
  | _ => none

end Hunk

namespace PatchKind

def toJson (s : PatchKind) : Json := .str s.name

def ofJson? : Codec.Decoder PatchKind := Codec.constant .json all name

end PatchKind

namespace Snapshot

def toJson (v : Snapshot) : Json :=
  .obj [("path", .str v.path), ("revision", .str v.revision)]

def ofJson? : Codec.Decoder Snapshot := fun v =>
  match Codec.slots? .json false ["path", "revision"] v with
  | some [path, revision] => do
    let path ← path.required Json.str?
    let revision ← revision.required Json.str?
    return ⟨path, revision⟩
  | _ => none

end Snapshot

namespace Patch

def toJson (p : Patch) : Json :=
  .obj [("status", p.status.toJson), ("old", .ofOption Snapshot.toJson p.old),
    ("new", .ofOption Snapshot.toJson p.new), ("hunks", .ofList Hunk.toJson p.hunks)]

def ofJson? : Codec.Decoder Patch := fun v =>
  match Codec.slots? .json false ["status", "old", "new", "hunks"] v with
  | some [status, old, new, hunks] => do
    let status ← status.required PatchKind.ofJson?
    let old ← old.optional Snapshot.ofJson?
    let new ← new.optional Snapshot.ofJson?
    let hunks ← hunks.withDefault (Codec.list Hunk.ofJson?) []
    return ⟨status, old, new, hunks⟩
  | _ => none

end Patch

namespace Change

def Kind.toJson (k : Kind) : Json := .str k.name

def Kind.ofJson? : Codec.Decoder Kind := Codec.constant .json Kind.all Kind.name

def toJson (c : Change) : Json :=
  .obj [("identifier", c.declaration.toJson), ("kind", c.kind.toJson)]

def ofJson? : Codec.Decoder Change := fun v =>
  match Codec.slots? .json false ["identifier", "kind"] v with
  | some [declaration, kind] => do
    let declaration ← declaration.required QualifiedName.ofJson?
    let kind ← kind.required Kind.ofJson?
    return ⟨declaration, kind⟩
  | _ => none

end Change

namespace FileChanges

def toJson (p : FileChanges) : Json :=
  .obj [("old_path", .ofOption .str p.oldPath), ("new_path", .ofOption .str p.newPath),
    ("status", p.status.toJson), ("changes", .ofList Change.toJson p.changes)]

/-- The changes are a set: their order and repetitions do not count. -/
def ofJson? : Codec.Decoder FileChanges := fun v =>
  match Codec.slots? .json false ["old_path", "new_path", "status", "changes"] v with
  | some [oldPath, newPath, status, changes] => do
    let oldPath ← oldPath.optional Json.str?
    let newPath ← newPath.optional Json.str?
    let status ← status.required PatchKind.ofJson?
    let changes ← changes.required (Codec.list Change.ofJson?)
    return ⟨oldPath, newPath, status, Change.sorted changes⟩
  | _ => none

end FileChanges

end EditScope

import EditScope.Codec.Basic
import EditScope.Settings

set_option autoImplicit false

namespace EditScope

namespace Overloads

def all : List Overloads := [.merge, .ordinal]

def name : Overloads → String
  | .merge => "merge"
  | .ordinal => "ordinal"

def toJson (o : Overloads) : Json := .str o.name

def ofJson? (d : Codec.Dialect) : Codec.Decoder Overloads := Codec.constant d all name

end Overloads

namespace OutlineSettings

def fieldNames : List String := ["default_unit_name", "overloads"]

def toJson (s : OutlineSettings) : Json :=
  .obj [("default_unit_name", .str s.defaultUnitName), ("overloads", s.overloads.toJson)]

def ofJson? (d : Codec.Dialect) : Codec.Decoder OutlineSettings := fun v =>
  match Codec.slots? d false fieldNames v with
  | some [unitName, overloads] => do
    let default : OutlineSettings := {}
    let defaultUnitName ← unitName.withDefault Json.str? default.defaultUnitName
    let overloads ← overloads.withDefault (Overloads.ofJson? d) default.overloads
    return ⟨defaultUnitName, overloads⟩
  | _ => none

end OutlineSettings

namespace Settings

def fieldNames : List String := ["parser", "extensions", "source_roots", "parallel"]

def toJson (s : Settings) : Json :=
  .obj [("parser", s.outline.toJson), ("extensions", .ofList .str s.extensions),
    ("source_roots", .ofList .str s.sourceRoots), ("parallel", .bool s.parallel)]

def ofJson? (d : Codec.Dialect) : Codec.Decoder Settings := fun v =>
  match Codec.slots? d true fieldNames v with
  | some [outline, extensions, sourceRoots, parallel] => do
    let default : Settings := {}
    let outline ← outline.withDefault (OutlineSettings.ofJson? d) default.outline
    let extensions ← extensions.withDefault (Codec.list Json.str?) default.extensions
    let sourceRoots ← sourceRoots.withDefault (Codec.list Json.str?) default.sourceRoots
    let parallel ← parallel.withDefault Json.bool? default.parallel
    return ⟨outline, extensions, sourceRoots, parallel⟩
  | _ => none

end Settings

end EditScope

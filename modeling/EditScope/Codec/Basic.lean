import EditScope.Json.Reader

set_option autoImplicit false

namespace EditScope.Codec

abbrev Decoder (α : Type) := Json → Option α

structure Dialect where
  -- Whether an array for a record may have items beyond its fields.
  spareItems : Bool
  -- What may stand beside the name of a constant.
  isUnit : Json → Bool

def Dialect.json : Dialect where
  spareItems := false
  isUnit
    | .null => true
    | _ => false

def Dialect.toml : Dialect where
  spareItems := true
  isUnit
    | .arr [] => true
    | .obj [] => true
    | _ => false

inductive Slot where
  | given (v : Json)
  | leftOut
  | beyond

namespace Slot

def required {α : Type} (decode : Decoder α) : Slot → Option α
  | .given v => decode v
  | .leftOut | .beyond => none

def optional {α : Type} (decode : Decoder α) : Slot → Option (Option α)
  | .given .null => some none
  | .given v => (decode v).map some
  | .leftOut => some none
  | .beyond => none

def withDefault {α : Type} (decode : Decoder α) (default : α) : Slot → Option α
  | .given v => decode v
  | .leftOut | .beyond => some default

end Slot

def slots? (d : Dialect) (closed : Bool) (names : List String) : Json → Option (List Slot)
  | .obj fields =>
    if closed && fields.any (!names.contains ·.1) then none
    else if names.any (fun name => 1 < fields.countP (·.1 == name)) then none
    else some (names.map fun name => ((Json.field? fields name).map Slot.given).getD .leftOut)
  | .arr items =>
    if !d.spareItems && names.length < items.length then none
    else some (names.zipIdx.map fun (_, i) => ((items[i]?).map Slot.given).getD .beyond)
  | _ => none

def constant {α : Type} (d : Dialect) (values : List α) (name : α → String) : Decoder α
  | .str s => values.find? (name · == s)
  | .obj [(s, beside)] => if d.isUnit beside then values.find? (name · == s) else none
  | _ => none

def list {α : Type} (decode : Decoder α) : Decoder (List α)
  | .arr items => items.mapM decode
  | _ => none

end EditScope.Codec

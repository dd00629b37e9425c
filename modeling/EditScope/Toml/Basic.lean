import EditScope.Json.Basic

set_option autoImplicit false

namespace EditScope.Toml

structure Origin where
  implicit : Bool
  dotted : Bool
  deriving DecidableEq, Repr

inductive Item where
  | string (s : String)
  | integer (n : Int)
  | float (finite : Bool)
  | boolean (b : Bool)
  | datetime (text : String)
  | array (items : List Item)
  | inline (origin : Origin) (entries : List (String × Item))
  | table (origin : Origin) (entries : List (String × Item))
  | tables (elements : List (List (String × Item)))

abbrev Entries := List (String × Item)

structure Table where
  origin : Origin := ⟨false, false⟩
  entries : Entries := []

def Entries.get? (entries : Entries) (key : String) : Option Item :=
  (entries.find? (·.1 == key)).map Prod.snd

def Entries.set (entries : Entries) (key : String) (item : Item) : Entries :=
  if entries.any (·.1 == key) then
    entries.map fun e => if e.1 == key then (key, item) else e
  else entries ++ [(key, item)]

def Entries.setLast (entries : Entries) (key : String) (item : Item) : Entries :=
  entries.filter (·.1 != key) ++ [(key, item)]

def Table.set (t : Table) (key : String) (item : Item) : Table :=
  { t with entries := Entries.set t.entries key item }

/-- Of tables in a list the last is meant; a dotted key may not go through one opened by a header. -/
def Table.modifyAt (dotted : Bool) (change : Table → Option Table) :
    List String → Table → Option Table
  | [], t => change t
  | key :: path, t =>
    match Entries.get? t.entries key with
    | none => do
      let child ← modifyAt dotted change path ⟨⟨true, dotted⟩, []⟩
      return t.set key (.table child.origin child.entries)
    | some (.table origin entries) =>
      if dotted && !origin.implicit then none
      else do
        let child ← modifyAt dotted change path ⟨origin, entries⟩
        return t.set key (.table child.origin child.entries)
    | some (.tables elements) =>
      match elements.getLast? with
      | none => none
      | some last => do
        let child ← modifyAt dotted change path { entries := last }
        return t.set key (.tables (elements.dropLast ++ [child.entries]))
    | some _ => none

def Table.addNew (dotted : Bool) (key : String) (item : Item) (t : Table) : Option Table :=
  if t.origin.dotted != dotted || (Entries.get? t.entries key).isSome then none
  else some (t.set key item)

def Table.addValue (path : List String) (key : String) (item : Item) (t : Table) : Option Table :=
  t.modifyAt true (addNew (!path.isEmpty) key item) path

def Table.modifyInline (change : Table → Option Table) : List String → Table → Option Table
  | [], t => change t
  | key :: path, t =>
    match Entries.get? t.entries key with
    | none => do
      let child ← modifyInline change path ⟨⟨true, true⟩, []⟩
      return t.set key (.inline child.origin child.entries)
    | some (.inline origin entries) =>
      if !origin.implicit then none
      else do
        let child ← modifyInline change path ⟨origin, entries⟩
        return t.set key (.inline child.origin child.entries)
    | some _ => none

def inlineTable? (pairs : List (List String × String × Item)) : Option Item := do
  let add (t : Table) : List String × String × Item → Option Table
    | (path, key, item) => t.modifyInline (Table.addNew (!path.isEmpty) key item) path
  let t ← pairs.foldlM add {}
  return .inline t.origin t.entries

/-- A table takes its place when it is opened, whatever place it had before. -/
def Table.openTable (key : String) (t : Table) : Option Table :=
  match Entries.get? t.entries key with
  | none => some (t.set key (.table ⟨false, false⟩ []))
  | some (.table origin entries) =>
    if origin.implicit && !origin.dotted then
      some { t with entries := Entries.setLast t.entries key (.table ⟨false, false⟩ entries) }
    else none
  | some _ => none

def Table.openElement (key : String) (t : Table) : Option Table :=
  match Entries.get? t.entries key with
  | none => some (t.set key (.tables [[]]))
  | some (.tables elements) => some (t.set key (.tables (elements ++ [[]])))
  | some _ => none

inductive Statement where
  | table (path : List String) (key : String)
  | element (path : List String) (key : String)
  | value (path : List String) (key : String) (item : Item)

structure Document where
  root : Table := {}
  header : List String := []

def Document.add (d : Document) : Statement → Option Document
  | .table path key => do
    let root ← d.root.modifyAt false (Table.openTable key) path
    return ⟨root, path ++ [key]⟩
  | .element path key => do
    let root ← d.root.modifyAt false (Table.openElement key) path
    return ⟨root, path ++ [key]⟩
  | .value path key item => do
    let root ← d.root.modifyAt false (Table.addValue path key item) d.header
    return { d with root }

def datetimeKey : String := "$__toml_private_datetime"

mutual

def Item.json (nonFinite : Json) : Item → Json
  | .string s => .str s
  | .integer n => .int n
  | .float finite => if finite then .real "0.0" else nonFinite
  | .boolean b => .bool b
  | .datetime text => .obj [(datetimeKey, .str text)]
  | .array items => .arr (jsonItems nonFinite items)
  | .inline _ entries => .obj (jsonEntries nonFinite entries)
  | .table _ entries => .obj (jsonEntries nonFinite entries)
  | .tables elements => .arr (jsonElements nonFinite elements)

def jsonItems (nonFinite : Json) : List Item → List Json
  | [] => []
  | item :: rest => item.json nonFinite :: jsonItems nonFinite rest

def jsonEntries (nonFinite : Json) : List (String × Item) → List (String × Json)
  | [] => []
  | (key, item) :: rest => (key, item.json nonFinite) :: jsonEntries nonFinite rest

def jsonElements (nonFinite : Json) : List (List (String × Item)) → List Json
  | [] => []
  | entries :: rest => .obj (jsonEntries nonFinite entries) :: jsonElements nonFinite rest

end

def Table.json (nonFinite : Json) (t : Table) : Json := .obj (jsonEntries nonFinite t.entries)

end EditScope.Toml

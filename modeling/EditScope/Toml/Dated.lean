import EditScope.Toml.Reader

set_option autoImplicit false

namespace EditScope.Toml

def datetimeOf? (text : String) : Option Item :=
  match datetime text.toList with
  | some (item, []) => some item
  | _ => none

inductive TableForm where
  | plain
  -- `none` if the key does not hold the text of a date or time.
  | dated (date : Option Item)

def TableForm.of : Entries → TableForm
  | [] => .plain
  | (key, item) :: _ =>
    if key != datetimeKey then .plain
    else
      match item with
      | .string text => .dated (datetimeOf? text)
      | _ => .dated none

mutual

def Item.dated? : Item → Option Item
  | .array items => (datedItems? items).map .array
  | .inline origin entries =>
    match TableForm.of entries with
    | .plain => (datedEntries? entries).map (.inline origin)
    | .dated date => date
  | .table origin entries =>
    match TableForm.of entries with
    | .plain => (datedEntries? entries).map (.table origin)
    | .dated date => date
  | .tables elements => (datedElements? elements).map .array
  | .string s => some (.string s)
  | .integer n => some (.integer n)
  | .float finite => some (.float finite)
  | .boolean b => some (.boolean b)
  | .datetime text => some (.datetime text)

def datedItems? : List Item → Option (List Item)
  | [] => some []
  | item :: rest => do
    let item ← item.dated?
    let rest ← datedItems? rest
    return item :: rest

def datedEntries? : List (String × Item) → Option (List (String × Item))
  | [] => some []
  | (key, item) :: rest => do
    let item ← item.dated?
    let rest ← datedEntries? rest
    return (key, item) :: rest

def datedElements? : List (List (String × Item)) → Option (List Item)
  | [] => some []
  | entries :: rest => do
    let item ←
      match TableForm.of entries with
      | .plain => (datedEntries? entries).map (.table ⟨false, false⟩)
      | .dated date => date
    let rest ← datedElements? rest
    return item :: rest

end

def parseDated? (text : String) : Option Item := do
  let t ← parse? text
  (Item.table t.origin t.entries).dated?

end EditScope.Toml

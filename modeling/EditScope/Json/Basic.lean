set_option autoImplicit false

namespace EditScope

inductive Json where
  | null
  | bool (b : Bool)
  | int (n : Int)
  | real (text : String)
  | str (s : String)
  | arr (items : List Json)
  | obj (fields : List (String × Json))

namespace Json

def field? (fields : List (String × Json)) (key : String) : Option Json :=
  (fields.find? (·.1 == key)).map Prod.snd

def get? (key : String) : Json → Option Json
  | .obj fields => field? fields key
  | _ => none

def put (fields : List (String × Json)) (key : String) (value : Json) : List (String × Json) :=
  if fields.any (·.1 == key) then
    fields.map fun f => if f.1 == key then (key, value) else f
  else fields ++ [(key, value)]

def nat? : Json → Option Nat
  | .int n => if 0 ≤ n then some n.toNat else none
  | _ => none

def ofNat (n : Nat) : Json := .int n

def str? : Json → Option String
  | .str s => some s
  | _ => none

def bool? : Json → Option Bool
  | .bool b => some b
  | _ => none

def ofOption {α : Type} (f : α → Json) : Option α → Json
  | some a => f a
  | none => .null

def ofList {α : Type} (f : α → Json) (items : List α) : Json := .arr (items.map f)

def hexDigit (n : Nat) : Char := Nat.digitChar n

def escape (c : Char) : String :=
  if c == '\x22' then "\\\""
  else if c == '\\' then "\\\\"
  else if c.toNat < 0x20 then
    "\\u00" ++ String.ofList [hexDigit (c.toNat / 16), hexDigit (c.toNat % 16)]
  else c.toString

def quoteOnto (out : String) (s : String) : String :=
  s.foldl (fun out c => out ++ escape c) (out.push '\x22') |>.push '\x22'

mutual

def renderOnto (out : String) : Json → String
  | .null => out ++ "null"
  | .bool true => out ++ "true"
  | .bool false => out ++ "false"
  | .int n => out ++ toString n
  | .real text => out ++ text
  | .str s => quoteOnto out s
  | .arr items => (renderItems (out.push '[') true items).push ']'
  | .obj fields => (renderFields (out.push '\x7b') true fields).push '\x7d'

def renderItems (out : String) (first : Bool) : List Json → String
  | [] => out
  | v :: rest => renderItems (renderOnto (if first then out else out.push ',') v) false rest

def renderFields (out : String) (first : Bool) : List (String × Json) → String
  | [] => out
  | (key, v) :: rest =>
    let out := quoteOnto (if first then out else out.push ',') key
    renderFields (renderOnto (out.push ':') v) false rest

end

def render (v : Json) : String := renderOnto "" v

end Json

end EditScope

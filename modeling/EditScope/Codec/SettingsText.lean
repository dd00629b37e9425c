import EditScope.Codec.Settings
import EditScope.Text.Utf8
import EditScope.Toml.Dated

set_option autoImplicit false

namespace EditScope

inductive ReadStage where
  | json
  | toml
  | eitherFormat
  -- The bytes are no text, or the document does not hold settings.
  | content
  deriving DecidableEq, Repr

def ReadStage.label : ReadStage → String
  | .json => "JSON: "
  | .toml => "TOML: "
  | .eitherFormat => "not valid JSON or TOML ("
  | .content => ""

inductive SettingsTextError where
  | unreadable (stage : ReadStage)
  | invalid (error : SettingsError)
  deriving DecidableEq, Repr

def Settings.fieldDepth : Nat := 3

def Json.Written.unread : Json := .real ""

mutual

/-- What a tree holds in its first `levels` levels of containers, without regard to anything below
them, to numbers, and to keys that stand twice. -/
def Json.Written.surface (levels : Nat) : Json.Written → Json
  | .null => .null
  | .bool b => .bool b
  | .number _ => Json.Written.unread
  | .string text => (text.map Json.str).getD Json.Written.unread
  | .array items =>
    match levels with
    | 0 => Json.Written.unread
    | levels + 1 => .arr (surfaceItems levels items)
  | .object fields =>
    match levels with
    | 0 => Json.Written.unread
    | levels + 1 => ((surfaceFields levels fields).map Json.obj).getD Json.Written.unread

def surfaceItems (levels : Nat) : List Json.Written → List Json
  | [] => []
  | v :: rest => v.surface levels :: surfaceItems levels rest

def surfaceFields (levels : Nat) :
    List (Json.WrittenText × Json.Written) → Option (List (String × Json))
  | [] => some []
  | (key, v) :: rest =>
    match key, surfaceFields levels rest with
    | some key, some fields => some ((key, v.surface levels) :: fields)
    | _, _ => none

end

namespace Settings

def accept (stage : ReadStage) : Option Settings → Except SettingsTextError Settings
  | none => .error (.unreadable stage)
  | some s =>
    match s.validate with
    | .ok () => .ok s
    | .error e => .error (.invalid e)

def ofJsonText (text : String) : Except SettingsTextError Settings :=
  accept .json ((Json.written? text).bind fun w => ofJson? .json (w.surface fieldDepth))

def ofTomlText (text : String) : Except SettingsTextError Settings :=
  accept .toml ((Toml.parse? text).bind fun t => ofJson? .toml (t.json (.real "")))

/-- Of a TOML document, floats that are no finite number become null. -/
def ofBytes (bytes : List UInt8) : Except SettingsTextError Settings :=
  match Utf8.decode? bytes with
  | none => .error (.unreadable .content)
  | some text =>
    match Json.parse? text <|> (Toml.parseDated? text).map (·.json .null) with
    | none => .error (.unreadable .eitherFormat)
    | some v => accept .content (ofJson? .json v)

end Settings

end EditScope

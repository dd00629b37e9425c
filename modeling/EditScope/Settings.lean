import EditScope.Outline.Settings
import EditScope.Text.Quoted

set_option autoImplicit false

namespace EditScope

structure Settings where
  outline : OutlineSettings := {}
  extensions : List String := [".java"]
  sourceRoots : List String := ["src/main/java/", "src/test/java/", "src/main/", "src/"]
  parallel : Bool := true
  deriving DecidableEq, Repr

inductive SettingsError where
  | outline (error : OutlineSettingsError)
  | noExtensions
  | extensionWithoutPoint (extension : String)
  | rootWithoutSlash (root : String)
  deriving DecidableEq, Repr

def SettingsError.message : SettingsError → String
  | .outline error => error.message
  | .noExtensions => "Invalid configuration: extensions must list at least one extension"
  | .extensionWithoutPoint extension =>
    "Invalid configuration: extension " ++ Text.quote extension ++ " must start with '.'"
  | .rootWithoutSlash root =>
    "Invalid configuration: source root " ++ Text.quote root ++ " must end with '/'"

namespace Settings

def sequential : Settings := { parallel := false }

def isExtension (s : String) : Bool :=
  match s.toList with
  | '.' :: _ :: _ => true
  | _ => false

def isRoot (s : String) : Bool := s.toList.getLast? == some '/'

def validate (s : Settings) : Except SettingsError Unit :=
  match s.outline.validate with
  | .error e => .error (.outline e)
  | .ok () =>
    if s.extensions.isEmpty then .error .noExtensions
    else
      match s.extensions.find? (!isExtension ·), s.sourceRoots.find? (!isRoot ·) with
      | some extension, _ => .error (.extensionWithoutPoint extension)
      | none, some root => .error (.rootWithoutSlash root)
      | none, none => .ok ()

def isAnalysed (s : Settings) (path : String) : Bool :=
  s.extensions.any fun extension => extension.toList.isSuffixOf path.toList

def afterLast? (mark : List Char) : List Char → Option (List Char)
  | [] => if mark.isEmpty then some [] else none
  | c :: rest =>
    match afterLast? mark rest with
    | some after => some after
    | none => if mark.isPrefixOf (c :: rest) then some ((c :: rest).drop mark.length) else none

/-- At the start of the path, or else where the root last follows a slash. -/
def belowRoot? (path root : List Char) : Option (List Char) :=
  if root.isPrefixOf path then some (path.drop root.length) else afterLast? ('/' :: root) path

def parts : List Char → List (List Char)
  | [] => [[]]
  | c :: rest =>
    match parts rest with
    | part :: more => if c = '/' then [] :: part :: more else (c :: part) :: more
    | [] => [[c]]

def unitNameFor? (s : Settings) (path : String) : Option String :=
  let path := path.toList.map fun c => if c = '\\' then '/' else c
  match s.sourceRoots.findSome? (fun root => belowRoot? path root.toList) with
  | none => none
  | some relative =>
    match (parts relative).dropLast.filter (!·.isEmpty) with
    | [] => none
    | directories => some (".".intercalate (directories.map String.ofList))

end Settings

end EditScope

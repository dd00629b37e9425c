import EditScope.Patch.Kind

set_option autoImplicit false

namespace EditScope

inductive Level where
  | debug
  | info
  | warn
  deriving DecidableEq, Repr

def Level.name : Level → String
  | .debug => "DEBUG"
  | .info => "INFO"
  | .warn => "WARN"

inductive Event where
  | strayMethod (name : String) (offset : Nat)
  | nestedTooDeep (limit offset : Nat) (name : String)
  | unclosedBody (start : Nat)
  | outlined (unit : String) (tokens types : Nat)
  | notAnalysed (path : String)
  -- `hunks` is given where the hunks of the patch count.
  | analysing (status : PatchKind) (path : String) (hunks : Option Nat)
  | patchFailed (path message : String)
  | batchDone (analysed patches failed changes : Nat)
  | statusRefused (message path : String)
  deriving DecidableEq, Repr

namespace Event

def level : Event → Level
  | .strayMethod .. | .unclosedBody .. | .outlined .. | .notAnalysed .. | .analysing .. => .debug
  | .nestedTooDeep .. | .patchFailed .. | .statusRefused .. => .warn
  | .batchDone .. => .info

def message : Event → String
  | .strayMethod name offset =>
    "Skipping method-shaped `" ++ name ++ "` at byte " ++ toString offset ++ " outside any type"
  | .nestedTooDeep limit offset name =>
    "Type nesting deeper than " ++ toString limit ++ " at byte " ++ toString offset
      ++ "; members of " ++ name ++ " are not parsed"
  | .unclosedBody start =>
    "Body opened before token " ++ toString start ++ " never closes; keeping partial members"
  | .outlined unit tokens types =>
    "Parsed unit " ++ unit ++ ": " ++ toString tokens ++ " tokens, " ++ toString types
      ++ " top-level types"
  | .notAnalysed path => "Skipping " ++ path ++ " (extension not analysed)"
  | .analysing status path none => "Identifying changes in " ++ status.name ++ " file " ++ path
  | .analysing status path (some hunks) =>
    "Identifying changes in " ++ status.name ++ " file " ++ path ++ " (" ++ toString hunks
      ++ " hunks)"
  | .patchFailed path message => "Failed to analyse " ++ path ++ ": " ++ message
  | .batchDone analysed patches failed changes =>
    "Analysed " ++ toString analysed ++ " of " ++ toString patches ++ " patches ("
      ++ toString failed ++ " failed, " ++ toString changes ++ " changes)"
  | .statusRefused message path => message ++ " for " ++ path ++ ", skipping"

end Event

end EditScope

import EditScope.Declaration.Sketch
import EditScope.Journal
import EditScope.Outline.Basic
import EditScope.Outline.Settings
import EditScope.Token

set_option autoImplicit false

namespace EditScope

def nestingLimit : Nat := 256

namespace Outline

variable (tokens : Array Token) (sourceLength : Nat)

def offsetAt (i : Nat) : Nat := ((tokens[i]?).map Token.offset).getD sourceLength

def stopAt (i : Option Nat) : Nat := ((i.bind (tokens[·]?)).map Token.stop).getD sourceLength

def resolve (e : Extent) : Span :=
  ⟨offsetAt tokens sourceLength e.first, stopAt tokens sourceLength e.last⟩

def eventOf (limit : Nat) : Sketch.Note → Event
  | .strayMethod name =>
    .strayMethod (((tokens[name]?).map (·.lexeme.text)).getD "") (offsetAt tokens sourceLength name)
  | .nestedTooDeep keyword name => .nestedTooDeep limit (offsetAt tokens sourceLength keyword) name
  | .unclosed start => .unclosedBody start

/-- The unit is named by the package clause, else by `fallback`, else by the settings. -/
def declared (settings : OutlineSettings) (fallback : Option String) (limit : Option Nat)
    (source : List UInt8) : Declaration Span × List Event :=
  let tokens := Token.ofSource source
  let length := source.length
  let file := SketchedFile.ofLexemes ⟨settings.overloads, limit⟩ (tokens.toList.map Token.lexeme)
  let unit := (file.package.or fallback).getD settings.defaultUnitName
  let events := file.notes.map (eventOf tokens length (limit.getD 0))
  (.mk .unit unit ⟨0, length⟩ (Declaration.mapPlaces (resolve tokens length) file.types),
    events ++ [.outlined unit tokens.size file.types.length])

def ofSource (settings : OutlineSettings) (fallback : Option String) (source : List UInt8) :
    Outline × List Event :=
  let (unit, events) := declared settings fallback (some nestingLimit) source
  (ofDeclaration unit, events)

end Outline

end EditScope

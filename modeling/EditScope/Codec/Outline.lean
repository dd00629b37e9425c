import EditScope.Codec.Basic
import EditScope.Lexeme.Basic
import EditScope.Outline.Basic

set_option autoImplicit false

namespace EditScope

namespace Declaration.Kind

def all : List Declaration.Kind := [.unit, .type, .method]

def code : Declaration.Kind → String
  | .unit => "Unit"
  | .type => "Type"
  | .method => "Method"

def toJson (k : Declaration.Kind) : Json := .str k.code

def ofJson? : Codec.Decoder Declaration.Kind := Codec.constant .json all code

end Declaration.Kind

namespace Lexeme.Kind

def all : List Lexeme.Kind := [.identifier, .keyword, .literal, .separator, .operator]

def code : Lexeme.Kind → String
  | .identifier => "Identifier"
  | .keyword => "Keyword"
  | .literal => "Literal"
  | .separator => "Separator"
  | .operator => "Operator"

def ofJson? : Codec.Decoder Lexeme.Kind := Codec.constant .json all code

end Lexeme.Kind

namespace NamePart

def toJson (s : NamePart) : Json := .obj [("kind", s.kind.toJson), ("name", .str s.name)]

def ofJson? : Codec.Decoder NamePart := fun v =>
  match Codec.slots? .json false ["kind", "name"] v with
  | some [kind, name] => do
    let kind ← kind.required Declaration.Kind.ofJson?
    let name ← name.required Json.str?
    return ⟨kind, name⟩
  | _ => none

end NamePart

namespace QualifiedName

def toJson (n : QualifiedName) : Json := .ofList NamePart.toJson n.parts

def ofJson? : Codec.Decoder QualifiedName := fun v =>
  (Codec.list NamePart.ofJson? v).bind ofInnermost?

end QualifiedName

namespace Outline

def Node.toJson (n : Node) : Json :=
  .obj [("name", .str n.name), ("kind", n.kind.toJson), ("start", .ofNat n.span.start),
    ("end", .ofNat n.span.stop), ("parent", .ofOption .ofNat n.parent),
    ("children", .ofList .ofNat n.children)]

def nodesJson (o : Outline) : Json := .ofList Node.toJson o.nodes.toList

end Outline

end EditScope

import EditScope.Declaration.Basic
import EditScope.Proofs.Bracket.Splice
import EditScope.Proofs.Token.Printed

set_option autoImplicit false

namespace EditScope.Grammar

structure Word where
  text : String
  spelled : (⟨.identifier, text⟩ : Lexeme).isSpelled

structure Stretch where
  lexemes : List Lexeme
  spelled : ∀ l ∈ lexemes, l.isSpelled
  nested : Bracket.Nested lexemes

/-- A semicolon would stand outside of all brackets if the lexemes before it were properly nested. -/
structure Initializer extends Stretch where
  unbroken : ∀ before l after, lexemes = before ++ l :: after → Bracket.Nested before →
    l.isSeparator ";" = false

structure Tag where
  name : Word
  arguments : Option Stretch

inductive Member where
  | type (tag : Option Tag) (name : Word) (members : List Member)
  | method (tag : Option Tag) (name : Word) (parameters : Stretch)
      (throws : List Word) (body : Option Stretch)
  | field (tag : Option Tag) (name : Word) (value : Initializer)

structure File where
  package : List Word
  named : package ≠ []
  types : List (Word × List Member)

def keyword (word : String) : Lexeme := ⟨.keyword, word⟩

def mark (text : String) : Lexeme := ⟨.separator, text⟩

def group (b : Bracket) (inner : List Lexeme) : List Lexeme :=
  mark b.openText :: (inner ++ [mark b.closeText])

def Word.lexeme (w : Word) : Lexeme := ⟨.identifier, w.text⟩

def listed (between : String) (words : List Word) : List Lexeme :=
  (words.map Word.lexeme).intersperse (mark between)

def Tag.lexemes (a : Tag) : List Lexeme :=
  mark "@" :: a.name.lexeme :: a.arguments.elim [] fun s => group .round s.lexemes

def tagged (a : Option Tag) : List Lexeme := a.elim [] Tag.lexemes

def typeLexemes (name : Word) (inner : List Lexeme) : List Lexeme :=
  keyword "class" :: name.lexeme :: group .curly inner

def throwsLexemes (throws : List Word) : List Lexeme :=
  if throws.isEmpty then [] else keyword "throws" :: listed "," throws

def endLexemes (body : Option Stretch) : List Lexeme :=
  body.elim [mark ";"] fun s => group .curly s.lexemes

def methodLexemes (name : Word) (parameters : Stretch) (throws : List Word) (body : Option Stretch) :
    List Lexeme :=
  name.lexeme :: (group .round parameters.lexemes ++ (throwsLexemes throws ++ endLexemes body))

def fieldLexemes (name : Word) (value : Initializer) : List Lexeme :=
  keyword "int" :: name.lexeme :: ⟨.operator, "="⟩ :: (value.lexemes ++ [mark ";"])

mutual

def Member.lexemes : Member → List Lexeme
  | .type a name members => tagged a ++ typeLexemes name (membersLexemes members)
  | .method a name parameters throws body =>
    tagged a ++ keyword "void" :: methodLexemes name parameters throws body
  | .field a name value => tagged a ++ fieldLexemes name value

def membersLexemes : List Member → List Lexeme
  | [] => []
  | m :: members => m.lexemes ++ membersLexemes members

end

mutual

def Member.depth : Member → Nat
  | .type _ _ members => membersDepth members + 1
  | .method _ _ _ _ _ => 0
  | .field _ _ _ => 0

def membersDepth : List Member → Nat
  | [] => 0
  | m :: members => max m.depth (membersDepth members)

end

section Declarations

variable {σ : Type} (place : List Lexeme → List Lexeme → σ)

mutual

def Member.declarations (before : List Lexeme) : Member → List (Declaration σ)
  | .type a name members =>
    [.mk .type name.text (place (before ++ tagged a) (typeLexemes name (membersLexemes members)))
      (membersDeclarations
        (before ++ tagged a ++ [keyword "class", name.lexeme, mark "\x7b"]) members)]
  | .method a name parameters throws body =>
    [.mk .method name.text (place (before ++ tagged a ++ [keyword "void"])
      (methodLexemes name parameters throws body)) []]
  | .field _ _ _ => []

def membersDeclarations (before : List Lexeme) : List Member → List (Declaration σ)
  | [] => []
  | m :: members =>
    m.declarations before ++ membersDeclarations (before ++ m.lexemes) members

end

end Declarations

def topLevel (types : List (Word × List Member)) : List Member :=
  types.map fun (name, members) => .type none name members

namespace File

variable (file : File)

def name : String := ".".intercalate (file.package.map Word.text)

def header : List Lexeme := keyword "package" :: (listed "." file.package ++ [mark ";"])

def lexemes : List Lexeme := file.header ++ membersLexemes (topLevel file.types)

def text : List UInt8 := Lexeme.print file.lexemes

def depth : Nat := membersDepth (topLevel file.types)

def declarations {σ : Type} (place : List Lexeme → List Lexeme → σ) : List (Declaration σ) :=
  membersDeclarations place file.header (topLevel file.types)

end File

def spanOf (before inside : List Lexeme) : Span :=
  ⟨(Lexeme.print (before ++ inside)).length - (Lexeme.print inside).length,
    (Lexeme.print (before ++ inside)).length⟩

def File.unit (file : File) : Declaration Span :=
  .mk .unit file.name ⟨0, file.text.length⟩ (file.declarations spanOf)

end EditScope.Grammar

set_option autoImplicit false

namespace EditScope

inductive Lexeme.Kind where
  | identifier
  | keyword
  | literal
  | separator
  | operator
  deriving DecidableEq, Repr

structure Lexeme where
  kind : Lexeme.Kind
  text : String
  deriving DecidableEq, Repr

namespace Lexeme

def keywords : List String :=
  ["abstract", "assert", "boolean", "break", "byte", "case", "catch", "char", "class", "const",
   "continue", "default", "do", "double", "else", "enum", "extends", "final", "finally", "float",
   "for", "goto", "if", "implements", "import", "instanceof", "int", "interface", "long",
   "native", "new", "package", "private", "protected", "public", "return", "short", "static",
   "strictfp", "super", "switch", "synchronized", "this", "throw", "throws", "transient", "try",
   "void", "volatile", "while", "_"]

def literalWords : List String := ["true", "false", "null"]

def operators : List String := ["->", "=", ">", "<", "!", "~", "?", ":"]

def separators : List String :=
  ["...", "::", "(", ")", "\x7b", "\x7d", "[", "]", ";", ",", ".", "@"]

def typeKeywords : List String := ["class", "interface", "enum"]

def ofWord (text : String) : Lexeme :=
  if text ∈ keywords then ⟨.keyword, text⟩
  else if text ∈ literalWords then ⟨.literal, text⟩
  else ⟨.identifier, text⟩

def isIdentifier (l : Lexeme) : Bool := l.kind == .identifier

def isKeyword (l : Lexeme) (word : String) : Bool := l.kind == .keyword && l.text == word

def isSeparator (l : Lexeme) (mark : String) : Bool := l.kind == .separator && l.text == mark

def isOperator (l : Lexeme) (mark : String) : Bool := l.kind == .operator && l.text == mark

def isTypeKeyword (l : Lexeme) : Bool := l.kind == .keyword && typeKeywords.contains l.text

end Lexeme

end EditScope

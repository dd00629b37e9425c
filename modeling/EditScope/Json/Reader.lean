import EditScope.Json.Basic
import EditScope.Numeral

set_option autoImplicit false

namespace EditScope.Json

def depthLimit : Nat := 127

/-- None where half of a surrogate pair stands alone, so that no text results. -/
abbrev WrittenText := Option String

inductive Written where
  | null
  | bool (b : Bool)
  | number (text : List Char)
  | string (text : WrittenText)
  | array (items : List Written)
  | object (fields : List (WrittenText × Written))

inductive Mark where
  | openArray
  | closeArray
  | openObject
  | closeObject
  | comma
  | colon
  | null
  | bool (b : Bool)
  | number (text : List Char)
  | string (text : WrittenText)

def isSpace (c : Char) : Bool := c == ' ' || c == '\n' || c == '\t' || c == '\r'

def isHexDigit (c : Char) : Bool :=
  c.isDigit || ('a' ≤ c && c ≤ 'f') || ('A' ≤ c && c ≤ 'F')

def hexValue (c : Char) : Nat :=
  if c.isDigit then c.toNat - '0'.toNat
  else if 'a' ≤ c then c.toNat - 'a'.toNat + 10
  else c.toNat - 'A'.toNat + 10

def hexNumber (digits : List Char) : Nat := digits.foldl (fun n c => n * 16 + hexValue c) 0

def simpleEscape? : Char → Option Char
  | '\x22' => some '\x22'
  | '\\' => some '\\'
  | '/' => some '/'
  | 'b' => some '\x08'
  | 'f' => some '\x0c'
  | 'n' => some '\n'
  | 'r' => some '\r'
  | 't' => some '\t'
  | _ => none

inductive TextUnit where
  | char (c : Char)
  | code (n : Nat)

def textUnits? : List Char → List TextUnit → Nat → Option (List TextUnit × Nat)
  | [], _, _ => none
  | '\x22' :: _, done, seen => some (done, seen + 1)
  | '\\' :: 'u' :: a :: b :: c :: d :: rest, done, seen =>
    if [a, b, c, d].all isHexDigit then
      textUnits? rest (.code (hexNumber [a, b, c, d]) :: done) (seen + 6)
    else none
  | '\\' :: e :: rest, done, seen =>
    match simpleEscape? e with
    | some c => textUnits? rest (.char c :: done) (seen + 2)
    | none => none
  | c :: rest, done, seen =>
    if c.toNat < 0x20 || c == '\\' then none else textUnits? rest (.char c :: done) (seen + 1)

def isHighSurrogate (n : Nat) : Bool := 0xD800 ≤ n && n < 0xDC00

def isLowSurrogate (n : Nat) : Bool := 0xDC00 ≤ n && n < 0xE000

def textOf? : List TextUnit → List Char → Option (List Char)
  | [], done => some done
  | .char c :: rest, done => textOf? rest (c :: done)
  | .code low :: .code high :: rest, done =>
    if isLowSurrogate low then
      if isHighSurrogate high then
        textOf? rest (Char.ofNat (0x10000 + (high - 0xD800) * 0x400 + (low - 0xDC00)) :: done)
      else none
    else if isHighSurrogate low then none
    else textOf? (.code high :: rest) (Char.ofNat low :: done)
  | .code n :: rest, done =>
    if isLowSurrogate n || isHighSurrogate n then none
    else textOf? rest (Char.ofNat n :: done)

def digitsLength (cs : List Char) : Nat := (cs.takeWhile Char.isDigit).length

def partLength (lead : Nat) (cs : List Char) : Nat :=
  match digitsLength (cs.drop lead) with
  | 0 => 0
  | n => lead + n

def fractionLength : List Char → Nat
  | '.' :: rest => partLength 1 ('.' :: rest)
  | _ => 0

def exponentLength : List Char → Nat
  | e :: s :: rest =>
    if e == 'e' || e == 'E' then partLength (if s == '+' || s == '-' then 2 else 1) (e :: s :: rest)
    else 0
  | _ => 0

def unsignedLength (cs : List Char) : Nat :=
  let whole := if cs.head? == some '0' then 1 else digitsLength cs
  if whole == 0 then 0
  else
    let fraction := fractionLength (cs.drop whole)
    whole + fraction + exponentLength (cs.drop (whole + fraction))

def wordMark? (word : List Char) (mark : Mark) (rest : List Char) : Option (Option Mark × Nat) :=
  if word.isPrefixOf rest then some (some mark, word.length) else none

def mark? (c : Char) (rest : List Char) : Option (Option Mark × Nat) :=
  if isSpace c then some (none, 0)
  else
    match c with
    | '[' => some (some .openArray, 0)
    | ']' => some (some .closeArray, 0)
    | '\x7b' => some (some .openObject, 0)
    | '\x7d' => some (some .closeObject, 0)
    | ',' => some (some .comma, 0)
    | ':' => some (some .colon, 0)
    | 'n' => wordMark? ['u', 'l', 'l'] .null rest
    | 't' => wordMark? ['r', 'u', 'e'] (.bool true) rest
    | 'f' => wordMark? ['a', 'l', 's', 'e'] (.bool false) rest
    | '\x22' =>
      (textUnits? rest [] 0).map fun (units, n) =>
        (some (.string ((textOf? units []).map String.ofList)), n)
    | '-' =>
      match unsignedLength rest with
      | 0 => none
      | n => some (some (.number ('-' :: rest.take n)), n)
    | c =>
      match unsignedLength (c :: rest) with
      | 0 => none
      | n + 1 => some (some (.number (c :: rest.take n)), n)

def marksOnto? (done : List Mark) : List Char → Option (List Mark)
  | [] => some done.reverse
  | c :: rest =>
    match mark? c rest with
    | none => none
    | some (mark, n) => marksOnto? (mark.toList ++ done) (rest.drop n)
termination_by cs => cs.length
decreasing_by simp only [List.length_drop, List.length_cons]; omega

inductive Frame where
  | array (items : List Written)
  | object (fields : List (WrittenText × Written))
  | field (fields : List (WrittenText × Written)) (key : WrittenText)

inductive Expected where
  | value
  | valueOrClose
  | key
  | keyOrClose
  | colon
  | afterValue
  deriving DecidableEq

structure Building where
  frames : List Frame := []
  expected : Expected := .value
  whole : Option Written := none

namespace Building

def place (b : Building) (v : Written) : Option Building :=
  match b.frames with
  | [] => some ⟨[], .afterValue, some v⟩
  | .array items :: frames => some ⟨.array (v :: items) :: frames, .afterValue, none⟩
  | .field fields key :: frames =>
    some ⟨.object ((key, v) :: fields) :: frames, .afterValue, none⟩
  | .object _ :: _ => none

def atValue (b : Building) : Bool := b.expected == .value || b.expected == .valueOrClose

def scalar (b : Building) (v : Written) : Option Building :=
  if b.atValue then b.place v else none

def mark (b : Building) : Mark → Option Building
  | .null => b.scalar .null
  | .bool v => b.scalar (.bool v)
  | .number text => b.scalar (.number text)
  | .string text =>
    if b.atValue then b.place (.string text)
    else if b.expected == .key || b.expected == .keyOrClose then
      match b.frames with
      | .object fields :: frames => some ⟨.field fields text :: frames, .colon, none⟩
      | _ => none
    else none
  | .colon => if b.expected == .colon then some { b with expected := .value } else none
  | .openArray => if b.atValue then some ⟨.array [] :: b.frames, .valueOrClose, none⟩ else none
  | .openObject => if b.atValue then some ⟨.object [] :: b.frames, .keyOrClose, none⟩ else none
  | .comma =>
    if b.expected == .afterValue then
      match b.frames with
      | .array _ :: _ => some { b with expected := .value }
      | .object _ :: _ => some { b with expected := .key }
      | _ => none
    else none
  | .closeArray =>
    if b.expected == .afterValue || b.expected == .valueOrClose then
      match b.frames with
      | .array items :: frames => { b with frames }.place (.array items.reverse)
      | _ => none
    else none
  | .closeObject =>
    if b.expected == .afterValue || b.expected == .keyOrClose then
      match b.frames with
      | .object fields :: frames => { b with frames }.place (.object fields.reverse)
      | _ => none
    else none

end Building

def written? (text : String) : Option Written := do
  let marks ← marksOnto? [] text.toList
  let built ← marks.foldlM Building.mark {}
  built.whole

def isInteger64 (n : Int) : Bool := Int64.minValue.toInt ≤ n && n < UInt64.size

/-- Integers of 64 bits, signed or not, are kept; `-0` is none. Every other number is the product of
two floats, and has no value if that is infinite. -/
def numberValue? (text : List Char) : Option Json :=
  let numeral := Numeral.ofText text
  match numeral.integer?.filter fun n => isInteger64 n && !(numeral.negative && n == 0) with
  | some n => some (.int n)
  | none => if numeral.scaledIsFinite then some (.real (String.ofList text)) else none

mutual

def Written.valueWithin? (room : Nat) : Written → Option Json
  | .null => some .null
  | .bool b => some (.bool b)
  | .number text => numberValue? text
  | .string text => text.map .str
  | .array items => if room = 0 then none else (itemValues? (room - 1) items).map .arr
  | .object fields => if room = 0 then none else (fieldValues? (room - 1) [] fields).map .obj

def itemValues? (room : Nat) : List Written → Option (List Json)
  | [] => some []
  | v :: rest => do
    let v ← v.valueWithin? room
    let rest ← itemValues? room rest
    return v :: rest

/-- A key that stands twice keeps its last value. -/
def fieldValues? (room : Nat) (done : List (String × Json)) :
    List (WrittenText × Written) → Option (List (String × Json))
  | [] => some done
  | (key, v) :: rest => do
    let key ← key
    let v ← v.valueWithin? room
    fieldValues? room (put done key v) rest

end

def Written.value? (w : Written) : Option Json := w.valueWithin? depthLimit

def parse? (text : String) : Option Json := (written? text).bind Written.value?

end EditScope.Json

import EditScope.Json.Reader
import EditScope.Toml.Basic

set_option autoImplicit false

namespace EditScope.Toml

def depthLimit : Nat := 79

abbrev Reader (α : Type) := List Char → Option (α × List Char)

def isBlank (c : Char) : Bool := c == ' ' || c == '\t'

def isPlain (c : Char) : Bool := c == '\t' || (0x20 ≤ c.toNat && c.toNat != 0x7F)

def isKeyChar (c : Char) : Bool := c.isAlphanum || c == '_' || c == '-'

def skipBlanks (cs : List Char) : List Char := cs.dropWhile isBlank

def newline? : List Char → Option (List Char)
  | '\n' :: rest => some rest
  | '\r' :: '\n' :: rest => some rest
  | _ => none

def skipComment : List Char → List Char
  | '#' :: rest => rest.dropWhile isPlain
  | cs => cs

def lineEnd? (cs : List Char) : Option (List Char) :=
  match skipComment (skipBlanks cs) with
  | [] => some []
  | rest => newline? rest

def skipLayout (cs : List Char) : List Char :=
  match newline? (skipComment (skipBlanks cs)) with
  | some rest => if rest.length < cs.length then skipLayout rest else rest
  | none => skipBlanks cs
termination_by cs.length

def codePoint? (digits : List Char) : Option Char :=
  let n := Json.hexNumber digits
  if digits.all Json.isHexDigit && n.isValidChar then some (Char.ofNat n) else none

def escape? : Reader Char
  | 'b' :: rest => some ('\x08', rest)
  | 't' :: rest => some ('\t', rest)
  | 'n' :: rest => some ('\n', rest)
  | 'f' :: rest => some ('\x0c', rest)
  | 'r' :: rest => some ('\r', rest)
  | '\x22' :: rest => some ('\x22', rest)
  | '\\' :: rest => some ('\\', rest)
  | 'u' :: rest =>
    if rest.length < 4 then none else (codePoint? (rest.take 4)).map (·, rest.drop 4)
  | 'U' :: rest =>
    if rest.length < 8 then none else (codePoint? (rest.take 8)).map (·, rest.drop 8)
  | _ => none

def skipJoined (cs : List Char) : List Char :=
  match newline? (skipBlanks cs) with
  | some rest => if rest.length < cs.length then skipJoined rest else rest
  | none => skipBlanks cs
termination_by cs.length

def lineString (escapes : Bool) (mark : Char) (cs : List Char) (done : List Char) :
    Option (String × List Char) :=
  match cs with
  | [] => none
  | c :: rest =>
    if c = mark then some (String.ofList done.reverse, rest)
    else if escapes && c == '\\' then
      match escape? rest with
      | none => none
      | some (e, after) =>
        if after.length ≤ rest.length then lineString escapes mark after (e :: done) else none
    else if isPlain c then lineString escapes mark rest (c :: done)
    else none
termination_by cs.length

/-- It ends at three marks; up to two more before them belong to it. -/
def blockString (escapes : Bool) (mark : Char) (cs : List Char) (done : List Char) :
    Option (String × List Char) :=
  match cs with
  | [] => none
  | c :: rest =>
    if c = mark then
      let marks := ((c :: rest).takeWhile (· == mark)).length
      if marks < 3 then blockString escapes mark rest (c :: done)
      else
        let extra := min (marks - 3) 2
        let text := done.reverse ++ List.replicate extra mark
        some (String.ofList text, (c :: rest).drop (3 + extra))
    else if escapes && c == '\\' then
      match newline? (skipBlanks rest), escape? rest with
      | some after, _ =>
        if (skipJoined after).length ≤ rest.length then
          blockString escapes mark (skipJoined after) done
        else none
      | none, some (e, after) =>
        if after.length ≤ rest.length then blockString escapes mark after (e :: done) else none
      | none, none => none
    else if isPlain c then blockString escapes mark rest (c :: done)
    else
      match newline? (c :: rest) with
      | some after =>
        if after.length ≤ rest.length then blockString escapes mark after ('\n' :: done) else none
      | none => none
termination_by cs.length

def quoted (escapes : Bool) (mark : Char) (cs : List Char) : Option (String × List Char) :=
  if [mark, mark].isPrefixOf cs then
    let body := cs.drop 2
    blockString escapes mark ((newline? body).getD body) []
  else lineString escapes mark cs []

def simpleKey : Reader String
  | '\x22' :: rest => lineString true '\x22' rest []
  | '\x27' :: rest => lineString false '\x27' rest []
  | cs =>
    match cs.takeWhile isKeyChar with
    | [] => none
    | name => some (String.ofList name, cs.dropWhile isKeyChar)

def keyParts (cs : List Char) : Option (List String × List Char) :=
  match simpleKey (skipBlanks cs) with
  | none => none
  | some (part, rest) =>
    match skipBlanks rest with
    | '.' :: rest =>
      if rest.length < cs.length then (keyParts rest).map fun (parts, rest) => (part :: parts, rest)
      else none
    | rest => some ([part], rest)
termination_by cs.length

def key (cs : List Char) : Option ((List String × String) × List Char) := do
  let (parts, rest) ← keyParts cs
  let last ← parts.getLast?
  if depthLimit < parts.length then none else some ((parts.dropLast, last), rest)

def runLength (isDigit : Char → Bool) : List Char → Nat → Nat
  | [], seen => seen
  | [c], seen => if isDigit c then seen + 1 else seen
  | c :: d :: rest, seen =>
    if isDigit c then runLength isDigit (d :: rest) (seen + 1)
    else if c == '_' && 0 < seen && isDigit d then runLength isDigit rest (seen + 2)
    else seen

def signLength : List Char → Nat
  | '+' :: _ => 1
  | '-' :: _ => 1
  | _ => 0

def wholeLength (cs : List Char) : Nat :=
  let sign := signLength cs
  let digits := cs.drop sign
  let n := if digits.head? == some '0' then 1 else runLength Char.isDigit digits 0
  if n == 0 then 0 else sign + n

def partLength (lead : Nat) (cs : List Char) : Nat :=
  match runLength Char.isDigit (cs.drop lead) 0 with
  | 0 => 0
  | n => lead + n

def fractionLength : List Char → Nat
  | '.' :: rest => partLength 1 ('.' :: rest)
  | _ => 0

def exponentLength : List Char → Nat
  | 'e' :: rest => partLength (1 + signLength rest) ('e' :: rest)
  | 'E' :: rest => partLength (1 + signLength rest) ('E' :: rest)
  | _ => 0

def withoutUnderscores (cs : List Char) : List Char := cs.filter (· != '_')

def minInteger : Int := Int64.minValue.toInt

def maxInteger : Int := Int64.maxValue.toInt

def integer? (n : Int) : Option Item :=
  if minInteger ≤ n ∧ n ≤ maxInteger then some (.integer n) else none

/-- A numeral too large for a float is an error, unless it is negative. -/
def float? (numeral : Numeral) : Option Item :=
  if numeral.nearestIsFinite then some (.float true)
  else if numeral.negative then some (.float false)
  else none

def radixInteger (isDigit : Char → Bool) (radix : Nat) : Reader Item := fun cs =>
  match runLength isDigit cs 0 with
  | 0 => none
  | n =>
    let digits := withoutUnderscores (cs.take n)
    let value := digits.foldl (fun v c => v * radix + Json.hexValue c) 0
    (integer? value).map (·, cs.drop n)

def number : Reader Item
  | '0' :: 'x' :: rest => radixInteger Json.isHexDigit 16 rest
  | '0' :: 'o' :: rest => radixInteger (fun c => '0' ≤ c && c ≤ '7') 8 rest
  | '0' :: 'b' :: rest => radixInteger (fun c => c == '0' || c == '1') 2 rest
  | cs =>
    match wholeLength cs with
    | 0 => none
    | whole =>
      let fraction := fractionLength (cs.drop whole)
      let length := whole + fraction + exponentLength (cs.drop (whole + fraction))
      let numeral := Numeral.ofText (withoutUnderscores (cs.take length))
      let item :=
        match numeral.integer? with
        | some n => integer? n
        | none => float? numeral
      item.map (·, cs.drop length)

def special : Reader Item := fun cs =>
  let rest := cs.drop (signLength cs)
  if ['i', 'n', 'f'].isPrefixOf rest || ['n', 'a', 'n'].isPrefixOf rest then
    some (.float false, rest.drop 3)
  else none

def fixedDigits (n low high : Nat) : Reader Nat := fun cs =>
  let digits := cs.take n
  let value := decimalNumber digits
  if digits.length == n && digits.all Char.isDigit && low ≤ value && value ≤ high then
    some (value, cs.drop n)
  else none

def char (c : Char) : Reader Unit
  | d :: rest => if c = d then some ((), rest) else none
  | [] => none

def daysIn (year month : Nat) : Nat :=
  let leap := year % 4 == 0 && (year % 100 != 0 || year % 400 == 0)
  if month == 2 then (if leap then 29 else 28)
  else if [4, 6, 9, 11].contains month then 30
  else 31

def date (cs : List Char) : Option (List Char) := do
  let (year, cs) ← fixedDigits 4 0 9999 cs
  let (_, cs) ← char '-' cs
  let (month, cs) ← fixedDigits 2 1 12 cs
  let (_, cs) ← char '-' cs
  let (_, cs) ← fixedDigits 2 1 (daysIn year month) cs
  return cs

def time (cs : List Char) : Option (List Char) := do
  let (_, cs) ← fixedDigits 2 0 23 cs
  let (_, cs) ← char ':' cs
  let (_, cs) ← fixedDigits 2 0 59 cs
  let (_, cs) ← char ':' cs
  let (_, cs) ← fixedDigits 2 0 60 cs
  match cs with
  | '.' :: rest =>
    let n := Json.digitsLength rest
    return if n == 0 then cs else rest.drop n
  | _ => return cs

def numericOffset (cs : List Char) : Option (List Char) := do
  let (_, cs) ← fixedDigits 2 0 23 cs
  let (_, cs) ← char ':' cs
  let (_, cs) ← fixedDigits 2 0 59 cs
  return cs

def skipOffset (cs : List Char) : List Char :=
  match cs with
  | 'Z' :: rest => rest
  | 'z' :: rest => rest
  | '+' :: rest => (numericOffset rest).getD cs
  | '-' :: rest => (numericOffset rest).getD cs
  | _ => cs

def skipTimeAfterDate (cs : List Char) : List Char :=
  match cs with
  | c :: rest =>
    if c == 'T' || c == 't' || c == ' ' then ((time rest).map skipOffset).getD cs else cs
  | [] => []

def datetime : Reader Item := fun cs =>
  let after := (date cs).map skipTimeAfterDate |>.orElse fun _ => time cs
  after.map fun rest => (.datetime (String.ofList (cs.take (cs.length - rest.length))), rest)

def orElse {α : Type} (first second : Reader α) : Reader α := fun cs =>
  match first cs with
  | some found => some found
  | none => second cs

def word (text : List Char) (item : Item) : Reader Item := fun cs =>
  if text.isPrefixOf cs then some (item, cs.drop text.length) else none

def scalar : Reader Item
  | '\x22' :: rest => (quoted true '\x22' rest).map fun (s, rest) => (.string s, rest)
  | '\x27' :: rest => (quoted false '\x27' rest).map fun (s, rest) => (.string s, rest)
  | cs =>
    orElse (word ['t', 'r', 'u', 'e'] (.boolean true))
      (orElse (word ['f', 'a', 'l', 's', 'e'] (.boolean false))
        (orElse datetime (orElse special number))) cs

def arrayItems (value : Reader Item) (cs : List Char) (done : List Item) :
    Option (List Item × List Char) :=
  match skipLayout cs with
  | ']' :: rest => some (done.reverse, rest)
  | start =>
    match value start with
    | none => none
    | some (item, rest) =>
      match skipLayout rest with
      | ']' :: rest => some ((item :: done).reverse, rest)
      | ',' :: rest =>
        if rest.length < cs.length then arrayItems value rest (item :: done) else none
      | _ => none
termination_by cs.length

def keyValue (value : Reader Item) (cs : List Char) :
    Option ((List String × String × Item) × List Char) := do
  let ((path, last), rest) ← key cs
  let (_, rest) ← char '=' rest
  let (item, rest) ← value (skipBlanks rest)
  return ((path, last, item), skipBlanks rest)

def inlinePairs (value : Reader Item) (cs : List Char) (done : List (List String × String × Item)) :
    Option (List (List String × String × Item) × List Char) :=
  match keyValue value cs with
  | none => none
  | some (pair, rest) =>
    match rest with
    | '\x7d' :: rest => some ((pair :: done).reverse, rest)
    | ',' :: rest => if rest.length < cs.length then inlinePairs value rest (pair :: done) else none
    | _ => none
termination_by cs.length

def value : Nat → Reader Item
  | 0, '[' :: _ => none
  | 0, '\x7b' :: _ => none
  | room + 1, '[' :: rest =>
    (arrayItems (value room) rest []).map fun (items, rest) => (.array items, rest)
  | room + 1, '\x7b' :: rest => do
    let (pairs, rest) ←
      match skipBlanks rest with
      | '\x7d' :: rest => some ([], rest)
      | _ => inlinePairs (value room) rest []
    let table ← inlineTable? pairs
    return (table, rest)
  | _, cs => scalar cs

def statement (cs : List Char) : Option (Statement × List Char) :=
  match cs with
  | '[' :: '[' :: rest => do
    let ((path, last), rest) ← key rest
    let (_, rest) ← char ']' rest
    let (_, rest) ← char ']' rest
    return (.element path last, ← lineEnd? rest)
  | '[' :: rest => do
    let ((path, last), rest) ← key rest
    let (_, rest) ← char ']' rest
    return (.table path last, ← lineEnd? rest)
  | cs => do
    let ((path, last, item), rest) ← keyValue (value depthLimit) cs
    return (.value path last item, ← lineEnd? rest)

def statements (cs : List Char) (done : List Statement) : Option (List Statement) :=
  match lineEnd? cs, skipBlanks cs with
  | some [], _ => some done.reverse
  | some rest, _ => if rest.length < cs.length then statements rest done else none
  | none, start =>
    match statement start with
    | none => none
    | some (s, rest) =>
      if rest.length < cs.length then statements rest (s :: done) else none
termination_by cs.length

def skipByteOrderMark : List Char → List Char
  | '\uFEFF' :: rest => rest
  | cs => cs

def parse? (text : String) : Option Table := do
  let read ← statements (skipByteOrderMark text.toList) []
  let document ← read.foldlM Document.add {}
  return document.root

end EditScope.Toml

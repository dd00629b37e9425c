set_option autoImplicit false

namespace EditScope

def digitValue (c : Char) : Nat := c.toNat - '0'.toNat

def decimalNumber (digits : List Char) : Nat := digits.foldl (fun n c => n * 10 + digitValue c) 0

/-- The least number too large for a float: from here on the nearest one is infinite. -/
def floatBound : Nat := 1 <<< 1024 - 1 <<< 970

/-- Of two floats that are equally near it is the one whose last place is even. -/
def nearestFloat (n : Nat) : Nat :=
  let unit := 1 <<< (n.log2 - 52)
  let places := n / unit
  let excess := 2 * (n % unit)
  if unit < excess || (unit == excess && places % 2 == 1) then (places + 1) * unit
  else places * unit

structure Numeral where
  negative : Bool
  whole : List Char
  fraction : List Char
  power : Option Int
  deriving DecidableEq, Repr

namespace Numeral

def signed (digits : List Char) : Int :=
  match digits with
  | '-' :: digits => -(decimalNumber digits : Int)
  | '+' :: digits => decimalNumber digits
  | digits => decimalNumber digits

def ofText (text : List Char) : Numeral :=
  let unsigned := text.dropWhile fun c => c == '-' || c == '+'
  let tail := unsigned.dropWhile Char.isDigit
  { negative := text.head? == some '-'
    whole := unsigned.takeWhile Char.isDigit
    fraction := if tail.head? == some '.' then tail.tail.takeWhile Char.isDigit else []
    power :=
      match tail.dropWhile (fun c => c == '.' || c.isDigit) with
      | [] => none
      | _ :: digits => some (signed digits) }

def integer? (n : Numeral) : Option Int :=
  if n.fraction.isEmpty && n.power.isNone then
    some (if n.negative then -(decimalNumber n.whole : Int) else decimalNumber n.whole)
  else none

def nearestIsFinite (n : Numeral) : Bool :=
  let digits := decimalNumber (n.whole ++ n.fraction)
  let exponent := n.power.getD 0 - n.fraction.length
  if digits == 0 then true
  else if 400 < exponent then false
  else if 0 ≤ exponent then digits * Nat.pow 10 exponent.toNat < floatBound
  else
    -- with more places than bits the number is below one
    let places := (-exponent).toNat
    digits.log2 < places || digits < floatBound * Nat.pow 10 places

structure Scaled where
  significand : Nat := 0
  exponent : Int := 0
  deriving DecidableEq, Repr

namespace Scaled

def push (s : Scaled) (c : Char) : Nat := s.significand * 10 + digitValue c

/-- The digits from the first one that does not fit are only counted. -/
def takeWhole (s : Scaled) : List Char → Scaled
  | [] => s
  | c :: rest =>
    if s.push c < UInt64.size then takeWhole { s with significand := s.push c } rest
    else { s with exponent := s.exponent + (c :: rest).length }

def takeFraction (s : Scaled) : List Char → Scaled
  | [] => s
  | c :: rest =>
    if s.push c < UInt64.size then takeFraction ⟨s.push c, s.exponent - 1⟩ rest else s

/-- There is a float for each power of ten up to `10 ^ 308`; to divide by one never overflows. -/
def isFinite (s : Scaled) : Bool :=
  if s.significand == 0 || s.exponent < 0 then true
  else if 308 < s.exponent then false
  else nearestFloat s.significand * nearestFloat (Nat.pow 10 s.exponent.toNat) < floatBound

end Scaled

def scaled (n : Numeral) : Scaled :=
  let digits := (Scaled.takeWhole {} n.whole).takeFraction n.fraction
  { digits with exponent := digits.exponent + n.power.getD 0 }

def scaledIsFinite (n : Numeral) : Bool := n.scaled.isFinite

end Numeral

end EditScope

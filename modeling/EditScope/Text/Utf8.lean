set_option autoImplicit false

namespace EditScope.Utf8

/-- The bounds leave out over-long forms, surrogates and code points above 10FFFF. -/
structure Begun where
  bits : Nat
  owed : Nat
  low : UInt8
  high : UInt8

inductive Lead where
  | whole (c : Char)
  | begun (b : Begun)
  | illFormed

def lead (b : UInt8) : Lead :=
  if b < 0x80 then .whole (Char.ofNat b.toNat)
  else if b < 0xC2 then .illFormed
  else if b < 0xE0 then .begun ⟨b.toNat - 0xC0, 1, 0x80, 0xBF⟩
  else if b = 0xE0 then .begun ⟨0, 2, 0xA0, 0xBF⟩
  else if b = 0xED then .begun ⟨0xD, 2, 0x80, 0x9F⟩
  else if b < 0xF0 then .begun ⟨b.toNat - 0xE0, 2, 0x80, 0xBF⟩
  else if b = 0xF0 then .begun ⟨0, 3, 0x90, 0xBF⟩
  else if b < 0xF4 then .begun ⟨b.toNat - 0xF0, 3, 0x80, 0xBF⟩
  else if b = 0xF4 then .begun ⟨4, 3, 0x80, 0x8F⟩
  else .illFormed

abbrev Step := List (Option Char) × Option Begun

def start (b : UInt8) : Step :=
  match lead b with
  | .whole c => ([some c], none)
  | .begun p => ([], some p)
  | .illFormed => ([none], none)

/-- A byte that cannot continue the character begun ends it ill-formed and starts afresh. -/
def step : Option Begun → UInt8 → Step
  | none, b => start b
  | some p, b =>
    if p.low ≤ b ∧ b ≤ p.high then
      let bits := p.bits * 64 + (b.toNat - 0x80)
      if p.owed ≤ 1 then ([some (Char.ofNat bits)], none)
      else ([], some ⟨bits, p.owed - 1, 0x80, 0xBF⟩)
    else
      let (read, begun) := start b
      (none :: read, begun)

def scanFrom : Option Begun → List UInt8 → List (Option Char)
  | none, [] => []
  | some _, [] => [none]
  | begun, b :: bytes =>
    let (read, begun) := step begun b
    read ++ scanFrom begun bytes

def scan (bytes : List UInt8) : List (Option Char) := scanFrom none bytes

def replacement : Char := '\uFFFD'

def decode (bytes : List UInt8) : String :=
  String.ofList ((scan bytes).map (·.getD replacement))

def decode? (bytes : List UInt8) : Option String :=
  ((scan bytes).mapM id).map String.ofList

def encode (s : String) : List UInt8 :=
  s.toList.flatMap String.utf8EncodeChar

end EditScope.Utf8

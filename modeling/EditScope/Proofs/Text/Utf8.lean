import EditScope.Text.Utf8

set_option autoImplicit false

namespace EditScope.Utf8

variable {n : Nat}

theorem toNat_byte (small : n < 256) : (UInt8.ofNat n).toNat = n := by
  rw [UInt8.toNat_ofNat']
  exact Nat.mod_eq_of_lt small

theorem lead_of_ascii {b : UInt8} (ascii : b.toNat < 0x80) : lead b = .whole (Char.ofNat b.toNat) := by
  rw [lead, if_pos (UInt8.lt_iff_toNat_lt.2 ascii)]

theorem lead_one (small : n < 0x80) : lead (.ofNat n) = .whole (Char.ofNat n) := by
  have value := toNat_byte (n := n) (by omega)
  rw [lead_of_ascii (value.symm ▸ small), value]

theorem lead_two (low : 0xC2 ≤ n) (high : n < 0xE0) :
    lead (.ofNat n) = .begun ⟨n - 0xC0, 1, 0x80, 0xBF⟩ := by
  have value := toNat_byte (n := n) (by omega)
  unfold lead
  simp only [UInt8.lt_iff_toNat_lt, value, UInt8.reduceToNat]
  rw [if_neg (by omega), if_neg (by omega), if_pos (by omega)]

theorem lead_three (low : 0xE0 ≤ n) (high : n < 0xF0) :
    lead (.ofNat n) = .begun ⟨n - 0xE0, 2, if n = 0xE0 then 0xA0 else 0x80,
      if n = 0xED then 0x9F else 0xBF⟩ := by
  by_cases first : n = 0xE0
  · subst first
    rfl
  by_cases surrogates : n = 0xED
  · subst surrogates
    rfl
  have value := toNat_byte (n := n) (by omega)
  unfold lead
  simp only [UInt8.lt_iff_toNat_lt, ← UInt8.toNat_inj, value, UInt8.reduceToNat, first, surrogates,
    if_false]
  rw [if_neg (by omega), if_neg (by omega), if_neg (by omega), if_pos high]

theorem lead_four (low : 0xF0 ≤ n) (high : n ≤ 0xF4) :
    lead (.ofNat n) = .begun ⟨n - 0xF0, 3, if n = 0xF0 then 0x90 else 0x80,
      if n = 0xF4 then 0x8F else 0xBF⟩ := by
  by_cases first : n = 0xF0
  · subst first
    rfl
  by_cases last : n = 0xF4
  · subst last
    rfl
  have value := toNat_byte (n := n) (by omega)
  unfold lead
  simp only [UInt8.lt_iff_toNat_lt, ← UInt8.toNat_inj, value, UInt8.reduceToNat, first, last, if_false]
  rw [if_neg (by omega), if_neg (by omega), if_neg (by omega), if_neg (by omega), if_neg (by omega),
    if_neg (by omega), if_pos (by omega)]

variable {rest : List UInt8} {b : UInt8} {p : Begun}

theorem scanFrom_whole {c : Char} (whole : lead b = .whole c) :
    scanFrom none (b :: rest) = some c :: scanFrom none rest := by
  simp [scanFrom, step, start, whole]

theorem scanFrom_begun (begun : lead b = .begun p) :
    scanFrom none (b :: rest) = scanFrom (some p) rest := by
  simp [scanFrom, step, start, begun]

section Continued

variable (low : p.low.toNat ≤ n) (high : n ≤ p.high.toNat)

include low high

theorem step_within : step (some p) (.ofNat n) =
    if p.owed ≤ 1 then ([some (Char.ofNat (p.bits * 64 + (n - 0x80)))], none)
    else ([], some ⟨p.bits * 64 + (n - 0x80), p.owed - 1, 0x80, 0xBF⟩) := by
  have value := toNat_byte (Nat.lt_of_le_of_lt high p.high.toNat_lt)
  have within : p.low ≤ UInt8.ofNat n ∧ UInt8.ofNat n ≤ p.high := by
    rw [UInt8.le_iff_toNat_le, UInt8.le_iff_toNat_le, value]
    exact ⟨low, high⟩
  rw [step, if_pos within, value]

theorem scanFrom_last (owed : p.owed ≤ 1) : scanFrom (some p) (.ofNat n :: rest) =
    some (Char.ofNat (p.bits * 64 + (n - 0x80))) :: scanFrom none rest := by
  rw [scanFrom, step_within low high, if_pos owed]
  rfl

theorem scanFrom_more (owed : 1 < p.owed) : scanFrom (some p) (.ofNat n :: rest) =
    scanFrom (some ⟨p.bits * 64 + (n - 0x80), p.owed - 1, 0x80, 0xBF⟩) rest := by
  rw [scanFrom, step_within low high, if_neg (Nat.not_le.2 owed)]
  rfl

end Continued

theorem scan_encodeChar (c : Char) (rest : List UInt8) :
    scan (String.utf8EncodeChar c ++ rest) = some c :: scan rest := by
  have written : c.val.toNat = c.toNat := rfl
  have same : Char.ofNat c.toNat = c := Char.ofNat_toNat c
  have valid : c.toNat < 0xD800 ∨ 0xDFFF < c.toNat ∧ c.toNat < 0x110000 := c.valid
  unfold String.utf8EncodeChar scan
  simp only [written]
  -- One case for each length: the bits of the bytes, put together, are the character.
  generalize c.toNat = v at same valid
  split
  · rename_i one
    rw [List.cons_append, scanFrom_whole (lead_one (by omega)), same]
    rfl
  split
  · rename_i two
    have bits : (v / 64 % 32 + 192 - 0xC0) * 64 + (v % 64 + 128 - 0x80) = v := by omega
    rw [List.cons_append, scanFrom_begun (lead_two (by omega) (by omega)), List.cons_append,
      scanFrom_last (by simp) (by simp; omega) (by simp)]
    simp only [bits, same]
    rfl
  split
  · rename_i three
    have bits : ((v / 4096 % 16 + 224 - 0xE0) * 64 + (v / 64 % 64 + 128 - 0x80)) * 64 +
        (v % 64 + 128 - 0x80) = v := by omega
    rw [List.cons_append, scanFrom_begun (lead_three (by omega) (by omega)), List.cons_append,
      scanFrom_more ?low ?high (by simp), List.cons_append,
      scanFrom_last (by simp) (by simp; omega) (by simp)]
    · simp only [bits, same]
      rfl
    case low =>
      simp only
      split <;> simp
      omega
    case high =>
      simp only
      split <;> simp <;> omega
  · have bits : (((v / 262144 % 8 + 240 - 0xF0) * 64 + (v / 4096 % 64 + 128 - 0x80)) * 64 +
        (v / 64 % 64 + 128 - 0x80)) * 64 + (v % 64 + 128 - 0x80) = v := by omega
    rw [List.cons_append, scanFrom_begun (lead_four (by omega) (by omega)), List.cons_append,
      scanFrom_more ?low ?high (by simp), List.cons_append,
      scanFrom_more (by simp) (by simp; omega) (by simp), List.cons_append,
      scanFrom_last (by simp) (by simp; omega) (by simp)]
    · simp only [bits, same]
      rfl
    case low =>
      simp only
      split <;> simp
      omega
    case high =>
      simp only
      split <;> simp <;> omega

theorem decode_encode (s : String) : decode (encode s) = s := by
  have read (chars : List Char) : scan (chars.flatMap String.utf8EncodeChar) = chars.map some := by
    induction chars with
    | nil => rfl
    | cons c chars ih => rw [List.flatMap_cons, scan_encodeChar, ih, List.map_cons]
  rw [decode, encode, read, List.map_map]
  simp [Function.comp_def]

/-- Every way to go on from `v` by `owed` bytes ends at a character outside of ASCII. -/
def Leads : Nat → Nat → Prop
  | 0, v => 0x80 ≤ v ∧ v.isValidChar
  | owed + 1, v => ∀ n, 0x80 ≤ n → n ≤ 0xBF → Leads owed (v * 64 + (n - 0x80))

def Begun.Fits (p : Begun) : Prop :=
  0x80 ≤ p.low.toNat ∧ ∀ n, p.low.toNat ≤ n → n ≤ p.high.toNat →
    Leads (p.owed - 1) (p.bits * 64 + (n - 0x80))

def Lead.Fits (b : UInt8) : Lead → Prop
  | .whole c => b.toNat < 0x80 ∧ c = Char.ofNat b.toNat
  | .begun p => 0x80 ≤ b.toNat ∧ p.Fits
  | .illFormed => 0x80 ≤ b.toNat

theorem fits_lead (b : UInt8) : (lead b).Fits b := by
  unfold lead
  simp only [UInt8.lt_iff_toNat_lt, ← UInt8.toNat_inj, UInt8.reduceToNat]
  repeat' split
  case isTrue one => exact ⟨one, rfl⟩
  all_goals simp only [Lead.Fits, Begun.Fits, Leads, Nat.isValidChar, UInt8.reduceToNat, Nat.reduceSub]
  all_goals try omega
  all_goals refine ⟨by omega, by decide, ?_⟩
  all_goals
    intros
    omega

def IsWide (part : Option Char) : Prop := 0x80 ≤ (part.getD replacement).toNat

theorem toNat_ofNat {n : Nat} (valid : n.isValidChar) : (Char.ofNat n).toNat = n := by
  rw [Char.ofNat, dif_pos valid]
  rfl

theorem isWide_none : IsWide none := by
  unfold IsWide
  decide

theorem step_ascii {begun : Option Begun} (fits : ∀ p ∈ begun, p.Fits) {b : UInt8}
    (ascii : b.toNat < 0x80) :
    step begun b = (begun.toList.map (fun _ => none) ++ [some (Char.ofNat b.toNat)], none) := by
  have fresh : start b = ([some (Char.ofNat b.toNat)], none) := by
    rw [start, lead_of_ascii ascii]
  cases begun with
  | none => exact fresh
  | some p =>
    have low := (fits p rfl).1
    have broken : ¬ (p.low ≤ b ∧ b ≤ p.high) := by
      rw [UInt8.le_iff_toNat_le]
      omega
    rw [step, if_neg broken, fresh]
    rfl

structure Step.Wide (s : Step) : Prop where
  parts : ∀ part ∈ s.1, IsWide part
  begun : ∀ p ∈ s.2, p.Fits
  moves : s.1 = [] → s.2.isSome

theorem wide_start {b : UInt8} (wide : 0x80 ≤ b.toNat) : (start b).Wide := by
  have fits := fits_lead b
  unfold start
  split <;> rename_i lead <;> rw [lead] at fits
  · exact absurd fits.1 (Nat.not_lt.2 wide)
  · exact ⟨by simp, by simpa using fits.2, by simp⟩
  · exact ⟨List.forall_mem_singleton.2 isWide_none, by simp, by simp⟩

theorem wide_step {begun : Option Begun} (fits : ∀ p ∈ begun, p.Fits) {b : UInt8}
    (wide : 0x80 ≤ b.toNat) : (step begun b).Wide := by
  have fresh := wide_start wide
  cases begun with
  | none => exact fresh
  | some p =>
    by_cases within : p.low ≤ b ∧ b ≤ p.high
    · have leads := (fits p rfl).2 b.toNat (UInt8.le_iff_toNat_le.1 within.1)
        (UInt8.le_iff_toNat_le.1 within.2)
      rw [step, if_pos within]
      by_cases last : p.owed ≤ 1
      · rw [Nat.sub_eq_zero_of_le last] at leads
        rw [if_pos last]
        refine ⟨List.forall_mem_singleton.2 ?_, by simp, by simp⟩
        rw [IsWide, Option.getD_some, toNat_ofNat leads.2]
        exact leads.1
      · obtain ⟨owed, more⟩ : ∃ owed, p.owed - 1 = owed + 1 := ⟨p.owed - 2, by omega⟩
        rw [more] at leads
        rw [if_neg last, more]
        refine ⟨by simp, ?_, by simp⟩
        simpa [Begun.Fits, Leads] using leads
    · rw [step, if_neg within]
      exact ⟨List.forall_mem_cons.2 ⟨isWide_none, fresh.parts⟩, fresh.begun, by simp⟩

theorem scanFrom_parts {begun : Option Begun} (fits : ∀ p ∈ begun, p.Fits) (bytes : List UInt8) :
    ∀ part ∈ scanFrom begun bytes, IsWide part ∨
      ∃ b ∈ bytes, b.toNat < 0x80 ∧ part = some (Char.ofNat b.toNat) := by
  induction bytes generalizing begun with
  | nil =>
    cases begun with
    | none => simp [scanFrom]
    | some p => simp [scanFrom, isWide_none]
  | cons b bytes ih =>
    intro part mem
    rw [scanFrom] at mem
    have later (fits : ∀ p ∈ (step begun b).2, p.Fits) (mem : part ∈ scanFrom (step begun b).2 bytes) :
        IsWide part ∨ ∃ c ∈ b :: bytes, c.toNat < 0x80 ∧ part = some (Char.ofNat c.toNat) :=
      (ih fits part mem).imp_right fun ⟨c, mem, same⟩ => ⟨c, List.mem_cons_of_mem _ mem, same⟩
    rcases Nat.lt_or_ge b.toNat 0x80 with ascii | wide
    · rw [step_ascii fits ascii] at mem later
      rcases List.mem_append.1 mem with read | mem
      · rcases List.mem_append.1 read with broken | here
        · obtain ⟨_, _, rfl⟩ := List.mem_map.1 broken
          exact .inl isWide_none
        · exact .inr ⟨b, List.mem_cons_self, ascii, List.mem_singleton.1 here⟩
      · exact later (by simp) mem
    · have step := wide_step fits wide
      rcases List.mem_append.1 mem with read | mem
      · exact .inl (step.parts part read)
      · exact later step.begun mem

theorem Step.Wide.first {s : Step} (wide : s.Wide) (bytes : List UInt8) :
    ∃ part more, s.1 ++ scanFrom s.2 bytes = part :: more ∧ IsWide part := by
  induction bytes generalizing s with
  | nil =>
    obtain ⟨_ | ⟨part, read⟩, begun⟩ := s
    · obtain ⟨p, rfl⟩ := Option.isSome_iff_exists.1 (wide.moves rfl)
      exact ⟨none, [], rfl, isWide_none⟩
    · exact ⟨part, _, rfl, wide.parts part (by simp)⟩
  | cons b bytes ih =>
    obtain ⟨_ | ⟨part, read⟩, begun⟩ := s
    · obtain ⟨p, rfl⟩ := Option.isSome_iff_exists.1 (wide.moves rfl)
      rw [List.nil_append, scanFrom]
      rcases Nat.lt_or_ge b.toNat 0x80 with ascii | outside
      · rw [step_ascii wide.begun ascii]
        exact ⟨none, _, rfl, isWide_none⟩
      · exact ih (wide_step wide.begun outside)
    · exact ⟨part, _, rfl, wide.parts part (by simp)⟩

theorem encode_decode (bytes : List UInt8) : encode (decode bytes) =
    (scan bytes).flatMap fun part => String.utf8EncodeChar (part.getD replacement) := by
  simp [encode, decode, List.flatMap_map]

theorem utf8EncodeChar_of_ascii {b : UInt8} (ascii : b.toNat < 0x80) :
    String.utf8EncodeChar (Char.ofNat b.toNat) = [b] := by
  have value : (Char.ofNat b.toNat).val.toNat = b.toNat := toNat_ofNat (.inl (by omega))
  unfold String.utf8EncodeChar
  simp only [value]
  rw [if_pos (by omega), UInt8.ofNat_toNat]

theorem le_of_mem_utf8EncodeChar {c : Char} (wide : 0x80 ≤ c.toNat) {b : UInt8}
    (mem : b ∈ String.utf8EncodeChar c) : 0x80 ≤ b.toNat := by
  have value : c.val.toNat = c.toNat := rfl
  unfold String.utf8EncodeChar at mem
  simp only [value] at mem
  generalize c.toNat = v at wide mem
  have high (n : Nat) (low : 0x80 ≤ n) (small : n < 256) : 0x80 ≤ (UInt8.ofNat n).toNat := by
    rwa [toNat_byte small]
  repeat' split at mem
  · omega
  all_goals
    simp only [List.mem_cons, List.not_mem_nil, or_false] at mem
    rcases mem with rfl | rfl | rfl | rfl <;> exact high _ (by omega) (by omega)

theorem mem_encode_decode {bytes : List UInt8} {b : UInt8} (mem : b ∈ encode (decode bytes)) :
    0x80 ≤ b.toNat ∨ b ∈ bytes := by
  rw [encode_decode] at mem
  obtain ⟨part, read, mem⟩ := List.mem_flatMap.1 mem
  rcases scanFrom_parts (by simp) bytes part read with wide | ⟨c, here, ascii, rfl⟩
  · exact .inl (le_of_mem_utf8EncodeChar wide mem)
  · rw [Option.getD_some, utf8EncodeChar_of_ascii ascii, List.mem_singleton] at mem
    exact .inr (mem ▸ here)

theorem encode_decode_ascii {b : UInt8} (ascii : b.toNat < 0x80) (bytes : List UInt8) :
    encode (decode (b :: bytes)) = b :: encode (decode bytes) := by
  rw [encode_decode, encode_decode, scan, scanFrom_whole (lead_of_ascii ascii), List.flatMap_cons,
    Option.getD_some, utf8EncodeChar_of_ascii ascii]
  rfl

theorem encode_decode_wide {b : UInt8} (wide : 0x80 ≤ b.toNat) (bytes : List UInt8) :
    ∃ c more, encode (decode (b :: bytes)) = c :: more ∧ 0x80 ≤ c.toNat := by
  obtain ⟨part, parts, read, first⟩ := (wide_start wide).first bytes
  obtain ⟨c, more, written⟩ := List.exists_cons_of_ne_nil
    (String.utf8EncodeChar_ne_nil (c := part.getD replacement))
  have scanned : scan (b :: bytes) = part :: parts := read
  rw [encode_decode, scanned, List.flatMap_cons, written, List.cons_append]
  exact ⟨c, _, rfl, le_of_mem_utf8EncodeChar first (written ▸ List.mem_cons_self)⟩

theorem encode_decode_of_ascii {bytes : List UInt8} (ascii : ∀ b ∈ bytes, b.toNat < 0x80) :
    encode (decode bytes) = bytes := by
  induction bytes with
  | nil => rfl
  | cons b bytes ih =>
    rw [List.forall_mem_cons] at ascii
    rw [encode_decode_ascii ascii.1, ih ascii.2]

end EditScope.Utf8

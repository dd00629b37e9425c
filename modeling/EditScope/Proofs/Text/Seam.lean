import EditScope.Proofs.Text.Utf8

set_option autoImplicit false

namespace EditScope.Utf8

def Seam (a b : List UInt8) : Prop :=
  (∀ x ∈ a.getLast?, x.toNat < 0x80) ∨ ∀ x ∈ b.head?, x.toNat < 0x80

theorem length_encode (s : String) : (encode s).length = s.utf8ByteSize := by
  have chars (cs : List Char) :
      (cs.flatMap String.utf8EncodeChar).length = (String.ofList cs).utf8ByteSize := by
    induction cs with
    | nil => rfl
    | cons c cs ih =>
      rw [List.flatMap_cons, List.length_append, ih, String.length_utf8EncodeChar, String.ofList_cons,
        String.utf8ByteSize_append, String.utf8ByteSize_singleton]
  rw [encode, chars, String.ofList_toList]

theorem length_utf8EncodeChar_of_ascii {c : Char} (ascii : c.toNat < 0x80) :
    (String.utf8EncodeChar c).length = 1 := by
  have value : c.val.toNat = c.toNat := rfl
  unfold String.utf8EncodeChar
  simp only [value]
  rw [if_pos (by omega), List.length_singleton]

-- A character that a cut parts has two bytes or more, and none of ASCII.
theorem not_seam_inside {c : Char} {x y : List UInt8} (inside : String.utf8EncodeChar c = x ++ y)
    (left : x ≠ []) (right : y ≠ []) (rest : List UInt8) : ¬ Seam x (y ++ rest) := by
  have wide : 0x80 ≤ c.toNat := by
    rcases Nat.lt_or_ge c.toNat 0x80 with ascii | wide
    · have one := length_utf8EncodeChar_of_ascii ascii
      have first := List.length_pos_iff.2 left
      have second := List.length_pos_iff.2 right
      rw [inside, List.length_append] at one
      omega
    · exact wide
  have all : ∀ b ∈ x ++ y, 0x80 ≤ b.toNat := fun b mem =>
    le_of_mem_utf8EncodeChar wide (inside ▸ mem)
  rintro (last | head)
  · have low := last _ (List.getLast?_eq_some_getLast left)
    have high := all _ (List.mem_append_left y (List.getLast_mem left))
    omega
  · obtain ⟨b, tail, rfl⟩ := List.exists_cons_of_ne_nil right
    have low := head b rfl
    have high := all b (by simp)
    omega

theorem exists_chars_of_seam {cs : List Char} {a b : List UInt8}
    (whole : cs.flatMap String.utf8EncodeChar = a ++ b) (seam : Seam a b) :
    ∃ front back, cs = front ++ back ∧ front.flatMap String.utf8EncodeChar = a ∧
      back.flatMap String.utf8EncodeChar = b := by
  induction cs generalizing a with
  | nil =>
    obtain ⟨rfl, rfl⟩ := List.append_eq_nil_iff.1 whole.symm
    exact ⟨[], [], rfl, rfl, rfl⟩
  | cons c cs ih =>
    rw [List.flatMap_cons] at whole
    -- The cut falls behind the first character, or inside it, or before it.
    rcases List.append_eq_append_iff.1 whole with ⟨x, rfl, rest⟩ | ⟨y, first, rfl⟩
    · have later : Seam x b := by
        refine seam.imp_left fun last z here => last z ?_
        rw [List.getLast?_append, here]
        rfl
      obtain ⟨front, back, rfl, rfl, written⟩ := ih rest later
      exact ⟨c :: front, back, rfl, List.flatMap_cons, written⟩
    · by_cases left : a = []
      · subst left
        rw [List.nil_append] at first
        exact ⟨[], c :: cs, rfl, rfl, by rw [List.flatMap_cons, first]⟩
      by_cases right : y = []
      · subst right
        rw [List.append_nil] at first
        exact ⟨[c], cs, rfl, by simpa using first, rfl⟩
      · exact absurd seam (not_seam_inside first left right _)

theorem exists_append_of_seam {s : String} {a b : List UInt8} (whole : encode s = a ++ b)
    (seam : Seam a b) : ∃ before after, s = before ++ after ∧ encode before = a ∧ encode after = b := by
  obtain ⟨front, back, split, left, right⟩ := exists_chars_of_seam whole seam
  refine ⟨String.ofList front, String.ofList back, ?_, ?_, ?_⟩
  · rw [← String.ofList_append, ← split, String.ofList_toList]
  · rw [encode, String.toList_ofList, left]
  · rw [encode, String.toList_ofList, right]

def Boundary (s : String) (n : Nat) : Prop :=
  ∃ before after, s = before ++ after ∧ before.utf8ByteSize = n

theorem exists_slice {s : String} {m n : Nat} (first : Boundary s m) (second : Boundary s n)
    (le : m ≤ n) : ∃ before inside after, s = before ++ inside ++ after ∧
      before.utf8ByteSize = m ∧ (before ++ inside).utf8ByteSize = n := by
  obtain ⟨before, rest, rfl, rfl⟩ := first
  obtain ⟨front, after, split, rfl⟩ := second
  have chars : before.toList ++ rest.toList = front.toList ++ after.toList := by
    rw [← String.toList_append, split, String.toList_append]
  rcases List.append_eq_append_iff.1 chars with ⟨x, longer, same⟩ | ⟨x, longer, same⟩
  · have inside : front = before ++ String.ofList x := by
      rw [← String.ofList_toList (s := front), longer, String.ofList_append, String.ofList_toList]
    exact ⟨before, String.ofList x, after, inside ▸ split, rfl, by rw [inside]⟩
  · have inside : before = front ++ String.ofList x := by
      rw [← String.ofList_toList (s := before), longer, String.ofList_append, String.ofList_toList]
    have size : (String.ofList x).utf8ByteSize = 0 := by
      rw [inside, String.utf8ByteSize_append] at le
      omega
    rw [String.utf8ByteSize_eq_zero_iff.1 size, String.append_empty] at inside
    subst inside
    exact ⟨before, "", rest, by rw [String.append_empty], rfl, by rw [String.append_empty]⟩

end EditScope.Utf8

import EditScope.Proofs.Outline.Origin
import EditScope.Proofs.Text.Seam
import EditScope.Proofs.Token.Regions

set_option autoImplicit false

namespace EditScope

namespace Piece

theorem ascii_of_isBlank {b : UInt8} (blank : isBlank b) : b.toNat < 0x80 := by
  simp [isBlank, UInt8.le_iff_toNat_le, ← UInt8.toNat_inj] at blank
  omega

theorem ascii_of_continuesWord {b : UInt8} (other : continuesWord b = false) : b.toNat < 0x80 := by
  simp [continuesWord, startsWord, UInt8.le_iff_toNat_le] at other
  omega

theorem ascii_of_isLoose {b : UInt8} (loose : isLoose b) : b.toNat < 0x80 := by
  simp only [isLoose, Bool.and_eq_true, Bool.not_eq_true'] at loose
  exact ascii_of_continuesWord loose.1.1.2

variable {p : Piece} {after : List UInt8}

theorem seam_of_ascii {bytes : List UInt8} (ascii : ∀ b ∈ bytes, b.toNat < 0x80) :
    Utf8.Seam bytes after :=
  .inl fun b last => ascii b (List.mem_of_getLast? last)

theorem seam_of_through (opening : List UInt8) {stop body : List UInt8} {b : UInt8}
    (last : stop.getLast? = some b) (ascii : b.toNat < 0x80) (through : Through stop body after) :
    Utf8.Seam (opening ++ body) after := by
  rcases through.ends with ⟨inner, rfl⟩ | rfl
  · refine .inl fun c here => ?_
    rw [List.getLast?_append, List.getLast?_append, last] at here
    cases here
    exact ascii
  · exact .inr (by simp)

theorem seam_of_whole (whole : Whole after p) : Utf8.Seam p.bytes after := by
  have quoted (mark : UInt8) (body : List UInt8) (ascii : mark.toNat < 0x80) :
      Utf8.Seam (mark :: (body ++ [mark])) after := by
    refine .inl fun c here => ?_
    rw [← List.cons_append, List.getLast?_concat] at here
    cases here
    exact ascii
  have separatorBytes : ∀ text ∈ Lexeme.separators, ∀ b ∈ Utf8.encode text, b.toNat < 0x80 := by
    decide +kernel
  have operatorBytes : ∀ text ∈ Lexeme.operators, ∀ b ∈ Utf8.encode text, b.toNat < 0x80 := by
    decide +kernel
  cases whole with
  | lineComment line ends => exact .inr fun b head => by rw [ends b head]; decide
  | blockComment through => exact seam_of_through [byte '/', byte '*'] rfl (by decide) through
  | blank all ends => exact seam_of_ascii fun b mem => ascii_of_isBlank (all b mem)
  | charLiteral inside => exact quoted apostrophe _ (by decide)
  | textBlock through => exact seam_of_through [quote, quote, quote] rfl (by decide) through
  | stringLiteral inside => exact quoted quote _ (by decide)
  | word spelled ends => exact .inr fun b head => ascii_of_continuesWord (ends b head)
  | number spelled => exact seam_of_ascii (Lexeme.ascii_of_isNumber spelled)
  | separator known => exact seam_of_ascii (separatorBytes _ known)
  | operator known => exact seam_of_ascii (operatorBytes _ known)
  | skipped loose => exact seam_of_ascii (List.forall_mem_singleton.2 (ascii_of_isLoose loose))

variable {source : List UInt8} {ps qs : List Piece}

theorem seam_of_split (split : pieces source = ps ++ qs) : Utf8.Seam (text ps) (text qs) := by
  rcases List.eq_nil_or_concat ps with rfl | ⟨ps, p, rfl⟩
  · exact .inl (by simp [text])
  · rw [List.concat_eq_append, List.append_assoc, List.singleton_append] at split
    have proper : p.bytes ≠ [] := bytes_ne_nil source p (by simp [split])
    refine (seam_of_whole (whole_of_split split)).imp_left fun last b here => last b ?_
    rw [List.getLast?_eq_some_getLast proper]
    rw [text, List.concat_eq_append, List.flatMap_append, List.flatMap_singleton, List.getLast?_append,
      List.getLast?_eq_some_getLast proper, Option.some_or] at here
    exact here

end Piece

namespace Token

open Piece

theorem exists_slice {s : String} {t : Token} (mem : t ∈ (ofSource (Utf8.encode s)).toList) :
    ∃ before after, s = before ++ t.lexeme.text ++ after ∧ t.offset = before.utf8ByteSize ∧
      t.length = t.lexeme.text.utf8ByteSize := by
  obtain ⟨k, here⟩ := List.mem_iff_getElem?.1 mem
  rw [toList_ofSource] at here
  obtain ⟨ps, p, qs, split, _, lexeme, start, length⟩ := exists_piece here
  have whole := whole_of_split split
  have cut : Utf8.encode s = text ps ++ text (p :: qs) := by
    rw [← text_pieces (Utf8.encode s), split]
    simp [text]
  obtain ⟨before, rest, rfl, front, back⟩ := Utf8.exists_append_of_seam cut (seam_of_split split)
  obtain ⟨inside, after, rfl, bytes, _⟩ := Utf8.exists_append_of_seam (s := rest) (b := text qs) back
    (seam_of_whole whole)
  have spelled : t.lexeme.text = inside := by
    rw [(spelledBy_of_whole whole lexeme).text, ← bytes, Utf8.decode_encode]
  refine ⟨before, after, by rw [spelled, String.append_assoc], ?_, ?_⟩
  · rw [start, Nat.zero_add, ← Utf8.length_encode, front]
    rfl
  · rw [length, ← bytes, Utf8.length_encode, spelled]

end Token

namespace Outline

open Declaration Utf8

variable {s : String}

theorem boundary_length : Boundary s (encode s).length :=
  ⟨s, "", String.append_empty.symm, (length_encode s).symm⟩

theorem boundary_offsetAt (i : Nat) :
    Boundary s (offsetAt (Token.ofSource (encode s)) (encode s).length i) := by
  unfold offsetAt
  cases here : (Token.ofSource (encode s))[i]? with
  | none => exact boundary_length
  | some t =>
    obtain ⟨before, after, split, start, _⟩ :=
      Token.exists_slice (Array.mem_toList_iff.2 (Array.mem_of_getElem? here))
    exact ⟨before, t.lexeme.text ++ after, by rw [split, String.append_assoc], start.symm⟩

theorem boundary_stopAt (i : Option Nat) :
    Boundary s (stopAt (Token.ofSource (encode s)) (encode s).length i) := by
  unfold stopAt
  cases here : i.bind ((Token.ofSource (encode s))[·]?) with
  | none => exact boundary_length
  | some t =>
    obtain ⟨i, _, here⟩ := Option.bind_eq_some_iff.1 here
    obtain ⟨before, after, split, start, length⟩ :=
      Token.exists_slice (Array.mem_toList_iff.2 (Array.mem_of_getElem? here))
    refine ⟨before ++ t.lexeme.text, after, split, ?_⟩
    rw [String.utf8ByteSize_append, ← start, ← length]
    rfl

theorem declared_boundaries (settings : OutlineSettings) (fallback : Option String) (s : String) :
    (declared settings fallback (some nestingLimit) (encode s)).1.Everywhere
      (fun d => Boundary s d.place.start ∧ Boundary s d.place.stop) := by
  have start : Boundary s 0 := ⟨"", s, String.empty_append.symm, rfl⟩
  refine everywhere_iff.2 ⟨⟨start, boundary_length⟩, everywhereIn_mapPlaces _ |>.2 ?_⟩
  refine EverywhereIn.imp (fun d _ => ?_) _ (sketched_starts settings (encode s))
  rw [place_mapPlace]
  exact ⟨boundary_offsetAt d.place.first, boundary_stopAt d.place.last⟩

theorem ofSource_boundaries (settings : OutlineSettings) (fallback : Option String) (s : String) :
    let o := (ofSource settings fallback (encode s)).1
    (∀ t ∈ (Token.ofSource (encode s)).toList, ∃ before after, s = before ++ t.lexeme.text ++ after ∧
      t.offset = before.utf8ByteSize ∧ t.length = t.lexeme.text.utf8ByteSize) ∧
      ∀ i : o.Id, ∃ before inside after, s = before ++ inside ++ after ∧
        (o.node i).span = ⟨before.utf8ByteSize, (before ++ inside).utf8ByteSize⟩ := by
  intro o
  refine ⟨fun t mem => Token.exists_slice mem, fun i => ?_⟩
  obtain ⟨_, d, holds, here⟩ :=
    exists_holds_at (fun _ => Everywhere.members) (declared_boundaries settings fallback s) i
  have both : Boundary s (o.node i).span.start ∧ Boundary s (o.node i).span.stop := by
    have span : (o.node i).span = d.place := congrArg Node.span holds.node_eq
    rw [span]
    exact (everywhere_iff.1 here).1
  have le := (laminar_of_source settings fallback (encode s)).start_le_stop i rfl
  obtain ⟨before, inside, after, split, start, stop⟩ := exists_slice both.1 both.2 le
  refine ⟨before, inside, after, split, ?_⟩
  rw [start, stop]

end Outline

end EditScope

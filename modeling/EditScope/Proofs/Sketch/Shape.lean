import EditScope.Proofs.Sketch.Origin

set_option autoImplicit false

namespace EditScope

namespace Sketch

open Declaration

variable (b : Bracketed)

/-- The brace comes before any closing brace or semicolon outside groups. -/
inductive Reaches (brace : Nat) : Nat → Prop where
  | here (opens : b.has (·.opens .curly) brace) : Reaches brace brace
  | past {i close : Nat} (opens : b.has (fun l => l.opens .round || l.opens .square) i)
      (pair : b.close? i = some close) (rest : Reaches brace (close + 1)) : Reaches brace i
  | next {i : Nat}
      (plain : b.has (fun l => l.opened?.isNone && !l.isSeparator ";" && !l.closes .curly) i)
      (rest : Reaches brace (i + 1)) : Reaches brace i

structure TypeAt (first : Nat) (name : String) (brace : Nat) : Prop where
  keyword : b.has Lexeme.isTypeKeyword first
  name : b.has (fun l => l.isIdentifier && l.text == name) (first + 1)
  notLiteral : ∀ k, k + 1 = first → b.has (·.isSeparator ".") k = false
  body : Reaches b brace (first + 2)

inductive EndsAt (name last : Nat) : Prop where
  | body {brace : Nat} (after : name + 1 < brace) (opens : b.has (·.opens .curly) brace)
      (pair : b.close? brace = some last) (closes : b.has (·.closes .curly) last)
      (noArrow : b.has (·.isOperator "->") (brace - 1) = false)
  | semicolon {before : Nat} (ends : b.has (·.isSeparator ";") last) (next : before + 1 = name)
      (typed : separates b before = false)

structure MethodAt (first : Nat) (name : String) (last : Nat) : Prop where
  name : b.has (fun l => l.isIdentifier && l.text == name) first
  opens : b.has (·.opens .round) (first + 1)
  closes : (b.close? (first + 1)).isSome
  notListed : ∀ k, k + 1 = first → b.has (·.isSeparator ",") k = false
  ends : EndsAt b first last

inductive Shaped : Sketch → Prop where
  | type {name : String} {place : Extent} {members : List Sketch} {brace : Nat}
      (here : TypeAt b place.first name brace) (closed : ∀ last ∈ place.last, brace < last)
      (later : ∀ m ∈ members, place.first < m.place.first) : Shaped (.mk .type name place members)
  | method {name : String} {first last : Nat} (here : MethodAt b first name last) :
      Shaped (.mk .method name ⟨first, some last⟩ [])

section Headers

variable {b} {i : Nat}

theorem reaches_of_bodyBrace? {brace : Nat} (found : bodyBrace? b i = some brace) :
    Reaches b brace i := by
  fun_induction bodyBrace? b i with
  | case1 i inside l opens =>
    cases Option.some.inj found
    exact .here (by simpa [Bracketed.has, inside] using opens)
  | case3 i inside l _ _ group close pair _ ih =>
    exact .past (by simpa [Bracketed.has, inside] using group) pair (ih found)
  | case5 i inside l notBrace ends group ih =>
    simp only [Bool.or_eq_true, not_or, Bool.not_eq_true] at notBrace ends group
    have opened : l.opened? = none := by
      rw [Lexeme.opened?_eq_none]
      rintro (_ | _ | _)
      · exact group.1
      · exact group.2
      · exact notBrace
    refine .next ?_ (ih found)
    rw [Bracketed.has_eq (Array.getElem?_eq_getElem inside)]
    change (l.opened?.isNone && !l.isSeparator ";" && !l.closes .curly) = true
    rw [opened, ends.1, ends.2]
    rfl
  | _ => cases found

theorem bodyBrace?_of_reaches {brace : Nat} (reaches : Reaches b brace i) :
    bodyBrace? b i = some brace := by
  induction reaches with
  | here opens =>
    obtain ⟨l, here, opens⟩ := (Option.any_eq_true _ _).1 opens
    rw [bodyBrace?_of_some here, if_pos opens]
  | past opens pair _ ih =>
    obtain ⟨l, here, opens⟩ := (Option.any_eq_true _ _).1 opens
    have curly : l.opens .curly = false ∧ l.closes .curly = false ∧ l.isSeparator ";" = false := by
      rcases Bool.or_eq_true_iff.1 opens with opens | opens <;>
        simp [Lexeme.opens, Lexeme.closes, Lexeme.isSeparator, (Lexeme.isSeparator_iff.1 opens).2,
          Bracket.openText, Bracket.closeText]
    rw [bodyBrace?_of_some here, curly.1, curly.2.1, curly.2.2, opens, pair]
    exact ih
  | next plain _ ih =>
    obtain ⟨l, here, plain⟩ := (Option.any_eq_true _ _).1 plain
    simp only [Bool.and_eq_true, Option.isNone_iff_eq_none, Bool.not_eq_true'] at plain
    have opens := Lexeme.opened?_eq_none.1 plain.1.1
    rw [bodyBrace?_of_some here, opens, opens, opens, plain.1.2, plain.2]
    exact ih

theorem TypeAt.brace_unique {first brace brace' : Nat} {name name' : String}
    (here : TypeAt b first name brace) (here' : TypeAt b first name' brace') : brace = brace' :=
  Option.some.inj ((bodyBrace?_of_reaches here.body).symm.trans (bodyBrace?_of_reaches here'.body))

theorem opens_of_reaches {brace : Nat} (reaches : Reaches b brace i) :
    b.has (·.opens .curly) brace := by
  induction reaches with
  | here opens => exact opens
  | past _ _ _ ih => exact ih
  | next _ _ ih => exact ih

theorem le_reaches {brace : Nat} (reaches : Reaches b brace i) : i ≤ brace := by
  induction reaches with
  | here => exact Nat.le_refl _
  | past opens pair rest ih =>
    have := Bracketed.close?_bounds pair
    omega
  | next plain rest ih => omega

theorem typeAt_of_header {header : TypeHeader} (keyword : b.has Lexeme.isTypeKeyword i)
    (found : typeHeader? b i = some header) : TypeAt b i header.name header.brace := by
  obtain ⟨name, plain, body⟩ := typeHeader?_cases found
  refine ⟨keyword, name, ?_, reaches_of_bodyBrace? body⟩
  rintro k rfl
  simpa using plain

theorem not_operator {mark : String} (here : b.has (·.isSeparator mark) i) (sign : String) :
    b.has (·.isOperator sign) i = false := by
  obtain ⟨l, here, separator⟩ := (Option.any_eq_true _ _).1 here
  rw [Bracketed.has_eq here, Lexeme.isOperator, (Lexeme.isSeparator_iff.1 separator).1]
  rfl

-- The scan starts behind the parameters, or behind a lexeme or a group that it has passed over.
theorem endsAt_of_methodLast? (sound : b.Sound) {bare throws : Bool} {name last : Nat}
    (after : name + 1 < i) (noArrow : b.has (·.isOperator "->") (i - 1) = false)
    (found : methodLast? b bare throws i = some last)
    (typed : bare = false → ∃ before, before + 1 = name ∧ separates b before = false) :
    EndsAt b name last := by
  fun_induction methodLast? b bare throws i with
  | case1 throws i inside l opens =>
    have opens : b.has (·.opens .curly) i := by simpa [Bracketed.has, inside] using opens
    exact .body after opens found (sound.closes_of_opens opens found) noArrow
  | case3 throws i inside l _ semicolon plain =>
    cases Option.some.inj found
    obtain ⟨before, next, typed⟩ := typed (by simpa using plain)
    exact .semicolon (by simpa [Bracketed.has, inside] using semicolon) next typed
  | case6 throws i inside l _ _ _ _ group close pair bounds ih =>
    obtain ⟨family, _, closes⟩ := sound.pair pair
    exact ih (by omega) (not_operator closes "->") found
  | case8 throws i inside l _ _ other _ _ ih =>
    refine ih (by omega) ?_ found
    simp only [Bool.or_eq_true, not_or, Bool.not_eq_true] at other
    rw [Nat.add_sub_cancel, Bracketed.has_eq (Array.getElem?_eq_getElem inside)]
    exact other.2
  | _ => cases found

theorem methodAt_of_header (sound : b.Sound) {header : MethodHeader}
    (opens : b.has (·.opens .round) i) (found : methodHeader? b i = some header) :
    MethodAt b (i - 1) header.name header.last := by
  obtain ⟨name, close, rfl, here, plain, pair, ends⟩ := methodHeader?_cases found
  have bounds := Bracketed.close?_bounds pair
  refine ⟨here, opens, by simp [pair], ?_, ?_⟩
  · rintro k rfl
    simpa using plain
  · have noArrow := not_operator (sound.closes_of_opens opens pair) "->"
    refine endsAt_of_methodLast? sound (show name + 1 < close + 1 by omega) noArrow ends ?_
    intro typed
    cases name with
    | zero => cases typed
    | succ before => exact ⟨before, rfl, by simpa using typed⟩

end Headers

variable {b} {i : Nat} {w : Walk}

variable (b) in
structure Opened (i : Nat) (f : Frame) : Prop where
  header : ∃ brace, brace < i ∧ TypeAt b f.keyword f.name brace
  later : ∀ m ∈ f.members, f.keyword < m.place.first

variable (b) in
structure Reported (i : Nat) (w : Walk) : Prop where
  types : ∀ d ∈ w.types, d.kind = .type
  shaped : w.Everywhere (Shaped b)
  opened : ∀ f ∈ w.frames, Opened b i f
  nested : w.frames.Pairwise fun inner outer => outer.keyword < inner.keyword

theorem Opened.keyword_lt {f : Frame} (opened : Opened b i f) : f.keyword + 2 < i := by
  obtain ⟨brace, before, header⟩ := opened.header
  have reached := le_reaches header.body
  omega

namespace Reported

theorem mono {j : Nat} (reported : Reported b i w) (le : i ≤ j) : Reported b j w := by
  refine { reported with opened := fun f mem => ?_ }
  obtain ⟨⟨brace, before, header⟩, later⟩ := reported.opened f mem
  exact ⟨⟨brace, by omega, header⟩, later⟩

theorem note (reported : Reported b i w) (n : Note) : Reported b i (w.note n) :=
  ⟨reported.types, reported.shaped, reported.opened, reported.nested⟩

theorem add {d : Sketch} (reported : Reported b i w) (shaped : d.Everywhere (Shaped b))
    (type : w.frames = [] → d.kind = .type) (later : ∀ f ∈ w.frames.head?, f.keyword < d.place.first) :
    Reported b i (w.add d) := by
  obtain ⟨types, all, opened, nested⟩ := reported
  have added := all.add shaped
  obtain ⟨package, outer, frames, notes⟩ := w
  cases frames with
  | nil => exact ⟨List.forall_mem_cons.2 ⟨type rfl, types⟩, added, opened, nested⟩
  | cons f frames =>
    obtain ⟨first, rest⟩ := List.forall_mem_cons.1 opened
    have grown : Opened b i { f with members := d :: f.members } :=
      ⟨first.header, List.forall_mem_cons.2 ⟨later f rfl, first.later⟩⟩
    exact ⟨types, added, List.forall_mem_cons.2 ⟨grown, rest⟩,
      List.pairwise_cons.2 (List.pairwise_cons.1 nested)⟩

theorem leave {last : Option Nat} (reported : Reported b i w) (after : ∀ j ∈ last, i ≤ j) :
    Reported b i (w.leave .merge last) := by
  obtain ⟨types, all, opened, nested⟩ := reported
  obtain ⟨package, outer, frames, notes⟩ := w
  cases frames with
  | nil => exact ⟨types, all, opened, nested⟩
  | cons f frames =>
    obtain ⟨⟨⟨brace, before, header⟩, later⟩, opened⟩ := List.forall_mem_cons.1 opened
    obtain ⟨inner, nested⟩ := List.pairwise_cons.1 nested
    obtain ⟨members, all'⟩ := List.forall_mem_cons.1 all.2
    have left : Reported b i ⟨package, outer, frames, notes⟩ := ⟨types, ⟨all.1, all'⟩, opened, nested⟩
    refine left.add (everywhere_iff.2 ⟨?_, everywhereIn_reverse.2 members⟩) (fun _ => rfl) ?_
    · exact .type header (fun j mem => Nat.lt_of_lt_of_le before (after j mem))
        (fun m mem => later m (List.mem_reverse.1 mem))
    · exact fun g head => inner g (List.mem_of_head? head)

end Reported

theorem reported_move (limit : Option Nat) {next : Nat} {w' : Walk} (sound : b.Sound)
    (reported : Reported b i w) (move : Move b ⟨.merge, limit⟩ i w next w') : Reported b next w' := by
  cases move with
  | pass later types frames =>
    obtain ⟨kinds, all, opened, nested⟩ := reported.mono (Nat.le_of_lt later)
    exact ⟨types ▸ kinds, ⟨types ▸ all.1, frames ▸ all.2⟩, frames ▸ opened, frames ▸ nested⟩
  | leave inside close => exact (reported.leave (by simp)).mono (Nat.le_succ i)
  | @enter header keyword found shallow =>
    have bounds := lt_typeHeader? found
    obtain ⟨types, all, opened, nested⟩ := reported.mono (show i ≤ header.brace + 1 by omega)
    -- What the body will hold is not known yet, so only the header is checked here.
    have entered : Opened b (header.brace + 1) ⟨header.name, i, header.brace + 1, []⟩ :=
      ⟨⟨header.brace, by omega, typeAt_of_header keyword found⟩, by simp⟩
    refine ⟨types, ⟨all.1, List.forall_mem_cons.2 ⟨trivial, all.2⟩⟩,
      List.forall_mem_cons.2 ⟨entered, opened⟩, List.pairwise_cons.2 ⟨fun f mem => ?_, nested⟩⟩
    have := (reported.opened f mem).keyword_lt
    simp only
    omega
  | @prune header keyword found deep =>
    have bounds := lt_typeHeader? found
    have noted := reported.note (.nestedTooDeep i header.name)
    have header' := typeAt_of_header keyword found
    have shape : Shaped b (.mk .type header.name ⟨i, b.close? header.brace⟩ []) :=
      .type header' (fun last pair => (Bracketed.close?_bounds pair).1) (by simp)
    refine (noted.add (everywhere_iff.2 ⟨shape, trivial⟩) (fun _ => rfl) ?_).mono ?_
    · intro f head
      have := (reported.opened f (List.mem_of_head? head)).keyword_lt
      simp only [Declaration.place]
      omega
    · cases close : b.close? header.brace with
      | none => simp only [Option.elim]; omega
      | some c =>
        have := Bracketed.close?_bounds close
        simp only [Option.elim]
        omega
  | @method header inside opens found =>
    have bounds := lt_methodHeader? found
    have header' := methodAt_of_header sound opens found
    refine (reported.add (everywhere_iff.2 ⟨.method header', trivial⟩) (fun none => absurd none inside)
      ?_).mono (by omega)
    intro f head
    have := (reported.opened f (List.mem_of_head? head)).keyword_lt
    simp only [Declaration.place]
    omega

theorem reported_finish (reported : Reported b i w) : Reported b i (w.finish .merge) := by
  refine Walk.finish_keeps ?_ reported
  intro w start reported
  exact (reported.note (.unclosed start)).leave (by simp)

end Sketch

theorem SketchedFile.shaped (limit : Option Nat) (lexemes : List Lexeme) :
    (∀ d ∈ (ofLexemes ⟨.merge, limit⟩ lexemes).types, d.kind = .type) ∧
      Declaration.EverywhereIn (Sketch.Shaped (.ofLexemes lexemes))
        (ofLexemes ⟨.merge, limit⟩ lexemes).types := by
  have sound := Bracketed.ofLexemes_sound lexemes
  have start : Sketch.Reported (.ofLexemes lexemes) 0 {} :=
    ⟨by simp, ⟨trivial, by simp⟩, by simp, .nil⟩
  obtain ⟨_, _, reported, _, walked⟩ :=
    Sketch.walk_keeps (fun _ _ => Sketch.reported_move limit sound) start
  have finished := Sketch.reported_finish reported
  simp only [ofLexemes, walked]
  exact ⟨fun d mem => finished.types d (List.mem_reverse.1 mem),
    Sketch.everywhereIn_reverse.2 finished.shaped.1⟩

end EditScope

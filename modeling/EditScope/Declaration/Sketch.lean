import EditScope.Bracket
import EditScope.Declaration.Basic

set_option autoImplicit false

namespace EditScope

structure Extent where
  first : Nat
  last : Option Nat
  deriving DecidableEq, Repr

abbrev Sketch := Declaration Extent

namespace Sketch

variable (b : Bracketed)

def nameTail (i : Nat) (name : String) : String × Nat :=
  match found : b.lexemes[i]?, b.lexemes[i + 1]? with
  | some dot, some part =>
    if dot.isSeparator "." && part.isIdentifier then
      have : i < b.lexemes.size := (Array.getElem?_eq_some_iff.1 found).1
      nameTail (i + 2) (name ++ "." ++ part.text)
    else (name, i)
  | _, _ => (name, i)
termination_by b.lexemes.size - i

def nameAt? (i : Nat) : Option (String × Nat) :=
  match b.lexemes[i]? with
  | none => none
  | some head =>
    if head.isIdentifier then
      let (name, next) := nameTail b (i + 1) head.text
      some (name, if b.has (·.isSeparator ";") next then next + 1 else next)
    else none

def bodyBrace? (i : Nat) : Option Nat :=
  if inside : i < b.lexemes.size then
    let l := b.lexemes[i]
    if l.opens .curly then some i
    else if l.isSeparator ";" || l.closes .curly then none
    else if l.opens .round || l.opens .square then
      match found : b.close? i with
      | some close =>
        have := Bracketed.close?_bounds found
        bodyBrace? (close + 1)
      | none => none
    else bodyBrace? (i + 1)
  else none
termination_by b.lexemes.size - i

structure TypeHeader where
  name : String
  brace : Nat

/-- After a point the keyword is a class literal. -/
def typeHeader? (i : Nat) : Option TypeHeader :=
  match b.lexemes[i + 1]? with
  | none => none
  | some name =>
    if name.isIdentifier && !(0 < i && b.has (·.isSeparator ".") (i - 1)) then
      (bodyBrace? b (i + 2)).map (⟨name.text, ·⟩)
    else none

-- `bare` says that no return type stands before the name; an arrow makes a lambda.
def methodLast? (bare throws : Bool) (i : Nat) : Option Nat :=
  if inside : i < b.lexemes.size then
    let l := b.lexemes[i]
    if l.opens .curly then b.close? i
    else if l.isSeparator ";" then if bare then none else some i
    else if l.closes .curly || l.isTypeKeyword || l.isOperator "->" then none
    else if l.isSeparator "," && !throws then none
    else if l.opens .round || l.opens .square then
      match found : b.close? i with
      | some close =>
        have := Bracketed.close?_bounds found
        methodLast? bare throws (close + 1)
      | none => none
    else methodLast? bare (throws || l.isKeyword "throws") (i + 1)
  else none
termination_by b.lexemes.size - i

def separates (i : Nat) : Bool :=
  b.has (fun l => l.opens .curly || l.closes .curly || l.isSeparator ";" || l.isSeparator ",") i

structure MethodHeader where
  name : String
  last : Nat

/-- After a comma it is a constant of an enumeration or an argument. -/
def methodHeader? (i : Nat) : Option MethodHeader :=
  match i with
  | 0 => none
  | name + 1 =>
    match b.lexemes[name]?, b.close? (name + 1) with
    | some l, some close =>
      if l.isIdentifier && !(0 < name && b.has (·.isSeparator ",") (name - 1)) then
        (methodLast? b (name == 0 || separates b (name - 1)) false (close + 1)).map (⟨l.text, ·⟩)
      else none
    | _, _ => none

def initializerEnd (i : Nat) : Nat :=
  if inside : i < b.lexemes.size then
    let l := b.lexemes[i]
    if l.isSeparator ";" then i + 1
    else if l.closes .curly then i
    else if l.opened?.isSome then
      match found : b.close? i with
      | some close =>
        have := Bracketed.close?_bounds found
        initializerEnd (close + 1)
      | none => i + 1
    else initializerEnd (i + 1)
  else i
termination_by b.lexemes.size - i

/-- Of an annotation type only the sign is passed over. -/
def annotationEnd (i : Nat) : Nat :=
  if b.has (·.isKeyword "interface") (i + 1) then i + 1
  else
    match nameAt? b (i + 1) with
    | none => i + 1
    | some (_, next) =>
      if b.has (·.opens .round) next then ((b.close? next).map (· + 1)).getD next else next

inductive Note where
  | strayMethod (name : Nat)
  | nestedTooDeep (keyword : Nat) (name : String)
  | unclosed (start : Nat)
  deriving DecidableEq, Repr

structure Frame where
  name : String
  keyword : Nat
  start : Nat
  members : List Sketch := []

/-- Declarations and notes are kept latest first, frames innermost first. -/
structure Walk where
  package : Option String := none
  types : List Sketch := []
  frames : List Frame := []
  notes : List Note := []

namespace Walk

def note (w : Walk) (n : Note) : Walk := { w with notes := n :: w.notes }

def add (w : Walk) (d : Sketch) : Walk :=
  match w.frames with
  | [] => { w with types := d :: w.types }
  | f :: frames => { w with frames := { f with members := d :: f.members } :: frames }

def enter (w : Walk) (f : Frame) : Walk := { w with frames := f :: w.frames }

def leave (policy : Overloads) (w : Walk) (last : Option Nat) : Walk :=
  match w.frames with
  | [] => w
  | f :: frames =>
    { w with frames }.add
      (.mk .type f.name ⟨f.keyword, last⟩ (policy.apply f.members.reverse))

def finish (policy : Overloads) (w : Walk) : Walk :=
  w.frames.foldl (fun w f => (w.note (.unclosed f.start)).leave policy none) w

end Walk

-- `limit` bounds how many bodies a type may stand in and still show its members.
structure Rules where
  overloads : Overloads
  limit : Option Nat

def typeStep (rules : Rules) (i : Nat) (w : Walk) : Nat × Walk :=
  match typeHeader? b i with
  | none => (i + 1, w)
  | some header =>
    if rules.limit.any (· ≤ w.frames.length) then
      let w := w.note (.nestedTooDeep i header.name)
      match b.close? header.brace with
      | some close => (close + 1, w.add (.mk .type header.name ⟨i, some close⟩ []))
      | none => (b.lexemes.size, w.add (.mk .type header.name ⟨i, none⟩ []))
    else (header.brace + 1, w.enter ⟨header.name, i, header.brace + 1, []⟩)

def fileStep (rules : Rules) (i : Nat) (l : Lexeme) (w : Walk) : Nat × Walk :=
  if l.isKeyword "package" && w.package.isNone then
    match nameAt? b (i + 1) with
    | some (name, next) => (next, { w with package := some name })
    | none => (i + 1, w)
  else if l.isTypeKeyword then typeStep b rules i w
  else if l.opens .round && 0 < i && b.has Lexeme.isIdentifier (i - 1) then
    (i + 1, w.note (.strayMethod (i - 1)))
  else (i + 1, w)

def memberStep (rules : Rules) (i : Nat) (l : Lexeme) (w : Walk) : Nat × Walk :=
  if l.closes .curly then (i + 1, w.leave rules.overloads (some i))
  else if l.isTypeKeyword then typeStep b rules i w
  else if l.isOperator "=" then (initializerEnd b (i + 1), w)
  else if l.isSeparator "@" then (annotationEnd b i, w)
  else if l.opens .round then
    match methodHeader? b i with
    | some header =>
      (header.last + 1, w.add (.mk .method header.name ⟨i - 1, some header.last⟩ []))
    | none => (i + 1, w)
  else if l.opens .curly then ((b.close? i).getD i + 1, w)
  else (i + 1, w)

def step (rules : Rules) (i : Nat) (l : Lexeme) (w : Walk) : Nat × Walk :=
  if w.frames.isEmpty then fileStep b rules i l w else memberStep b rules i l w

variable {b}

theorem le_nameTail (i : Nat) (name : String) : i ≤ (nameTail b i name).2 := by
  fun_induction nameTail b i name <;> omega

theorem lt_nameAt? {i next : Nat} {name : String}
    (found : nameAt? b i = some (name, next)) : i < next := by
  unfold nameAt? at found
  split at found
  · simp at found
  · rename_i head _
    have := le_nameTail (b := b) (i + 1) head.text
    split at found <;> simp at found
    obtain ⟨_, rfl⟩ := found
    split <;> omega

theorem le_bodyBrace? {i brace : Nat} (found : bodyBrace? b i = some brace) :
    i ≤ brace ∧ brace < b.lexemes.size := by
  fun_induction bodyBrace? b i <;> simp_all <;> omega

theorem lt_typeHeader? {i : Nat} {header : TypeHeader} (found : typeHeader? b i = some header) :
    i < header.brace ∧ header.brace < b.lexemes.size := by
  unfold typeHeader? at found
  split at found
  · simp at found
  · split at found
    · obtain ⟨brace, there, rfl⟩ := Option.map_eq_some_iff.1 found
      have := le_bodyBrace? there
      simp
      omega
    · simp at found

theorem le_methodLast? {bare throws : Bool} {i last : Nat}
    (found : methodLast? b bare throws i = some last) : i ≤ last ∧ last < b.lexemes.size := by
  fun_induction methodLast? b bare throws i with
  | case1 => have := Bracketed.close?_bounds found; omega
  | _ => simp_all <;> omega

theorem lt_methodHeader? {i : Nat} {header : MethodHeader}
    (found : methodHeader? b i = some header) : i < header.last ∧ header.last < b.lexemes.size := by
  unfold methodHeader? at found
  split at found
  · simp at found
  · split at found
    · rename_i close
      have := Bracketed.close?_bounds close
      split at found
      · obtain ⟨last, there, rfl⟩ := Option.map_eq_some_iff.1 found
        have := le_methodLast? there
        simp
        omega
      · simp at found
    · simp at found

theorem le_initializerEnd (i : Nat) : i ≤ initializerEnd b i := by
  fun_induction initializerEnd b i <;> omega

theorem lt_annotationEnd (i : Nat) : i < annotationEnd b i := by
  unfold annotationEnd
  split
  · omega
  · split
    · omega
    · rename_i found
      have := lt_nameAt? found
      split
      · cases close : b.close? _ with
        | none => simp; omega
        | some c => have := Bracketed.close?_bounds close; simp; omega
      · omega

theorem lt_typeStep (rules : Rules) (i : Nat) (w : Walk) (inside : i < b.lexemes.size) :
    i < (typeStep b rules i w).1 := by
  unfold typeStep
  split
  · simp
  · rename_i found
    have := lt_typeHeader? found
    split
    · dsimp only
      split
      · rename_i close
        have := Bracketed.close?_bounds close
        simp
        omega
      · exact inside
    · simp
      omega

theorem lt_fileStep (rules : Rules) (i : Nat) (l : Lexeme) (w : Walk)
    (inside : i < b.lexemes.size) : i < (fileStep b rules i l w).1 := by
  unfold fileStep
  split
  · split
    · rename_i found
      have := lt_nameAt? found
      simp
      omega
    · simp
  · split
    · exact lt_typeStep rules i w inside
    · split <;> simp

theorem lt_memberStep (rules : Rules) (i : Nat) (l : Lexeme) (w : Walk)
    (inside : i < b.lexemes.size) : i < (memberStep b rules i l w).1 := by
  unfold memberStep
  split
  · simp
  split
  · exact lt_typeStep rules i w inside
  split
  · exact le_initializerEnd (i + 1)
  split
  · exact lt_annotationEnd i
  split
  · split
    · rename_i found
      have := lt_methodHeader? found
      simp
      omega
    · simp
  split
  · cases close : b.close? i with
    | none => simp
    | some c => have := Bracketed.close?_bounds close; simp; omega
  · simp

theorem lt_step (rules : Rules) (i : Nat) (l : Lexeme) (w : Walk) (inside : i < b.lexemes.size) :
    i < (step b rules i l w).1 := by
  unfold step
  split
  · exact lt_fileStep rules i l w inside
  · exact lt_memberStep rules i l w inside

variable (b)

def walk (rules : Rules) (i : Nat) (w : Walk) : Walk :=
  if inside : i < b.lexemes.size then
    let next := step b rules i b.lexemes[i] w
    have := lt_step rules i b.lexemes[i] w inside
    walk rules next.1 next.2
  else w.finish rules.overloads
termination_by b.lexemes.size - i

end Sketch

structure SketchedFile where
  package : Option String
  types : List Sketch
  notes : List Sketch.Note

def SketchedFile.ofLexemes (rules : Sketch.Rules) (lexemes : List Lexeme) : SketchedFile :=
  let w := Sketch.walk (.ofLexemes lexemes) rules 0 {}
  ⟨w.package, w.types.reverse, w.notes.reverse⟩

end EditScope

import EditScope.Settings
import Mathlib.Data.List.Infix

set_option autoImplicit false

namespace EditScope.Settings

def slashed (path : String) : List Char := path.toList.map fun c => if c = '\\' then '/' else c

def unitBelow? (relative : List Char) : Option String :=
  match (parts relative).dropLast.filter (!·.isEmpty) with
  | [] => none
  | directories => some (".".intercalate (directories.map String.ofList))

def belowLast? (path root : List Char) : Option (List Char) := afterLast? ('/' :: root) ('/' :: path)

def namingRoot? (s : Settings) (path : String) : Option String :=
  s.sourceRoots.find? fun root => (belowRoot? (slashed path) root.toList).isSome

/-- The root does not both begin the path and come again behind a slash. -/
def Once (s : Settings) (path : String) : Prop :=
  ∀ root ∈ s.namingRoot? path,
    ¬ (root.toList <+: slashed path ∧ '/' :: root.toList <:+: slashed path)

/-- In the directory no source root starts, nor a slash with one behind it. -/
def Clear (s : Settings) (directory path : String) : Prop :=
  directory ≠ "" ∧ ∀ root ∈ s.sourceRoots, ∀ i < directory.length,
    ¬ root.toList <+: (slashed (directory ++ "/" ++ path)).drop i ∧
      ¬ '/' :: root.toList <+: (slashed (directory ++ "/" ++ path)).drop i

instance (s : Settings) (path : String) : Decidable (s.Once path) :=
  inferInstanceAs (Decidable (∀ root ∈ s.namingRoot? path, ¬ (_ ∧ _)))

instance (s : Settings) (directory path : String) : Decidable (s.Clear directory path) :=
  inferInstanceAs (Decidable (_ ∧ ∀ root ∈ s.sourceRoots, ∀ i < directory.length, ¬ _ ∧ ¬ _))

theorem slashed_moved (directory path : String) :
    slashed (directory ++ "/" ++ path) = slashed directory ++ '/' :: slashed path := by
  simp [slashed]

theorem unitNameFor?_eq (s : Settings) (path : String) :
    s.unitNameFor? path =
      (s.sourceRoots.findSome? fun root => belowRoot? (slashed path) root.toList).bind unitBelow? := by
  unfold unitNameFor? slashed
  dsimp only
  cases s.sourceRoots.findSome? _ <;> rfl

section Marks

variable {mark root before text path : List Char}

theorem isSome_afterLast? : (afterLast? mark text).isSome ↔ mark <:+: text := by
  induction text with
  | nil => cases mark <;> simp [afterLast?]
  | cons c text ih =>
    rw [List.infix_cons_iff, ← ih, afterLast?]
    cases afterLast? mark text with
    | some after => simp
    | none => by_cases first : mark <+: c :: text <;> simp [first]

theorem afterLast?_append (clear : ∀ i < before.length, ¬ mark <+: (before ++ text).drop i) :
    afterLast? mark (before ++ text) = afterLast? mark text := by
  induction before with
  | nil => rfl
  | cons c before ih =>
    have first : ¬ mark <+: c :: (before ++ text) := clear 0 (Nat.zero_lt_succ _)
    have later := ih fun i inside => clear (i + 1) (Nat.succ_lt_succ inside)
    rw [List.cons_append, afterLast?, later]
    cases afterLast? mark text <;> simp [first]

theorem belowLast?_eq_or (path root : List Char) :
    belowLast? path root =
      (afterLast? ('/' :: root) path).or
        (if root.isPrefixOf path then some (path.drop root.length) else none) := by
  rw [belowLast?, afterLast?]
  cases afterLast? ('/' :: root) path <;> simp

theorem isSome_belowLast? (path root : List Char) :
    (belowLast? path root).isSome = (belowRoot? path root).isSome := by
  rw [belowLast?_eq_or, belowRoot?]
  by_cases start : root.isPrefixOf path <;> simp [start]

theorem belowLast?_eq (once : ¬ (root <+: path ∧ '/' :: root <:+: path)) :
    belowLast? path root = belowRoot? path root := by
  rw [belowLast?_eq_or, belowRoot?]
  by_cases start : root <+: path
  · have again : afterLast? ('/' :: root) path = none := by
      rw [← Option.not_isSome_iff_eq_none, isSome_afterLast?]
      exact fun behind => once ⟨start, behind⟩
    simp [start, again]
  · simp [start]

theorem belowRoot?_moved (start : ¬ root <+: before ++ '/' :: path)
    (clear : ∀ i < before.length, ¬ '/' :: root <+: (before ++ '/' :: path).drop i) :
    belowRoot? (before ++ '/' :: path) root = belowLast? path root := by
  rw [belowRoot?, if_neg (by simpa using start), afterLast?_append clear, belowLast?]

end Marks

theorem findSome?_eq_of_first {α β : Type} {f g : α → Option β} {items : List α}
    (alike : ∀ x ∈ items, (f x).isSome = (g x).isSome)
    (first : ∀ x ∈ items.find? fun x => (g x).isSome, f x = g x) :
    items.findSome? f = items.findSome? g := by
  induction items with
  | nil => rfl
  | cons x items ih =>
    have here := alike x (List.mem_cons_self ..)
    cases found : g x with
    | some y =>
      have same : f x = g x := first x (by simp [found])
      simp [found, same]
    | none =>
      have none : f x = none := by simpa [found] using here
      simp only [List.findSome?_cons, found, none]
      exact ih (fun y mem => alike y (List.mem_cons_of_mem _ mem)) (by simpa [found] using first)

section Moved

variable {s : Settings} {directory path : String}

theorem Clear.belowRoot?_eq (clear : s.Clear directory path) {root : String}
    (mem : root ∈ s.sourceRoots) :
    belowRoot? (slashed (directory ++ "/" ++ path)) root.toList =
      belowLast? (slashed path) root.toList := by
  obtain ⟨nonempty, apart⟩ := clear
  have length : (slashed directory).length = directory.length := by
    rw [slashed, List.length_map, String.length_toList]
  have inside : 0 < directory.length :=
    Nat.pos_of_ne_zero fun empty => nonempty (String.length_eq_zero_iff.1 empty)
  rw [slashed_moved] at apart ⊢
  exact belowRoot?_moved (apart root mem 0 inside).1
    fun i inside => (apart root mem i (length ▸ inside)).2

theorem Clear.unitNameFor?_eq (clear : s.Clear directory path) :
    s.unitNameFor? (directory ++ "/" ++ path) =
      (s.sourceRoots.findSome? fun root => belowLast? (slashed path) root.toList).bind unitBelow? := by
  rw [Settings.unitNameFor?_eq]
  congr 1
  exact findSome?_eq_of_first (fun root mem => congrArg Option.isSome (clear.belowRoot?_eq mem))
    fun root first => clear.belowRoot?_eq (List.mem_of_find?_eq_some first)

theorem unitNameFor?_moved (clear : s.Clear directory path) :
    (∀ directory', s.Clear directory' path →
      s.unitNameFor? (directory' ++ "/" ++ path) = s.unitNameFor? (directory ++ "/" ++ path)) ∧
    (s.Once path → s.unitNameFor? (directory ++ "/" ++ path) = s.unitNameFor? path) := by
  rw [clear.unitNameFor?_eq]
  refine ⟨fun directory' clear' => clear'.unitNameFor?_eq, fun once => ?_⟩
  rw [unitNameFor?_eq]
  congr 1
  refine findSome?_eq_of_first (fun root _ => isSome_belowLast? _ _) fun root naming => ?_
  exact belowLast?_eq (once root naming)

theorem unitNameFor?_moved_package :
    let s : Settings := {}
    let path := "src/main/java/com/src/A.java"
    s.validate = .ok () ∧ s.Clear "core" path ∧ s.Clear "lib/base" path ∧ s.Once path ∧
      s.unitNameFor? path = some "com.src" ∧ s.unitNameFor? ("core" ++ "/" ++ path) = some "com.src" ∧
      s.unitNameFor? ("lib/base" ++ "/" ++ path) = some "com.src" := by
  intro s path
  have clear : s.Clear "core" path := by decide +kernel
  have clear' : s.Clear "lib/base" path := by decide +kernel
  have once : s.Once path := by decide +kernel
  have named : s.unitNameFor? path = some "com.src" := by decide +kernel
  obtain ⟨deeper, kept⟩ := unitNameFor?_moved clear
  exact ⟨by decide +kernel, clear, clear', once, named, (kept once).trans named,
    (deeper _ clear').trans ((kept once).trans named)⟩

theorem unitNameFor?_root_again :
    let s : Settings := {}
    s.validate = .ok () ∧ s.unitNameFor? "src/a/src/b/A.java" = some "a.src.b" ∧
      s.Clear "core" "src/a/src/b/A.java" ∧ '\\' ∉ "core".toList ∧
      s.unitNameFor? ("core" ++ "/" ++ "src/a/src/b/A.java") = some "b" := by
  decide +kernel

end Moved

end EditScope.Settings

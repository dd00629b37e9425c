import EditScope.Lexeme.Basic

set_option autoImplicit false

namespace EditScope

inductive Bracket where
  | round
  | square
  | curly
  deriving DecidableEq, Repr

namespace Bracket

def openText : Bracket → String
  | .round => "("
  | .square => "["
  | .curly => "\x7b"

def closeText : Bracket → String
  | .round => ")"
  | .square => "]"
  | .curly => "\x7d"

def all : List Bracket := [.round, .square, .curly]

end Bracket

namespace Lexeme

def opens (l : Lexeme) (b : Bracket) : Bool := l.isSeparator b.openText

def closes (l : Lexeme) (b : Bracket) : Bool := l.isSeparator b.closeText

def opened? (l : Lexeme) : Option Bracket := Bracket.all.find? l.opens

def closed? (l : Lexeme) : Option Bracket := Bracket.all.find? l.closes

end Lexeme

namespace Bracket

/-- The closing brackets right of a place that no bracket right of it opens, nearest first. -/
structure Waiting where
  round : List Nat := []
  square : List Nat := []
  curly : List Nat := []

namespace Waiting

def get (w : Waiting) : Bracket → List Nat
  | .round => w.round
  | .square => w.square
  | .curly => w.curly

def set (w : Waiting) (indices : List Nat) : Bracket → Waiting
  | .round => { w with round := indices }
  | .square => { w with square := indices }
  | .curly => { w with curly := indices }

def close? (w : Waiting) (b : Bracket) : Option Nat :=
  match (w.get b).head?, w.curly.head? with
  | none, _ => none
  | some close, none => some close
  | some close, some brace => if brace < close then none else some close

end Waiting

structure Pass where
  waiting : Waiting := {}
  found : List (Option Nat) := []

def Pass.lexeme (l : Lexeme) (i : Nat) (pass : Pass) : Pass :=
  let w := pass.waiting
  match l.opened?, l.closed? with
  | some b, _ => ⟨w.set (w.get b).tail b, w.close? b :: pass.found⟩
  | none, some b => ⟨w.set (i :: w.get b) b, none :: pass.found⟩
  | none, none => ⟨w, none :: pass.found⟩

def passFrom (first : Nat) (lexemes : List Lexeme) : Pass :=
  (lexemes.zipIdx first).foldr (fun (l, i) pass => pass.lexeme l i) {}

def closes (lexemes : List Lexeme) : List (Option Nat) := (passFrom 0 lexemes).found

def Waiting.Within (w : Waiting) (low high : Nat) : Prop :=
  ∀ b, ∀ i ∈ w.get b, low ≤ i ∧ i < high

theorem Waiting.get_set (w : Waiting) (indices : List Nat) (b c : Bracket) :
    (w.set indices b).get c = if c = b then indices else w.get c := by
  cases b <;> cases c <;> rfl

theorem Waiting.close?_mem {w : Waiting} {b : Bracket} {close : Nat}
    (found : w.close? b = some close) : close ∈ w.get b := by
  unfold Waiting.close? at found
  split at found
  · simp at found
  · rename_i first _
    simp at found
    exact found ▸ List.mem_of_head? first
  · rename_i first _
    split at found <;> simp at found
    exact found ▸ List.mem_of_head? first

theorem passFrom_cons (first : Nat) (l : Lexeme) (lexemes : List Lexeme) :
    passFrom first (l :: lexemes) = (passFrom (first + 1) lexemes).lexeme l first := by
  simp [passFrom, List.zipIdx_cons]

theorem Pass.lexeme_within (l : Lexeme) (i high : Nat) (pass : Pass) (inside : i < high)
    (within : pass.waiting.Within (i + 1) high) : (pass.lexeme l i).waiting.Within i high := by
  intro b j mem
  unfold Pass.lexeme at mem
  split at mem
  · simp only [Waiting.get_set] at mem
    split at mem
    · have := within _ j (List.mem_of_mem_tail mem)
      omega
    · have := within b j mem
      omega
  · simp only [Waiting.get_set] at mem
    split at mem
    · rcases List.mem_cons.1 mem with same | mem
      · omega
      · have := within _ j mem
        omega
    · have := within b j mem
      omega
  · have := within b j mem
    omega

theorem passFrom_within (first : Nat) (lexemes : List Lexeme) :
    (passFrom first lexemes).waiting.Within first (first + lexemes.length) := by
  induction lexemes generalizing first with
  | nil => intro b i mem; cases b <;> simp [passFrom, Waiting.get] at mem
  | cons l lexemes ih =>
    rw [passFrom_cons]
    apply Pass.lexeme_within
    · simp
    · have := ih (first + 1)
      simpa [Nat.add_assoc, Nat.add_comm 1] using this

theorem passFrom_length (first : Nat) (lexemes : List Lexeme) :
    (passFrom first lexemes).found.length = lexemes.length := by
  induction lexemes generalizing first with
  | nil => simp [passFrom]
  | cons l lexemes ih =>
    rw [passFrom_cons]
    unfold Pass.lexeme
    split <;> simp [ih]

theorem passFrom_bounds (first : Nat) (lexemes : List Lexeme) (i close : Nat)
    (found : (passFrom first lexemes).found[i]? = some (some close)) :
    first + i < close ∧ close < first + lexemes.length := by
  induction lexemes generalizing first i with
  | nil => simp [passFrom] at found
  | cons l lexemes ih =>
    rw [passFrom_cons] at found
    have within := passFrom_within (first + 1) lexemes
    cases i with
    | zero =>
      unfold Pass.lexeme at found
      split at found <;> simp at found
      have := within _ close (Waiting.close?_mem found)
      simp at this ⊢
      omega
    | succ i =>
      have tail : (passFrom (first + 1) lexemes).found[i]? = some (some close) := by
        unfold Pass.lexeme at found
        split at found <;> simpa using found
      have := ih (first + 1) i tail
      simp
      omega

end Bracket

structure Bracketed where
  lexemes : Array Lexeme
  closes : Array (Option Nat)
  closes_bounds : ∀ i close, closes[i]? = some (some close) → i < close ∧ close < lexemes.size

namespace Bracketed

def ofLexemes (lexemes : List Lexeme) : Bracketed where
  lexemes := lexemes.toArray
  closes := (Bracket.closes lexemes).toArray
  closes_bounds := by
    intro i close found
    simpa using Bracket.passFrom_bounds 0 lexemes i close (by simpa [Bracket.closes] using found)

def close? (b : Bracketed) (i : Nat) : Option Nat := (b.closes[i]?).join

theorem close?_bounds {b : Bracketed} {i close : Nat} (found : b.close? i = some close) :
    i < close ∧ close < b.lexemes.size :=
  b.closes_bounds i close (by simpa [close?, Option.join_eq_some_iff] using found)

def has (b : Bracketed) (p : Lexeme → Bool) (i : Nat) : Bool := b.lexemes[i]?.any p

end Bracketed

end EditScope

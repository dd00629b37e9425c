set_option autoImplicit false

namespace EditScope

inductive Declaration.Kind where
  | unit
  | type
  | method
  deriving DecidableEq, Repr, Ord

structure Span where
  start : Nat
  stop : Nat
  deriving DecidableEq, Repr

def Span.contains (s : Span) (pos : Nat) : Bool := s.start ≤ pos && pos < s.stop

inductive Declaration (σ : Type) where
  | mk (kind : Declaration.Kind) (name : String) (place : σ) (members : List (Declaration σ))

namespace Declaration

def Kind.name : Kind → String
  | .unit => "unit"
  | .type => "type"
  | .method => "method"

def Kind.isMoreGeneralThan (a b : Kind) : Bool := compare a b == .lt

variable {σ τ : Type}

def kind : Declaration σ → Kind
  | mk kind _ _ _ => kind

def name : Declaration σ → String
  | mk _ name _ _ => name

def place : Declaration σ → σ
  | mk _ _ place _ => place

def members : Declaration σ → List (Declaration σ)
  | mk _ _ _ members => members

def rename (d : Declaration σ) (name : String) : Declaration σ :=
  mk d.kind name d.place d.members

mutual

def size : Declaration σ → Nat
  | mk _ _ _ members => sizes members + 1

def sizes : List (Declaration σ) → Nat
  | [] => 0
  | d :: ds => d.size + sizes ds

end

mutual

def mapPlace (f : σ → τ) : Declaration σ → Declaration τ
  | mk kind name place members => mk kind name (f place) (mapPlaces f members)

def mapPlaces (f : σ → τ) : List (Declaration σ) → List (Declaration τ)
  | [] => []
  | d :: ds => d.mapPlace f :: mapPlaces f ds

end

end Declaration

inductive Overloads where
  | merge
  | ordinal
  deriving DecidableEq, Repr

namespace Overloads

variable {σ : Type}

def ordinalName (name : String) (count : Nat) : String :=
  if count ≤ 1 then name else name ++ "#" ++ toString count

def number (seen : List String) : List (Declaration σ) → List (Declaration σ)
  | [] => []
  | d :: ds =>
    if d.kind = .method then
      d.rename (ordinalName d.name (seen.count d.name + 1)) :: number (d.name :: seen) ds
    else d :: number seen ds

def apply (policy : Overloads) (members : List (Declaration σ)) : List (Declaration σ) :=
  match policy with
  | .merge => members
  | .ordinal => number [] members

end Overloads

end EditScope

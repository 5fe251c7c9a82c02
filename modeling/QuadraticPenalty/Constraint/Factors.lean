import QuadraticPenalty.Constraint.Algebra

/-!
A constraint splits when its allowed tuples are all the combinations of an allowed part on some
variables with an allowed part on the others. The factors of a constraint are the groups of
variables that remain when nothing splits any more.
-/

namespace QuadraticPenalty

namespace Constraint

def choose {α : Type} : List α → Nat → List (List α)
  | _, 0 => [[]]
  | [], _ + 1 => []
  | a :: as, k + 1 => (choose as k).map (a :: ·) ++ choose as (k + 1)

def combinations (n k : Nat) : List (List Nat) := choose (List.range n) k

def others (n : Nat) (part : List Nat) : List Nat :=
  (List.range n).filter fun i => decide (i ∉ part)

/-- A product has as many members as its factors have combinations, and only then is it all. -/
def splitsAt (n : Nat) (allowed : SortedSet (List Int)) (part : List Nat) : Bool :=
  allowed.size == (allowed.map (pick part)).size * (allowed.map (pick (others n part))).size

def splitOf (n : Nat) (allowed : SortedSet (List Int)) : Option (List Nat) :=
  (List.range' 1 (n / 2)).findSome? fun k => (combinations n k).find? (splitsAt n allowed)

def factorsWithin : Nat → SortedSet (List Int) → List String → List (List String)
  | 0, _, scope => [scope]
  | depth + 1, allowed, scope =>
    match splitOf scope.length allowed with
    | none => [scope]
    | some part =>
      let rest := others scope.length part
      let labels (positions : List Nat) := positions.map fun p => scope.getD p ""
      factorsWithin depth (allowed.map (pick part)) (labels part) ++
        factorsWithin depth (allowed.map (pick rest)) (labels rest)

/-- A split shortens both parts, so no constraint splits more often than it has variables. -/
def factors (c : Constraint) : List (List String) :=
  factorsWithin c.arity c.configurations c.scope

end Constraint

end QuadraticPenalty

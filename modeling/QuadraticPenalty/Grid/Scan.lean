import QuadraticPenalty.Grid.Landscape
import QuadraticPenalty.Order.Basic

/-!
The search of every point of a grid. The points with one first digit form a slice; a slice is
walked by an odometer over the other digits, and the best points of the slices are then compared.
-/

namespace QuadraticPenalty

open Scalar

def Grid.advance : List Nat → List Nat → Option (List Nat)
  | d :: ds, n :: ns =>
    match advance ds ns with
    | some ds => some (d :: ds)
    | none => if d + 1 < n then some ((d + 1) :: ds.map fun _ => 0) else none
  | _, _ => none

structure Candidate (α : Type) where
  digits : List Nat
  gap : α

def Candidate.better {α : Type} [Scalar α] (a b : Candidate α) : Candidate α :=
  if lt b.gap a.gap ||
      (le a.gap b.gap && le b.gap a.gap && !Ordered.before b.digits a.digits) then a
  else b

namespace Landscape

variable {α : Type} [ExtendedScalar α]

def keepBest (l : Landscape α) (best : Option (Candidate α)) (digits : List Nat) :
    Option (Candidate α) :=
  let e := l.qualityAt digits
  if e.isValid && best.all (fun b => lt b.gap e.gap) then some ⟨digits, e.gap⟩ else best

def walkSlice (l : Landscape α) (first : Nat) :
    Nat → List Nat → Option (Candidate α) → Option (Candidate α)
  | 0, _, best => best
  | left + 1, rest, best =>
    let best := l.keepBest best (first :: rest)
    match Grid.advance rest l.levels.tail with
    | some rest => l.walkSlice first left rest best
    | none => best

/-- A slice has as many points as its digits have combinations, and the first one is looked at before
the digits are compared with their levels. -/
def scanSlice (l : Landscape α) (first : Nat) : Option (Candidate α) :=
  l.walkSlice first (l.levels.tail.foldl (fun n k => n * max k 1) 1) (l.levels.tail.map fun _ => 0) none

def bestOf : List (Candidate α) → Option (Candidate α)
  | [] => none
  | c :: cs => some (cs.foldl Candidate.better c)

def scan (l : Landscape α) : Option (List Nat) :=
  match l.levels with
  | [] => if (l.qualityAt []).isValid then some [] else none
  | n :: _ => (bestOf ((List.range n).filterMap l.scanSlice)).map (·.digits)

end Landscape

end QuadraticPenalty

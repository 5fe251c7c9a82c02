import QuadraticPenalty.Constraint.Factors
import QuadraticPenalty.Model.Basic

/-!
Penalty models of constraints on one or two variables. Each tuple that is not allowed adds twice
its indicator, the product over its values of a polynomial that is one there and zero at the other
value of the domain.
-/

namespace QuadraticPenalty

open Scalar

namespace Constraint

variable {α : Type} [Scalar α]

def indicator (t : Vartype) (x : Int) : α × α :=
  match t with
  | .spin => (half, half * ofInt x)
  | .binary => if x = 1 then (zero, one) else (one, ofInt (-1))

def addIndicator (t : Vartype) (scope : List String) (m : QuadraticModel α)
    (tuple : List Int) : QuadraticModel α :=
  match scope, tuple with
  | [v], [x] =>
    let (a, b) := indicator t x
    (m.addOffset (two * a)).addBias v (two * b)
  | [u, v], [x, y] =>
    let (a, b) := indicator t x
    let (c, d) := indicator t y
    (((m.addOffset (two * a * c)).addBias u (two * b * c)).addBias v (two * a * d)).addCoupling
      u v (two * b * d)
  | _, _ => m

def blankModel (c : Constraint) : QuadraticModel α :=
  c.scope.foldl (fun m v => m.addBias v zero) (.empty c.vartype)

def forbidden (c : Constraint) : List (List Int) :=
  (c.vartype.tuples c.arity).filter fun x => !c.accepts x

def exclusionModel (c : Constraint) : QuadraticModel α :=
  c.forbidden.foldl (addIndicator c.vartype c.scope) c.blankModel

def addFactor (c : Constraint) (m : QuadraticModel α) (group : List String) :
    Except Fault (QuadraticModel α) := do
  m.merge (← c.project group).exclusionModel

def pairModel (c : Constraint) : Except Fault (QuadraticModel α) :=
  if c.isFull then .ok c.blankModel
  else
    match c.factors with
    | [_] => .ok c.exclusionModel
    | groups => groups.foldlM c.addFactor (.empty c.vartype)

def closedForm? (c : Constraint) : Option (Except Fault (QuadraticModel α)) :=
  match c.arity with
  | 1 => some (.ok c.exclusionModel)
  | 2 => some c.pairModel
  | _ => none

end Constraint

end QuadraticPenalty

import QuadraticPenalty.Constraint.Basic

/-!
Logic gates as constraints, inputs first and outputs last. The high value of a domain is true.
-/

namespace QuadraticPenalty

inductive Gate where
  | and
  | or
  | xor
  | halfAdder
  | fullAdder
deriving DecidableEq

namespace Gate

def label : Gate → String
  | and => "AND"
  | or => "OR"
  | xor => "XOR"
  | halfAdder => "HALF_ADDER"
  | fullAdder => "FULL_ADDER"

def sumAndCarry (inputs : List Bool) (sum carry : Bool) : Bool :=
  let total := inputs.count true
  sum == (total % 2 == 1) && carry == decide (2 ≤ total)

def admits : Gate → List Bool → Bool
  | and, [a, b, z] => (a && b) == z
  | or, [a, b, z] => (a || b) == z
  | xor, [a, b, z] => (a != b) == z
  | halfAdder, [a, b, s, c] => sumAndCarry [a, b] s c
  | fullAdder, [a, b, d, s, c] => sumAndCarry [a, b, d] s c
  | _, _ => false

def constraint (g : Gate) (scope : List String) (vartype : Vartype) :
    Except Fault Constraint := do
  let c ← Constraint.ofPredicate (fun x => g.admits (x.map (· == vartype.high))) scope vartype
  return c.rename g.label

end Gate

end QuadraticPenalty

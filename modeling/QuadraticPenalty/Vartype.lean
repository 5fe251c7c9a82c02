import QuadraticPenalty.Order.Basic

/-!
The two domains of a variable, and the tuples over a domain in lexicographic order.
-/

namespace QuadraticPenalty

inductive Vartype where
  | spin
  | binary
deriving DecidableEq, Repr

namespace Vartype

def label : Vartype → String
  | spin => "SPIN"
  | binary => "BINARY"

def low : Vartype → Int
  | spin => -1
  | binary => 0

def high : Vartype → Int
  | _ => 1

def values (t : Vartype) : List Int := [t.low, t.high]

def contains (t : Vartype) (x : Int) : Bool := x == t.low || x == t.high

def flip : Vartype → Int → Int
  | spin, x => -x
  | binary, x => 1 - x

def toSpin (t : Vartype) (x : Int) : Int := if x = t.high then 1 else -1

def ofSpin (t : Vartype) (s : Int) : Int := if 0 < s then t.high else t.low

def tupleAt (t : Vartype) (n i : Nat) : List Int :=
  (List.range n).map fun k => if i.testBit (n - 1 - k) then t.high else t.low

def tupleCount (n : Nat) : Nat := Nat.pow 2 n

def firstTuples (t : Vartype) (n k : Nat) : List (List Int) :=
  (List.range (min k (tupleCount n))).map (t.tupleAt n)

def tuples (t : Vartype) (n : Nat) : List (List Int) := t.firstTuples n (tupleCount n)

end Vartype

end QuadraticPenalty

/-!
The arithmetic of biases and energies. Models and searches are written once over it: binary
floating point runs them, and exact numbers carry the statements about them.
-/

namespace QuadraticPenalty

class Scalar (α : Type) extends Add α, Sub α, Mul α, Div α, Neg α where
  ofInt : Int → α
  isFinite : α → Bool
  lt : α → α → Bool
  le : α → α → Bool

class ExtendedScalar (α : Type) extends Scalar α where
  infinity : α
  floor : α → Nat

namespace Scalar

variable {α : Type} [Scalar α]

def zero : α := ofInt 0

def one : α := ofInt 1

def two : α := ofInt 2

def four : α := ofInt 4

def half : α := ofInt 1 / ofInt 2

def quarter : α := ofInt 1 / ofInt 4

/-- Energies that differ by at most this much count as equal. -/
def tolerance : α := ofInt 1 / ofInt 1000000000

def isZero (a : α) : Bool := le a zero && le zero a

/-- Of two equal numbers the first, and of a number and an undefined value the number. -/
def least (a b : α) : α := if le a a then if lt b a then b else a else b

def greatest (a b : α) : α := if le a a then if lt a b then b else a else b

end Scalar

end QuadraticPenalty

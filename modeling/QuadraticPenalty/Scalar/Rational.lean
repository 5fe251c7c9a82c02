import QuadraticPenalty.Scalar.Basic

namespace QuadraticPenalty

instance : Scalar Rat where
  add := Rat.add
  sub := Rat.sub
  mul := Rat.mul
  div := Rat.div
  neg := Rat.neg
  lt a b := decide (a < b)
  le a b := decide (a ≤ b)
  ofInt := Rat.ofInt
  isFinite _ := true

end QuadraticPenalty

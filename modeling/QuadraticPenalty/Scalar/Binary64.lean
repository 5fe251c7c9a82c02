import QuadraticPenalty.Scalar.Basic

namespace QuadraticPenalty

namespace Binary64

def ofInt (n : Int) : Float :=
  if n.natAbs < 1000000 then n.toInt64.toFloat else Float.ofInt n

end Binary64

instance : Scalar Float where
  add := Float.add
  sub := Float.sub
  mul := Float.mul
  div := Float.div
  neg := Float.neg
  lt a b := decide (a < b)
  le a b := decide (a ≤ b)
  ofInt := Binary64.ofInt
  isFinite := Float.isFinite

instance : ExtendedScalar Float where
  infinity := Float.ofBits 0x7ff0000000000000
  floor a := a.floor.toUInt64.toNat

end QuadraticPenalty

import QuadraticPenalty.Scalar.Basic

/-!
The rational numbers with two infinities and an undefined value. Arithmetic is exact on the
rationals; an operation without a value, such as a difference of equal infinities, is undefined,
and no comparison with the undefined value holds.
-/

namespace QuadraticPenalty

inductive Extended where
  | finite (value : Rat)
  | infinity
  | negInfinity
  | undefined
deriving DecidableEq

namespace Extended

def neg : Extended → Extended
  | finite a => finite (-a)
  | infinity => negInfinity
  | negInfinity => infinity
  | undefined => undefined

def add : Extended → Extended → Extended
  | finite a, finite b => finite (a + b)
  | undefined, _ => undefined
  | _, undefined => undefined
  | infinity, negInfinity => undefined
  | negInfinity, infinity => undefined
  | infinity, _ => infinity
  | _, infinity => infinity
  | negInfinity, _ => negInfinity
  | _, negInfinity => negInfinity

def sub (a b : Extended) : Extended := add a (neg b)

def unbounded (a : Rat) : Extended :=
  if a = 0 then undefined else if 0 < a then infinity else negInfinity

def mul : Extended → Extended → Extended
  | finite a, finite b => finite (a * b)
  | undefined, _ => undefined
  | _, undefined => undefined
  | infinity, finite b => unbounded b
  | negInfinity, finite b => unbounded (-b)
  | finite a, infinity => unbounded a
  | finite a, negInfinity => unbounded (-a)
  | infinity, infinity => infinity
  | negInfinity, negInfinity => infinity
  | infinity, negInfinity => negInfinity
  | negInfinity, infinity => negInfinity

def div : Extended → Extended → Extended
  | finite a, finite b => if b = 0 then unbounded a else finite (a / b)
  | undefined, _ => undefined
  | _, undefined => undefined
  | finite _, _ => finite 0
  | infinity, finite b => if 0 ≤ b then infinity else negInfinity
  | negInfinity, finite b => if 0 ≤ b then negInfinity else infinity
  | _, _ => undefined

def lt : Extended → Extended → Bool
  | finite a, finite b => decide (a < b)
  | finite _, infinity => true
  | negInfinity, finite _ => true
  | negInfinity, infinity => true
  | _, _ => false

def le : Extended → Extended → Bool
  | undefined, _ => false
  | _, undefined => false
  | finite a, finite b => decide (a ≤ b)
  | negInfinity, _ => true
  | _, infinity => true
  | _, _ => false

instance : Scalar Extended where
  add := add
  sub := sub
  mul := mul
  div := div
  neg := neg
  lt := lt
  le := le
  ofInt n := finite n
  isFinite
    | finite _ => true
    | _ => false

instance : ExtendedScalar Extended where
  infinity := infinity
  floor
    | finite a => a.floor.toNat
    | infinity => Nat.pow 2 64 - 1
    | _ => 0

end Extended

end QuadraticPenalty

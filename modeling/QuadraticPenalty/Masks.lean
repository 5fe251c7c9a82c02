import QuadraticPenalty.Vartype

/-!
Tuples in machine words. A tuple is written as a mask of 64 bits, which tells where it is high, and
the number of tuples as a word of 128 bits, where it has so few.
-/

namespace QuadraticPenalty

namespace Vartype

/-- Of the `n` lowest bits of the mask, the highest is for the first value. -/
def ofMask (t : Vartype) (n : Nat) (mask : UInt64) : List Int :=
  (List.range n).map fun i => if mask >>> UInt64.ofNat (n - 1 - i) &&& 1 = 1 then t.high else t.low

/-- The masks are counted from zero, up to the word in which only bit `n` is set. -/
def maskedTuples (t : Vartype) (n : Nat) : List (List Int) :=
  (List.range ((1 : UInt64) <<< UInt64.ofNat n).toNat).map fun i => t.ofMask n (UInt64.ofNat i)

def tupleCount? (n : Nat) : Option (BitVec 128) := if n < 128 then some (1#128 <<< n) else none

end Vartype

end QuadraticPenalty

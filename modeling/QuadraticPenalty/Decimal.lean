/-!
The decimal text of a 64-bit binary number: the fewest digits that read back as the number, and of
those the nearest, written without an exponent.
-/

namespace QuadraticPenalty

namespace Decimal

/-- The positive number `mantissa * 2 ^ exponent`. It is `narrow` if the next number below lies
only half as far away as the next one above. -/
structure Binary where
  mantissa : Nat
  exponent : Int
  narrow : Bool

def Binary.ofBits (bits : UInt64) : Binary :=
  let e := ((bits >>> 52) &&& 0x7ff).toNat
  let f := (bits &&& 0xfffffffffffff).toNat
  if e = 0 then ⟨f, -1074, false⟩
  else ⟨f + Nat.pow 2 52, (e : Int) - 1075, f == 0 && decide (1 < e)⟩

def readsBack (b : Binary) (unit power d : Nat) : Bool :=
  let low := (4 * b.mantissa - (if b.narrow then 1 else 2)) * unit
  let high := (4 * b.mantissa + 2) * unit
  if b.mantissa % 2 = 0 then decide (low ≤ d * power ∧ d * power ≤ high)
  else decide (low < d * power ∧ d * power < high)

/-- Of the multiples of `10 ^ k` only the two about the number can be the nearest; halfway between
them the greater one is. -/
def onGrid (b : Binary) (k : Int) : Option Nat :=
  let q := b.exponent - 2
  let unit := Nat.pow 2 q.toNat * Nat.pow 10 (-k).toNat
  let power := Nat.pow 10 k.toNat * Nat.pow 2 (-q).toNat
  let value := 4 * b.mantissa * unit
  let d := value / power
  match readsBack b unit power d, readsBack b unit power (d + 1) with
  | true, true => some (if power ≤ 2 * (value - d * power) then d + 1 else d)
  | true, false => some d
  | false, true => some (d + 1)
  | false, false => none

def coarsest : Nat := 309

def shortest (b : Binary) : Nat × Int :=
  ((List.range 1400).findSome? fun (i : Nat) =>
    let k : Int := (coarsest : Int) - (i : Int)
    (onGrid b k).map fun d => (d, k)).getD (0, 0)

def zeros (n : Nat) : String := String.ofList (List.replicate n '0')

def positional (d : Nat) (k : Int) : String :=
  let digits := toString d
  if 0 ≤ k then digits ++ zeros k.toNat
  else
    let places := (-k).toNat
    if places < digits.length then
      let cs := digits.toList
      String.ofList (cs.take (cs.length - places)) ++ "." ++
        String.ofList (cs.drop (cs.length - places))
    else "0." ++ zeros (places - digits.length) ++ digits

def magnitudeText (bits : UInt64) : String :=
  if bits = 0 then "0"
  else if bits = 0x7ff0000000000000 then "inf"
  else
    let (d, k) := shortest (.ofBits bits)
    positional d k

def text (a : Float) : String :=
  let bits := a.toBits
  let magnitude := bits &&& 0x7fffffffffffffff
  if 0x7ff0000000000000 < magnitude then "NaN"
  else (if bits = magnitude then "" else "-") ++ magnitudeText magnitude

end Decimal

end QuadraticPenalty

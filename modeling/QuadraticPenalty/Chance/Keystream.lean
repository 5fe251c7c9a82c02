import QuadraticPenalty.Chance.Words

/-!
The words of the ChaCha stream cipher with twelve rounds, under a key that is spread from a seed.
-/

namespace QuadraticPenalty

structure Keystream where
  key : List UInt32
  block : UInt64
  buffered : List UInt32

namespace Keystream

def rotate (w k : UInt32) : UInt32 := w <<< k ||| w >>> (32 - k)

def rotateRight (w k : UInt32) : UInt32 := w >>> (k % 32) ||| w <<< ((32 - k) % 32)

def quarterRound (x : Array UInt32) (i j k l : Nat) : Array UInt32 :=
  let a := x.getD i 0
  let b := x.getD j 0
  let c := x.getD k 0
  let d := x.getD l 0
  let a := a + b
  let d := rotate (d ^^^ a) 16
  let c := c + d
  let b := rotate (b ^^^ c) 12
  let a := a + b
  let d := rotate (d ^^^ a) 8
  let c := c + d
  let b := rotate (b ^^^ c) 7
  (((x.setIfInBounds i a).setIfInBounds j b).setIfInBounds k c).setIfInBounds l d

def doubleRound (x : Array UInt32) : Array UInt32 :=
  let x := quarterRound x 0 4 8 12
  let x := quarterRound x 1 5 9 13
  let x := quarterRound x 2 6 10 14
  let x := quarterRound x 3 7 11 15
  let x := quarterRound x 0 5 10 15
  let x := quarterRound x 1 6 11 12
  let x := quarterRound x 2 7 8 13
  quarterRound x 3 4 9 14

def constants : List UInt32 := [0x61707865, 0x3320646e, 0x79622d32, 0x6b206574]

def input (key : List UInt32) (block : UInt64) : Array UInt32 :=
  (constants ++ key ++ [block.toUInt32, (block >>> 32).toUInt32, 0, 0]).toArray

def output (key : List UInt32) (block : UInt64) : List UInt32 :=
  let x := input key block
  let y := Nat.repeat doubleRound 6 x
  (x.zipWith (· + ·) y).toList

def next (s : Keystream) : UInt32 × Keystream :=
  match s.buffered with
  | w :: ws => (w, { s with buffered := ws })
  | [] =>
    let ws := output s.key s.block
    (ws.headD 0, { s with block := s.block + 1, buffered := ws.drop 1 })

def advance (s : UInt64) : UInt64 := s * 6364136223846793005 + 11634580027462260723

def seedWord (s : UInt64) : UInt32 :=
  rotateRight (((s >>> 18) ^^^ s) >>> 27).toUInt32 (s >>> 59).toUInt32

def seedWords : Nat → UInt64 → List UInt32
  | 0, _ => []
  | n + 1, s => seedWord (advance s) :: seedWords n (advance s)

def ofSeed (seed : UInt64) : Keystream := ⟨seedWords 8 seed, 0, []⟩

def dice : Dice Keystream := Words.dice next

def chance (seed : UInt64) : Chance Float Keystream where
  toDice := dice
  start restart := ofSeed (seed + UInt64.ofNat restart)
  climbs := Words.climbs next

end Keystream

end QuadraticPenalty

import QuadraticPenalty.Chance.Dice

/-!
Draws from a stream of 32-bit words.
-/

namespace QuadraticPenalty

namespace Words

variable {σ : Type}

abbrev Source (σ : Type) := σ → UInt32 × σ

def long (next : Source σ) (s : σ) : UInt64 × σ :=
  let (low, s) := next s
  let (high, s) := next s
  (high.toUInt64 <<< 32 ||| low.toUInt64, s)

/-- A draw below `scale` is scaled to the range. Where the fraction that is cut off leaves a doubt,
the next draw settles whether it carries. -/
def scaled (scale : Nat) (draw : σ → Nat × σ) (top : Nat) (s : σ) : Fin (top + 1) × σ :=
  let (w, s) := draw s
  let product := w * (top + 1)
  let high := product / scale
  let low := product % scale
  let (high, s) :=
    if scale - (top + 1) < low then
      let (w, s) := draw s
      (if scale ≤ low + w * (top + 1) / scale then high + 1 else high, s)
    else (high, s)
  (⟨min high top, by omega⟩, s)

def short (next : Source σ) (s : σ) : Nat × σ :=
  let (w, s) := next s
  (w.toNat, s)

def wide (next : Source σ) (s : σ) : Nat × σ :=
  let (w, s) := long next s
  (w.toNat, s)

def shortScale : Nat := Nat.pow 2 32

def wideScale : Nat := Nat.pow 2 64

/-- A range that one word cannot number with a value to spare takes two words. -/
def upTo (next : Source σ) (top : Nat) (s : σ) : Fin (top + 1) × σ :=
  if top + 1 < shortScale then scaled shortScale (short next) top s
  else scaled wideScale (wide next) top s

def coin (next : Source σ) (s : σ) : Bool × σ :=
  let (w, s) := long next s
  (decide (w < 0x8000000000000000), s)

def sampleStep (draw : (top : Nat) → σ → Fin (top + 1) × σ) (drawn : List Nat × σ) (j : Nat) :
    List Nat × σ :=
  let (t, s) := draw j drawn.2
  (drawn.1.map (fun i => if i = t.val then j else i) ++ [t.val], s)

/-- A number that is drawn again stands for the draw's own bound in its first place. -/
def sample (draw : (top : Nat) → σ → Fin (top + 1) × σ) (n k : Nat) (s : σ) : List Nat × σ :=
  (List.range' (n - k) k).foldl (sampleStep draw) ([], s)

def dice (next : Source σ) : Dice σ := ⟨upTo next, coin next, sample (upTo next)⟩

def climbs (next : Source σ) (rise temperature : Float) (s : σ) : Bool × σ :=
  let (w, s) := long next s
  let fraction := (w >>> 12).toFloat / 4503599627370496.0
  (decide (fraction < Float.exp (-rise / temperature)), s)

end Words

end QuadraticPenalty

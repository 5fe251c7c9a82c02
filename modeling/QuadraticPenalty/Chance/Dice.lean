/-!
Random draws. The state of the source is passed along, so equal states give equal draws.
-/

namespace QuadraticPenalty

structure Dice (σ : Type) where
  upTo (top : Nat) : σ → Fin (top + 1) × σ
  coin : σ → Bool × σ
  sample (n k : Nat) : σ → List Nat × σ

structure Chance (α σ : Type) extends Dice σ where
  start (restart : Nat) : σ
  climbs (rise temperature : α) : σ → Bool × σ

namespace Dice

variable {σ : Type}

def coinStep (d : Dice σ) (drawn : Array Bool × σ) : Array Bool × σ :=
  let (b, s) := d.coin drawn.2
  (drawn.1.push b, s)

def coins (d : Dice σ) (n : Nat) (s : σ) : Array Bool × σ := Nat.repeat d.coinStep n (#[], s)

end Dice

end QuadraticPenalty

import QuadraticPenalty.Annealing.Schedule

/-!
The grid of biases that is searched: each range from its low end in equal steps.
-/

namespace QuadraticPenalty

open Scalar

structure Grid (α : Type) where
  linear : α × α
  coupling : α × α
  step : α
  /-- Larger grids are annealed and not scanned. -/
  scanLimit : Nat
  schedule : Schedule α

namespace Grid

variable {α : Type} [ExtendedScalar α]

def default : Grid α where
  linear := (ofInt (-2), two)
  coupling := (ofInt (-1), one)
  step := half
  scanLimit := 1000000
  schedule := .default

/-- The conversion to a word of 64 bits saturates, and the sum after it wraps. -/
def levelsOf (range : α × α) (step : α) : Nat :=
  (min (ExtendedScalar.floor ((range.2 - range.1) / step + tolerance)) (Nat.pow 2 64 - 1) + 1) %
    Nat.pow 2 64

def linearLevels (g : Grid α) : Nat := levelsOf g.linear g.step

def couplingLevels (g : Grid α) : Nat := levelsOf g.coupling g.step

def isRange (range : α × α) : Bool :=
  isFinite range.1 && isFinite range.2 && !lt range.2 range.1

def flaw (g : Grid α) : Option (Misconfiguration α) :=
  if !(lt zero g.step && isFinite g.step) then some (.step g.step)
  else if !isRange g.linear then some (.linearRange g.linear.1 g.linear.2)
  else if !isRange g.coupling then some (.couplingRange g.coupling.1 g.coupling.2)
  else g.schedule.flaw

end Grid

end QuadraticPenalty
